import PlaceGame.Application.Status
import PlaceGame.Rules
import PlaceGame.Steps

/-!
# PlaceGame.Accounts.Outcomes

What a session cycle came to.

`Cycle` is what a transaction has seen of the cycle it runs: the row that it locked, the last answer
of the game to a login or a bootstrap, and the clock readings. `Cycle.outcome` reads off it whether
the account was authenticated, and `ensureLocked_outcome` says that `_ensure_locked` answers and
changes the record accordingly.
-/

namespace PlaceGame

open Coop

/-- The last answer of the game to a login or a bootstrap. -/
inductive Reply where
  | silent
  | rejected
  | token
  | identity (g : String)
  | broken
  deriving DecidableEq, Repr

inductive Outcome where
  /-- Neither the stored token nor a login was accepted. -/
  | failed (now : Time)
  | stored
  | renewed
  /-- The game answered with the identity of another account. -/
  | mismatched
  /-- A token-only account has no token that still works. -/
  | refresh
  | resumed
  deriving DecidableEq, Repr

/-- How a transaction ended; the commit of an `unanswered` one was cancelled. -/
inductive Ending where
  | committed
  | abandoned
  | unanswered
  deriving DecidableEq, Repr

structure Cycle where
  /-- The account row as it was when the transaction locked it. -/
  row : Option (AccountId × GameAccount) := none
  /-- The cycle has read the clock. -/
  begun : Bool := false
  login : Bool := false
  reply : Reply := .silent
  bound : Option String := none
  /-- The clock at the end of a cycle that found no session. -/
  ended : Option Time := none
  /-- The cycle is over: the idle summary was read. -/
  concluded : Bool := false
  /-- What an await raised and no part of the cycle handles. -/
  raised : Option Exc := none
  /-- What the earlier cycles of the transaction came to. -/
  past : List Outcome := []
  /-- The transactions of the call that locked an account. -/
  log : List (List Outcome × Ending) := []

namespace GameAccount

/-- The columns that say whether and why an account is paused. -/
structure Standing where
  authFailureCount : Nat
  authFailureWindowStartedAt : Option Time
  pausedReason : Option String
  authMode : AuthMode
  deriving DecidableEq, Repr

def standing (r : GameAccount) : Standing where
  authFailureCount := r.authFailureCount
  authFailureWindowStartedAt := r.authFailureWindowStartedAt
  pausedReason := r.pausedReason
  authMode := r.authMode

namespace Standing

/-- `_record_auth_failure`. -/
def fail (s : Standing) (now : Time) : Standing :=
  let counted : Standing :=
    match s.authFailureWindowStartedAt with
    | none => { s with authFailureWindowStartedAt := some now, authFailureCount := 1 }
    | some started =>
      if authFailureWindow ≤ now - started then
        { s with authFailureWindowStartedAt := some now, authFailureCount := 1 }
      else { s with authFailureCount := s.authFailureCount + 1 }
  if 3 ≤ counted.authFailureCount then
    { counted with pausedReason := some "authentication_required" }
  else counted

def after (s : Standing) : Outcome → Standing
  | .failed now => s.fail now
  | .stored => s
  | .renewed => { s with authFailureCount := 0, authFailureWindowStartedAt := none }
  | .mismatched => { s with pausedReason := some "account_identity_mismatch" }
  | .refresh => { s with pausedReason := some "session_refresh_required" }
  | .resumed => { s with pausedReason := none }

end Standing

theorem standing_recordAuthFailure (now : Time) (r : GameAccount) :
    (r.recordAuthFailure now).standing = r.standing.fail now := by
  unfold recordAuthFailure countAuthFailure Standing.fail standing
  dsimp only
  cases r.authFailureWindowStartedAt with
  | none => rfl
  | some started =>
    dsimp only
    split <;> split <;> rfl

theorem Standing.authMode_fail (s : Standing) (now : Time) : (s.fail now).authMode = s.authMode := by
  unfold fail
  dsimp only
  cases s.authFailureWindowStartedAt with
  | none => rfl
  | some started =>
    dsimp only
    split <;> split <;> rfl

theorem recordAuthFailure_authMode (now : Time) (r : GameAccount) :
    (r.recordAuthFailure now).authMode = r.authMode :=
  (congrArg Standing.authMode (standing_recordAuthFailure now r)).trans
    (Standing.authMode_fail r.standing now)

end GameAccount

namespace Cycle

/-- The identity of the record inside the transaction. -/
def identity (m : Cycle) (r₀ : GameAccount) : Option String := r₀.gameAccountId.or m.bound

/-- The game answered an unpaused account with the identity of its record. -/
def established (m : Cycle) : Bool :=
  match m.row, m.reply with
  | some (_, r₀), .identity g =>
    r₀.pausedReason.isNone && g != "" && m.identity r₀ == some g
  | _, _ => false

def outcome (m : Cycle) : Option Outcome :=
  m.row.bind fun row =>
    if row.2.pausedReason.isSome then none
    else
      match m.ended, m.reply with
      | some _, .identity g => if g = "" then none else some .mismatched
      | some now, _ =>
        match row.2.authMode with
        | .credentials => some (.failed now)
        | .tokenOnly => some .refresh
      | none, _ =>
        if m.established then some (if m.login then .renewed else .stored) else none

def outcomes (m : Cycle) : List Outcome := m.past ++ m.outcome.toList

def reopen (m : Cycle) (a : AccountId) (r : GameAccount) : Cycle :=
  { row := some (m.row.getD (a, r)), bound := m.bound, past := m.outcomes, log := m.log }

def close (m : Cycle) (ending : Ending) : Cycle :=
  { reply := m.reply
    raised := m.raised
    log := m.log ++ (m.row.map fun _ => (m.outcomes, ending)).toList }

def tick (m : Cycle) (now : Time) : Cycle :=
  if m.concluded = true ∨ m.raised.isSome = true then m
  else if m.begun then { m with ended := m.ended.or (some now) }
  else { m with begun := true }

def hear (m : Cycle) (login : Bool) (reply : Reply) : Cycle :=
  { m with login := m.login || login, reply := if m.concluded then m.reply else reply }

def raise (m : Cycle) (e : Exc) : Cycle := { m with raised := some e }

/-- The errors that the cycle handles when the game raises them. -/
def handled (e : Exc) : Bool := e == .sessionRejected || e == .authenticationRequired

def refuse (m : Cycle) (login : Bool) (e : Exc) : Cycle :=
  if handled e then m.hear login .rejected else (m.hear login .broken).raise e

def next {T : Type} (m : Cycle) : (o : Op T) → Except Exc o.Val → Cycle
  | .accountForUpdate a, .ok (some r) => m.reopen a r
  | .clock, .ok now => m.tick now
  | .login _ _, .ok _ => m.hear true .token
  | .login _ _, .error e => m.refuse true e
  | .bootstrap _, .ok g => m.hear false (.identity g)
  | .bootstrap _, .error e => m.refuse false e
  | .sleep, .error e => if e = .authenticationRequired then m else m.raise e
  | .flushIdentity _ g, .ok true => { m with bound := some g }
  | .idleSummary _ _, .ok _ => { m with concluded := true }
  | .commit _, .ok _ => m.close .committed
  | .commit _, .error e => (m.close .unanswered).raise e
  | .rollback, .ok _ => m.close .abandoned
  | .rollback, .error e => (m.close .abandoned).raise e
  | _, .error e => m.raise e
  | _, .ok _ => m

/-- Reading the clock does not fail, and the database raises nothing by itself. -/
def Answers {T : Type} : (o : Op T) → Except Exc o.Val → Prop
  | .clock, .error _ => False
  | .findIdentity _, .error e | .flushIdentity _ _, .error e => e = .cancelled
  | _, _ => True

end Cycle

theorem cycle_answers {T : Type} {t : TaskId} {w w' : World} {o : Op T} {r : Except Exc o.Val}
    (h : World.Perform t w o r w') : Cycle.Answers o r := by
  rcases h.effect_or with ⟨reply, he⟩ | ⟨hi, rfl, -⟩
  · cases o <;> try exact trivial
    · cases he
      exact trivial
    · cases he
      exact trivial
    · simp only [World.effect, World.flushIdentity] at he
      (repeat' split at he) <;> cases he <;> exact trivial
  · cases o <;> first | exact trivial | rfl | cases hi

/-- What a monitor of session cycles lets pass. -/
structure Allowed where
  select : Cycle → AccountId → Prop := fun _ _ => True
  commit : Cycle → Writes → Prop := fun _ _ => True

def cycles (T : Type) (C : Allowed) : Monitor (sig T) Cycle where
  init := {}
  next := Cycle.next
  ok m
    | .accountForUpdate a => C.select m a
    | .commit ws => C.commit m ws
    | _ => True
  ans _ := Cycle.Answers

namespace Cycle

structure Asks (m m' : Cycle) : Prop where
  row : m'.row = m.row
  begun : m'.begun = m.begun
  bound : m'.bound = m.bound
  ended : m'.ended = m.ended
  concluded : m'.concluded = m.concluded
  past : m'.past = m.past
  log : m'.log = m.log

/-- How the cycle stands when the game's answers are raised as `e`: `_ensure_locked` handles one
error, and lets every other one pass. -/
def Fails (m : Cycle) (e : Exc) : Prop :=
  if e = .authenticationRequired then m.raised = none ∧ ∀ g, m.reply ≠ .identity g
  else m.raised = some e

variable {m m' m'' : Cycle}

theorem Asks.refl (m : Cycle) : m.Asks m := ⟨rfl, rfl, rfl, rfl, rfl, rfl, rfl⟩

theorem Asks.trans (h : m.Asks m') (h' : m'.Asks m'') : m.Asks m'' where
  row := h'.row.trans h.row
  begun := h'.begun.trans h.begun
  bound := h'.bound.trans h.bound
  ended := h'.ended.trans h.ended
  concluded := h'.concluded.trans h.concluded
  past := h'.past.trans h.past
  log := h'.log.trans h.log

theorem Asks.hear (m : Cycle) (login : Bool) (reply : Reply) : m.Asks (m.hear login reply) :=
  ⟨rfl, rfl, rfl, rfl, rfl, rfl, rfl⟩

theorem Asks.raise (m : Cycle) (e : Exc) : m.Asks (m.raise e) :=
  ⟨rfl, rfl, rfl, rfl, rfl, rfl, rfl⟩

theorem Asks.refuse (m : Cycle) (login : Bool) (e : Exc) : m.Asks (m.refuse login e) :=
  by
  unfold Cycle.refuse
  split
  · exact .hear _ _ _
  · exact (Asks.hear _ _ _).trans (Asks.raise _ _)

/-- The state of a cycle that has begun and not asked the game to the end. -/
structure Asking (m : Cycle) : Prop where
  concluded : m.concluded = false
  raised : m.raised = none
  begun : m.begun = true
  ended : m.ended = none

theorem Asking.asks (h : m.Asking) (ha : m.Asks m') (hr : m'.raised = none) : m'.Asking :=
  ⟨ha.concluded.trans h.concluded, hr, ha.begun.trans h.begun, ha.ended.trans h.ended⟩

theorem Asking.hear (h : m.Asking) (login : Bool) (reply : Reply) : (m.hear login reply).Asking :=
  h.asks (Asks.hear _ _ _) h.raised

theorem Asking.reply_hear (h : m.Asking) (login : Bool) (reply : Reply) :
    (m.hear login reply).reply = reply := by
  simp [Cycle.hear, h.concluded]

/-- A rejected session: the cycle goes on, and has heard no identity. -/
theorem Asking.rejected (h : m.Asking) (login : Bool) :
    (m.refuse login .sessionRejected).raised = none ∧
      (m.refuse login .sessionRejected).reply = .rejected :=
  ⟨by simp [refuse, Cycle.hear, handled, h.raised], h.reply_hear login _⟩

theorem Asking.reply_refuse (h : m.Asking) (login : Bool) (e : Exc) (g : String) :
    (m.refuse login e).reply ≠ .identity g := by
  have hreply : ∀ reply, (m.hear login reply).reply = reply := h.reply_hear login
  unfold refuse
  split
  · rw [hreply]
    nofun
  · show (m.hear login .broken).reply ≠ _
    rw [hreply]
    nofun

theorem Asking.refused (h : m.Asking) (login : Bool) {e : Exc} (he : e ≠ .sessionRejected) :
    (m.refuse login e).Fails e := by
  have hreply := h.reply_refuse login e
  unfold Fails
  split
  · rename_i ha
    subst ha
    exact ⟨h.raised, hreply⟩
  · rename_i ha
    simp [refuse, handled, he, ha, Cycle.raise]

end Cycle

section Asking

variable {T σ : Type} {P : Ports} {C : Allowed} {m : Cycle} {s : σ}

@[simp] theorem cycles_next (o : Op T) (r : Except Exc o.Val) :
    (cycles T C).next m o r = m.next o r := rfl

theorem wp_cycles_any {α : Type} (p : Proc (sig T) α) (m : Cycle) :
    p.wp (cycles T {}) (fun _ _ => True) m := by
  induction p generalizing m with
  | ret _ => trivial
  | call o k ih =>
    refine ⟨?_, fun r _ => ih r _⟩
    cases o <;> trivial

def LoggedIn (m' : Cycle) : Except Exc Login → Prop
  | .ok login => m'.reply = .identity login.identity ∧ m'.login = true ∧ m'.raised = none
  | .error .sessionRejected => m'.raised = none ∧ m'.reply = .rejected
  | .error e => m'.Fails e ∧ ∀ g, m'.reply ≠ .identity g

theorem loginOnce_outcome (username password : String) (h : m.Asking) :
    (loginOnce P username password : Coro (sig T) σ Login).wp (cycles T C)
      (fun m' r s' => s' = s ∧ m.Asks m' ∧ LoggedIn m' r) m s := by
  have herror : ∀ {m' : Cycle} (login : Bool) (e : Exc), m'.Asking →
      LoggedIn (m'.refuse login e) (.error e) := by
    intro m' login e h'
    by_cases he : e = .sessionRejected
    · subst he
      exact h'.rejected login
    · unfold LoggedIn
      split
      · rename_i heq
        cases heq
      · rename_i heq
        cases heq
        exact absurd rfl he
      · rename_i heq
        cases heq
        exact ⟨h'.refused login he, h'.reply_refuse login e⟩
  unfold loginOnce
  rw [Coro.wp_bind, wp_await]
  refine ⟨trivial, ?_⟩
  rintro (e | token) -
  · exact ⟨rfl, .refuse _ _ _, herror true e h⟩
  · refine ⟨trivial, ?_⟩
    rintro (e | identity) -
    · exact ⟨rfl, (Cycle.Asks.hear _ _ _).trans (.refuse _ _ _),
        herror false e (h.hear true .token)⟩
    · refine ⟨rfl, (Cycle.Asks.hear _ _ _).trans (.hear _ _ _), ?_⟩
      refine ⟨(h.hear true .token).reply_hear false _, ?_, h.raised⟩
      simp [Cycle.next, Cycle.hear]

/-- What `_login_and_bootstrap` leaves of a cycle. -/
def LoginEnds (m' : Cycle) : Except Exc Login → Prop
  | .ok login => m'.reply = .identity login.identity ∧ m'.login = true ∧ m'.raised = none
  | .error e => m'.Fails e ∧ ∀ g, m'.reply ≠ .identity g

theorem loginAttempts_outcome (username password : String) (left : Nat) (h : m.Asking)
    (hreply : ∀ g, m.reply ≠ .identity g) :
    (loginAttempts P username password left : Coro (sig T) σ Login).wp (cycles T C)
      (fun m' r s' => s' = s ∧ m.Asks m' ∧ LoginEnds m' r) m s := by
  induction left generalizing m with
  | zero => exact ⟨rfl, .refl m, by simpa [Cycle.Fails] using ⟨h.raised, hreply⟩, hreply⟩
  | succ left ih =>
    unfold loginAttempts
    refine wp_try (loginOnce_outcome username password h) ?_
    rintro m' r s' ⟨rfl, ha, hl⟩
    split
    · exact ⟨rfl, ha, hl⟩
    · have hnext : (loginAttempts P username password left : Coro (sig T) σ Login).wp
          (cycles T C) (fun m'' r s'' => s'' = s' ∧ m.Asks m'' ∧ LoginEnds m'' r) m' s' := by
        refine Coro.wp_mono (ih (h.asks ha hl.1) (by simp [hl.2])) ?_
        rintro m'' r s'' ⟨rfl, ha', hl'⟩
        exact ⟨rfl, ha.trans ha', hl'⟩
      dsimp only
      rw [Coro.wp_ite]
      refine ⟨fun _ => ?_, fun _ => hnext⟩
      rw [Coro.wp_bind, wp_await]
      refine ⟨trivial, ?_⟩
      rintro (e | _) -
      · show _ ∧ m.Asks (if e = .authenticationRequired then m' else m'.raise e) ∧ _
        by_cases he : e = .authenticationRequired
        · subst he
          refine ⟨rfl, ha, ?_⟩
          simp [LoginEnds, Cycle.Fails, Cycle.next, hl.1, hl.2]
        · rw [if_neg he]
          refine ⟨rfl, ha.trans (.raise _ _), ?_⟩
          simp [LoginEnds, Cycle.Fails, Cycle.next, he, Cycle.raise, hl.2]
      · exact hnext
    · rename_i e hne
      refine ⟨rfl, ha, ?_⟩
      unfold LoggedIn at hl
      split at hl
      · rename_i heq
        cases heq
      · rename_i heq
        cases heq
        exact absurd rfl hne
      · rename_i heq
        cases heq
        exact hl

theorem loginAndBootstrap_outcome (username password : String) (h : m.Asking)
    (hreply : ∀ g, m.reply ≠ .identity g) :
    (loginAndBootstrap P username password : Coro (sig T) σ Login).wp (cycles T C)
      (fun m' r s' => s' = s ∧ m.Asks m' ∧ LoginEnds m' r) m s :=
  loginAttempts_outcome username password 3 h hreply

end Asking

section Origin

variable {T : Type} {C : Allowed} {m : Cycle} {o : Op T} {r : Except Exc o.Val}

theorem Cycle.raised_refuse {login : Bool} {e e' : Exc} (h : (m.refuse login e).raised = some e') :
    m.raised = some e' ∨ e = e' := by
  unfold Cycle.refuse at h
  split at h
  · exact .inl h
  · exact .inr (Option.some.inj h)

/-- The error that a cycle keeps is one that an await raised. -/
theorem Cycle.raised_next {e : Exc} (h : (m.next o r).raised = some e) :
    m.raised = some e ∨ r = .error e := by
  cases r with
  | error e' =>
    have hr : m.raised = some e ∨ e' = e := by
      cases o with
      | login username password => exact raised_refuse h
      | bootstrap api => exact raised_refuse h
      | sleep =>
        simp only [Cycle.next] at h
        split at h
        · exact .inl h
        · exact .inr (Option.some.inj h)
      | _ => exact .inr (Option.some.inj h)
    exact hr.imp id (congrArg _)
  | ok v =>
    left
    cases o with
    | clock =>
      simp only [Cycle.next, Cycle.tick] at h
      split at h
      · exact h
      · split at h <;> exact h
    | accountForUpdate a =>
      cases v with
      | none => exact h
      | some row => cases h
    | flushIdentity a g => cases v <;> exact h
    | _ => exact h

/-- The identity that a cycle has heard is one that a bootstrap answered. -/
theorem Cycle.reply_next {g : String} (h : (m.next o r).reply = .identity g) :
    m.reply = .identity g ∨ ∃ api, (⟨o, r⟩ : Event (sig T)) = ⟨.bootstrap api, .ok g⟩ := by
  have hhear : ∀ (login : Bool) {reply : Reply}, (m.hear login reply).reply = .identity g →
      m.reply = .identity g ∨ reply = .identity g := by
    intro login reply h'
    simp only [hear] at h'
    split at h'
    · exact .inl h'
    · exact .inr h'
  have hrefuse : ∀ {login : Bool} {e : Exc}, (m.refuse login e).reply = .identity g →
      m.reply = .identity g := by
    intro login e h'
    unfold refuse at h'
    split at h' <;> exact (hhear login h').resolve_right nofun
  cases r with
  | error e =>
    left
    cases o with
    | login username password => exact hrefuse h
    | bootstrap api => exact hrefuse h
    | sleep =>
      simp only [Cycle.next] at h
      split at h <;> exact h
    | _ => exact h
  | ok v =>
    cases o with
    | bootstrap api =>
      refine (hhear _ h).imp id fun hv => ⟨api, ?_⟩
      cases hv
      rfl
    | login username password => exact .inl ((hhear _ h).resolve_right nofun)
    | clock =>
      left
      simp only [Cycle.next, Cycle.tick] at h
      split at h
      · exact h
      · split at h <;> exact h
    | accountForUpdate a =>
      cases v with
      | none => exact .inl h
      | some row => cases h
    | flushIdentity a g => cases v <;> exact .inl h
    | _ => exact .inl h

/-- What a cycle knows of raised errors and identities comes from the awaits of the call. -/
theorem Cycle.origin (h : List (Event (sig T))) :
    (∀ e, ((cycles T C).after h).raised = some e → ∃ o, (⟨o, .error e⟩ : Event (sig T)) ∈ h) ∧
    ∀ g, ((cycles T C).after h).reply = .identity g →
      ∃ api, (⟨.bootstrap api, .ok g⟩ : Event (sig T)) ∈ h := by
  induction h with
  | nil => exact ⟨nofun, nofun⟩
  | cons ev h ih =>
    obtain ⟨o, r⟩ := ev
    constructor
    · intro e he
      rcases raised_next he with he | heq
      · obtain ⟨o', hmem⟩ := ih.1 e he
        exact ⟨o', List.mem_cons_of_mem _ hmem⟩
      · exact ⟨o, heq ▸ List.mem_cons_self⟩
    · intro g hg
      rcases reply_next hg with hg | ⟨api, heq⟩
      · obtain ⟨api, hmem⟩ := ih.2 g hg
        exact ⟨api, List.mem_cons_of_mem _ hmem⟩
      · exact ⟨api, heq ▸ List.mem_cons_self⟩

end Origin

/-- The session works on the account that the cycle is about. -/
structure Works (a : AccountId) (r₀ : GameAccount) (m : Cycle) (f : Frame) : Prop where
  row : m.row = some (a, r₀)
  identity : f.record.gameAccountId = m.identity r₀
  loaded : f.loaded = some a
  authMode : f.record.authMode = r₀.authMode

/-- The cycle ended with an answer: `found` says whether there is a session. -/
structure Settled (a : AccountId) (r₀ : GameAccount) (m : Cycle) (f : Frame) (found : Bool)
    (m' : Cycle) (f' : Frame) : Prop where
  works : Works a r₀ m' f'
  raised : m'.raised = none
  concluded : m'.concluded = false
  past : m'.past = m.past
  log : m'.log = m.log
  established : m'.established = found
  ended : found = true → m'.ended = none
  final : found = false → ∀ now,
    ({ m' with ended := m'.ended.or (some now) } : Cycle).outcome = m'.outcome
  standing : found = true ∨ r₀.authMode = .credentials →
    f'.record.standing = m'.outcome.elim f.record.standing f.record.standing.after

/-- The cycle raised: it changed nothing and came to nothing. -/
structure Dropped (m : Cycle) (f : Frame) (m' : Cycle) (f' : Frame) : Prop where
  frame : f' = f
  asks : m.Asks m'
  established : m'.established = false

section Working

variable {a : AccountId} {r₀ : GameAccount} {m m' : Cycle} {f f' : Frame}

theorem Works.asks (h : Works a r₀ m f) (ha : m.Asks m') : Works a r₀ m' f where
  row := ha.row.trans h.row
  identity := by rw [h.identity, Cycle.identity, Cycle.identity, ha.bound]
  loaded := h.loaded
  authMode := h.authMode

theorem Cycle.established_iff (hrow : m.row = some (a, r₀)) (hu : r₀.pausedReason = none) :
    m.established = true ↔ ∃ g, m.reply = .identity g ∧ g ≠ "" ∧ m.identity r₀ = some g := by
  unfold Cycle.established
  rw [hrow]
  cases hreply : m.reply <;> simp [hu]

theorem Cycle.not_established (h : ∀ g, m.reply ≠ .identity g) : m.established = false := by
  unfold Cycle.established
  split
  · rename_i hg
    exact absurd hg (h _)
  · rfl

theorem Cycle.outcome_of_paused (hrow : m.row = some (a, r₀)) (hp : r₀.pausedReason.isSome = true) :
    m.outcome = none := by
  simp [Cycle.outcome, hrow, hp]

theorem Cycle.outcome_open (hended : m.ended = none) (he : m.established = false) :
    m.outcome = none := by
  unfold Cycle.outcome
  cases m.row with
  | none => rfl
  | some row => simp [hended, he]

theorem Dropped.outcome (h : Dropped m f m' f') (hended : m.ended = none) : m'.outcome = none :=
  Cycle.outcome_open (h.asks.ended.trans hended) h.established

end Working

section Ensure

variable {T : Type} {P : Ports} {C : Allowed} {a : AccountId} {r₀ : GameAccount}
variable {m : Cycle} {f : Frame}

theorem wp_ended {α : Type} {g : Time → Tx T α} {Q : Cycle → Except Exc α → Frame → Prop}
    (h : m.Asking) (hk : ∀ now, (g now).wp (cycles T C) Q { m with ended := some now } f) :
    (clock >>= g).wp (cycles T C) Q m f := by
  rw [Coro.wp_bind, wp_clock]
  refine ⟨trivial, ?_⟩
  rintro (e | now) ha
  · exact ha.elim
  · have htick : m.tick now = { m with ended := some now } := by
      simp [Cycle.tick, h.concluded, h.raised, h.begun, h.ended]
    rw [cycles_next, Cycle.next, htick]
    exact hk now

theorem identityMismatch_outcome (actor : Actor) (h : m.Asking) :
    (identityMismatch a actor : Tx T Unit).wp (cycles T C)
      (fun m' r f' => r = .ok () ∧ ∃ now, m' = { m with ended := some now } ∧
        f'.record = f.record.identityMismatch now ∧ f'.loaded = f.loaded) m f := by
  unfold identityMismatch
  refine wp_ended h fun now => ?_
  rw [Coro.wp_bind, wp_modifyRecord, Coro.chain_ok, wp_audit]
  exact ⟨rfl, now, rfl, rfl, rfl⟩

/-- The record now has the identity that the game answered with. -/
structure Matched (a : AccountId) (r₀ : GameAccount) (m : Cycle) (f : Frame) (m' : Cycle)
    (f' : Frame) : Prop where
  works : Works a r₀ m' f'
  asking : m'.Asking
  login : m'.login = m.login
  reply : m'.reply = m.reply
  past : m'.past = m.past
  log : m'.log = m.log
  established : m'.established = true
  standing : f'.record.standing = f.record.standing

/-- What `_bind_or_match_identity` leaves of a cycle. -/
def Binds (a : AccountId) (r₀ : GameAccount) (m : Cycle) (f : Frame) (m' : Cycle) :
    Except Exc Bool → Frame → Prop
  | .ok true, f' => Matched a r₀ m f m' f'
  | .ok false, f' => Settled a r₀ m f false m' f'
  | .error e, f' => Dropped m f m' f' ∧ e ≠ .authenticationRequired ∧ m'.raised = some e

theorem bindOrMatchIdentity_outcome (g : String) (actor : Actor) (h : Works a r₀ m f)
    (hu : r₀.pausedReason = none) (hm : m.Asking) (hg : m.reply = .identity g) :
    (bindOrMatchIdentity a g actor : Tx T Bool).wp (cycles T C) (Binds a r₀ m f) m f := by
  have hsettled : m.established = false → g = "" → Settled a r₀ m f false m f := fun he hempty =>
    { works := h, raised := hm.raised, concluded := hm.concluded, past := rfl, log := rfl
      established := he, ended := nofun
      final := fun _ now => by
        rw [Cycle.outcome_open hm.ended he]
        simp [Cycle.outcome, h.row, hg, hempty, hm.ended]
      standing := fun _ => by rw [Cycle.outcome_open hm.ended he]; rfl }
  have hmismatch : g ≠ "" → m.identity r₀ ≠ some g →
      (do identityMismatch a actor; return false : Tx T Bool).wp (cycles T C) (Binds a r₀ m f)
        m f := by
    intro hne hid
    refine Coro.wp_seq (identityMismatch_outcome actor hm) ?_ ?_
    · rintro m' _ f' ⟨-, now, rfl, hrec, hload⟩
      have hrow : ({ m with ended := some now } : Cycle).row = some (a, r₀) := h.row
      refine ⟨⟨h.row, ?_, hload.trans h.loaded, ?_⟩, hm.raised, hm.concluded, rfl, rfl, ?_, nofun,
        fun _ _ => rfl, ?_⟩
      · rw [hrec]
        exact h.identity
      · rw [hrec]
        exact h.authMode
      · rw [Bool.eq_false_iff, Ne, Cycle.established_iff hrow hu]
        rintro ⟨g', hg', -, hid'⟩
        rw [hg] at hg'
        cases hg'
        exact hid hid'
      · intro _
        simp only [Cycle.outcome, h.row, hg, hne, Option.bind_some, hu, Option.isSome_none,
          Bool.false_eq_true, if_false, Option.elim_some, hrec]
        rfl
    · rintro m' e f' ⟨hr, -⟩
      cases hr
  unfold bindOrMatchIdentity
  rw [Coro.wp_ite]
  constructor
  · intro hempty
    refine hsettled ?_ hempty
    rw [Bool.eq_false_iff, Ne, Cycle.established_iff h.row hu]
    rintro ⟨g', hg', hne, -⟩
    rw [hg] at hg'
    cases hg'
    exact hne hempty
  intro hne
  rw [Coro.wp_bind, wp_record, Coro.chain_ok]
  cases hn : f.record.gameAccountId with
  | none =>
    have hnone : m.identity r₀ = none := h.identity.symm.trans hn
    have hid : m.identity r₀ ≠ some g := by simp [hnone]
    have hdropped : Dropped m f (m.raise .cancelled) f :=
      ⟨rfl, .raise _ _, by
        rw [Bool.eq_false_iff, Ne, Cycle.established_iff (m := m.raise .cancelled) h.row hu]
        rintro ⟨g', -, -, hid'⟩
        exact absurd (hnone.symm.trans hid') (by simp)⟩
    dsimp only
    rw [Coro.wp_bind, wp_await]
    refine ⟨trivial, ?_⟩
    rintro (e | existing) he
    · cases he
      exact ⟨hdropped, nofun, by simp [Cycle.next, Cycle.raise]⟩
    · rw [Coro.chain_ok, Coro.wp_ite]
      refine ⟨fun _ => hmismatch hne hid, fun _ => ?_⟩
      rw [Coro.wp_bind, wp_await]
      refine ⟨trivial, ?_⟩
      rintro (e | flushed) he
      · cases he
        exact ⟨hdropped, nofun, by simp [Cycle.next, Cycle.raise]⟩
      · rw [Coro.chain_ok, Coro.wp_ite]
        cases flushed with
        | false => exact ⟨nofun, fun _ => hmismatch hne hid⟩
        | true =>
          refine ⟨fun _ => ?_, fun hf => absurd rfl hf⟩
          rw [Coro.wp_bind, wp_modifyRecord, Coro.chain_ok]
          have hbound : ({ m with bound := some g } : Cycle).identity r₀ = some g := by
            unfold Cycle.identity at hnone ⊢
            rw [Option.or_eq_none_iff] at hnone
            simp [hnone.1]
          exact
            { works := ⟨h.row, hbound.symm, h.loaded, h.authMode⟩
              asking := ⟨hm.concluded, hm.raised, hm.begun, hm.ended⟩
              login := rfl, reply := rfl, past := rfl, log := rfl
              established := (Cycle.established_iff (m := { m with bound := some g }) h.row hu).mpr
                ⟨g, hg, hne, hbound⟩
              standing := rfl }
  | some bound =>
    have hid := h.identity.symm.trans hn
    dsimp only
    rw [Coro.wp_ite]
    constructor
    · rintro rfl
      exact
        { works := h, asking := hm, login := rfl, reply := rfl, past := rfl, log := rfl
          established := (Cycle.established_iff h.row hu).mpr ⟨bound, hg, hne, hid⟩
          standing := rfl }
    · intro hb
      refine hmismatch hne ?_
      rw [hid]
      simpa using hb

/-- What a part of `_ensure_locked` that returns a resolution leaves of a cycle. -/
def Resolves (a : AccountId) (r₀ : GameAccount) (m : Cycle) (f : Frame) (m' : Cycle) :
    Except Exc SessionResolution → Frame → Prop
  | .ok resolution, f' => Settled a r₀ m f resolution.api.isSome m' f' ∧
    ∀ api g, resolution.api = some (api, g) → m'.reply = .identity g
  | .error e, f' => Dropped m f m' f' ∧ m'.Fails e

theorem Settled.of_asks {m₁ m' : Cycle} {f' : Frame} {found : Bool} (ha : m.Asks m₁)
    (h : Settled a r₀ m₁ f found m' f') : Settled a r₀ m f found m' f' :=
  { h with past := h.past.trans ha.past, log := h.log.trans ha.log }

theorem Resolves.of_asks {c : Tx T SessionResolution} {m₁ : Cycle}
    (ha : m.Asks m₁) (h : c.wp (cycles T C) (Resolves a r₀ m₁ f) m₁ f) :
    c.wp (cycles T C) (Resolves a r₀ m f) m₁ f := by
  refine Coro.wp_mono h ?_
  rintro m' (e | resolution) f' hr
  · exact ⟨⟨hr.1.frame, ha.trans hr.1.asks, hr.1.established⟩, hr.2⟩
  · exact ⟨hr.1.of_asks ha, hr.2⟩

/-- A part of `_ensure_locked` that finds no session. -/
def Unresolved (a : AccountId) (r₀ : GameAccount) (m : Cycle) (f : Frame) (m' : Cycle)
    (r : Except Exc SessionResolution) (f' : Frame) : Prop :=
  ∃ resolution, r = .ok resolution ∧ resolution.api = none ∧ Settled a r₀ m f false m' f'

theorem Unresolved.resolves {m' : Cycle} {r : Except Exc SessionResolution} {f' : Frame}
    (h : Unresolved a r₀ m f m' r f') : Resolves a r₀ m f m' r f' := by
  obtain ⟨resolution, rfl, hnone, hs⟩ := h
  refine ⟨by simpa [hnone] using hs, ?_⟩
  rw [hnone]
  exact nofun

theorem unauthenticated_outcome {m₁ : Cycle} {f₁ : Frame} (h : Settled a r₀ m f false m₁ f₁) :
    (unauthenticated a : Tx T SessionResolution).wp (cycles T C) (Unresolved a r₀ m f) m₁ f₁ := by
  unfold unauthenticated
  rw [Coro.wp_bind, wp_record, Coro.chain_ok]
  exact ⟨_, rfl, rfl, h⟩

/-- Edits of a record that was matched. -/
theorem Matched.settled {m₁ : Cycle} {f₁ f₂ : Frame} (h : Matched a r₀ m f m₁ f₁)
    (hu : r₀.pausedReason = none) (hid : f₂.record.gameAccountId = f₁.record.gameAccountId)
    (hload : f₂.loaded = f₁.loaded) (hmode : f₂.record.authMode = f₁.record.authMode)
    (hstand : f₂.record.standing = f₁.record.standing.after (if m₁.login then .renewed else .stored)) :
    Settled a r₀ m f true m₁ f₂ where
  works := ⟨h.works.row, hid.trans h.works.identity, hload.trans h.works.loaded,
    hmode.trans h.works.authMode⟩
  raised := h.asking.raised
  concluded := h.asking.concluded
  past := h.past
  log := h.log
  established := h.established
  ended _ := h.asking.ended
  final := nofun
  standing _ := by
    have hout : m₁.outcome = some (if m₁.login then .renewed else .stored) := by
      simp [Cycle.outcome, h.works.row, hu, h.asking.ended, h.established]
    rw [hout, Option.elim_some, ← h.standing]
    exact hstand

theorem matchSession_outcome (actor : Actor) (api : GameApi) (g : String) (now : Time)
    (h : Works a r₀ m f) (hu : r₀.pausedReason = none) (hm : m.Asking) (hg : m.reply = .identity g)
    (hlogin : m.login = false) :
    (matchSession a actor api g now : Tx T SessionResolution).wp (cycles T C) (Resolves a r₀ m f)
      m f := by
  unfold matchSession
  refine Coro.wp_seq (bindOrMatchIdentity_outcome g actor h hu hm hg) ?_ ?_
  · rintro m' matched f' hb
    rw [Coro.wp_ite]
    cases matched with
    | true =>
      refine ⟨fun _ => ?_, fun hne => absurd rfl hne⟩
      unfold authenticated
      rw [Coro.wp_bind, wp_modifyRecord, Coro.chain_ok, Coro.wp_bind, wp_record, Coro.chain_ok]
      refine ⟨Matched.settled hb hu rfl rfl rfl ?_, ?_⟩
      · rw [hb.login, hlogin]
        rfl
      · rintro api' g' ⟨⟩
        exact hb.reply.trans hg
    | false => exact ⟨nofun, fun _ => Coro.wp_mono (unauthenticated_outcome hb) fun _ _ _ => Unresolved.resolves⟩
  · rintro m' e f' ⟨hd, hne, hr⟩
    exact ⟨hd, by simp [Cycle.Fails, hne, hr]⟩

theorem pauseForRefresh_outcome (actor : Actor) (h : Works a r₀ m f) (hm : m.Asking)
    (he : m.established = false) (hmode : r₀.authMode = .tokenOnly) :
    (pauseForRefresh a actor : Tx T SessionResolution).wp (cycles T C) (Unresolved a r₀ m f)
      m f := by
  unfold pauseForRefresh
  refine wp_ended hm fun now => ?_
  rw [Coro.wp_bind, wp_modifyRecord, Coro.chain_ok, Coro.wp_bind, wp_audit, Coro.chain_ok]
  refine unauthenticated_outcome
    ⟨⟨h.row, h.identity, h.loaded, h.authMode⟩, hm.raised, hm.concluded, rfl, rfl, he, nofun,
      fun _ _ => rfl, ?_⟩
  rw [hmode]
  rintro (h | h) <;> cases h

theorem recordAuthFailure_outcome (actor : Actor) (h : Works a r₀ m f) (hm : m.Asking)
    (hu : r₀.pausedReason = none) (hg : ∀ g, m.reply ≠ .identity g) :
    (recordAuthFailure a actor : Tx T SessionResolution).wp (cycles T C) (Unresolved a r₀ m f)
      m f := by
  unfold recordAuthFailure
  refine wp_ended hm fun now => ?_
  rw [Coro.wp_bind, wp_modifyRecord, Coro.chain_ok, Coro.wp_bind, wp_record, Coro.chain_ok,
    Coro.wp_bind, wp_audit, Coro.chain_ok]
  refine unauthenticated_outcome
    ⟨⟨h.row, (GameAccount.recordAuthFailure_gameAccountId now _).trans h.identity, h.loaded,
      (GameAccount.recordAuthFailure_authMode now _).trans h.authMode⟩, hm.raised, hm.concluded, rfl, rfl,
      Cycle.not_established hg, nofun, fun _ _ => rfl, ?_⟩
  intro hstand
  have hcred : r₀.authMode = .credentials := hstand.resolve_left nofun
  have hout : ({ m with ended := some now } : Cycle).outcome = some (.failed now) := by
    unfold Cycle.outcome
    cases hreply : m.reply with
    | identity g => exact absurd hreply (hg g)
    | _ => simp [h.row, hu, hcred]
  rw [hout]
  exact GameAccount.standing_recordAuthFailure now f.record

theorem wp_bootstrap {α : Type} {api : GameApi} {g : Except Exc String → Tx T α}
    {Q : Cycle → Except Exc α → Frame → Prop}
    (hok : ∀ i, (g (.ok i)).wp (cycles T C) Q (m.hear false (.identity i)) f)
    (herr : ∀ e, (g (.error e)).wp (cycles T C) Q (m.refuse false e) f) :
    (attempt (await (.bootstrap api)) >>= g).wp (cycles T C) Q m f := by
  rw [Coro.wp_bind, wp_attempt, wp_await]
  refine ⟨trivial, ?_⟩
  rintro (e | i) -
  · exact herr e
  · exact hok i

theorem refused_outcome {α : Type} {e : Exc} (hm : m.Asking) (he : e ≠ .sessionRejected) :
    (raise e : Tx T α).wp (cycles T C)
      (fun m' r f' => r = .error e ∧ Dropped m f m' f' ∧ m'.Fails e) (m.refuse false e) f := by
  exact ⟨rfl, ⟨rfl, .refuse _ _ _, Cycle.not_established (hm.reply_refuse false e)⟩,
    hm.refused false he⟩

theorem ensureTokenOnly_outcome (actor : Actor) (token : String) (now : Time)
    (h : Works a r₀ m f) (hu : r₀.pausedReason = none) (hm : m.Asking) (hlogin : m.login = false)
    (hmode : r₀.authMode = .tokenOnly) :
    (ensureTokenOnly a actor token now : Tx T SessionResolution).wp (cycles T C)
      (Resolves a r₀ m f) m f := by
  unfold ensureTokenOnly
  refine wp_bootstrap (fun g => ?_) fun e => ?_
  · refine Resolves.of_asks (.hear _ _ _) (matchSession_outcome actor _ g now
      (h.asks (.hear _ _ _)) hu (hm.hear _ _) (hm.reply_hear _ _) ?_)
    simp [Cycle.hear, hlogin]
  · split
    · rename_i heq
      cases heq
      obtain ⟨hr, hreply⟩ := hm.rejected false
      exact Resolves.of_asks (.refuse _ _ _) (Coro.wp_mono (pauseForRefresh_outcome actor
        (h.asks (.refuse _ _ _)) (hm.asks (.refuse _ _ _) hr)
        (Cycle.not_established (by simp [hreply])) hmode) fun _ _ _ => Unresolved.resolves)
    · rename_i hne heq
      cases heq
      refine Coro.wp_mono (refused_outcome hm fun he => hne (he ▸ rfl)) ?_
      rintro m' r f' ⟨rfl, hd⟩
      exact hd
    · rename_i heq
      cases heq

/-- What the stored token leaves of a cycle; `none` is a rejected token. -/
def Stores (a : AccountId) (r₀ : GameAccount) (m : Cycle) (f : Frame) (m' : Cycle) :
    Except Exc (Option SessionResolution) → Frame → Prop
  | .ok (some resolution), f' => Resolves a r₀ m f m' (.ok resolution) f'
  | .ok none, f' => f' = f ∧ m.Asks m' ∧ m'.raised = none ∧ m'.reply = .rejected
  | .error e, f' => Dropped m f m' f' ∧ m'.Fails e

theorem useStoredToken_outcome (actor : Actor) (token : String) (now : Time)
    (h : Works a r₀ m f) (hu : r₀.pausedReason = none) (hm : m.Asking) (hlogin : m.login = false) :
    (useStoredToken a actor token now : Tx T (Option SessionResolution)).wp (cycles T C)
      (Stores a r₀ m f) m f := by
  unfold useStoredToken
  refine wp_bootstrap (fun g => ?_) fun e => ?_
  · refine Coro.wp_seq (Resolves.of_asks (.hear _ _ _) (matchSession_outcome actor _ g now
      (h.asks (.hear _ _ _)) hu (hm.hear _ _) (hm.reply_hear _ _) ?_)) ?_ fun _ _ _ hr => hr
    · simp [Cycle.hear, hlogin]
    · exact fun _ _ _ hr => hr
  · split
    · rename_i heq
      cases heq
      exact ⟨rfl, .refuse _ _ _, hm.rejected false⟩
    · rename_i hne heq
      cases heq
      refine Coro.wp_mono (refused_outcome hm fun he => hne (he ▸ rfl)) ?_
      rintro m' r f' ⟨rfl, hd⟩
      exact hd
    · rename_i heq
      cases heq

theorem renewSession_outcome (actor : Actor) (now : Time) (h : Works a r₀ m f)
    (hu : r₀.pausedReason = none) (hm : m.Asking) (hg : ∀ g, m.reply ≠ .identity g) :
    (renewSession P a actor now : Tx T SessionResolution).wp (cycles T C) (Resolves a r₀ m f)
      m f := by
  have hmissing : Dropped m f m f ∧ m.Fails .authenticationRequired :=
    ⟨⟨rfl, .refl m, Cycle.not_established hg⟩, by simpa [Cycle.Fails] using ⟨hm.raised, hg⟩⟩
  unfold renewSession
  rw [Coro.wp_bind, wp_record, Coro.chain_ok]
  split
  · rename_i username password _ _
    rw [Coro.wp_bind, wp_raiseIf]
    refine ⟨fun _ => hmissing, fun _ => ?_⟩
    rw [Coro.chain_ok]
    refine Coro.wp_seq (loginAndBootstrap_outcome username password hm hg) ?_ ?_
    · rintro m₁ login f₁ ⟨rfl, ha, hreply, hlogin, hr⟩
      refine Resolves.of_asks ha (Coro.wp_seq (bindOrMatchIdentity_outcome login.identity actor
        (h.asks ha) hu (hm.asks ha hr) hreply) ?_ ?_)
      · intro m' matched f' hb
        rw [Coro.wp_ite]
        cases matched with
        | true =>
          refine ⟨fun _ => ?_, fun hne => absurd rfl hne⟩
          rw [Coro.wp_bind, wp_writeToken, Coro.chain_ok]
          refine ⟨Matched.settled hb hu rfl rfl rfl ?_, ?_⟩
          · rw [hb.login, hlogin]
            rfl
          · rintro api' g' ⟨⟩
            exact hb.reply.trans hreply
        | false => exact ⟨nofun, fun _ => Coro.wp_mono (unauthenticated_outcome hb) fun _ _ _ => Unresolved.resolves⟩
      · rintro m' e f' ⟨hd, hne, hr'⟩
        exact ⟨hd, by simp [Cycle.Fails, hne, hr']⟩
    · rintro m' e f' ⟨rfl, ha, hf, hreply⟩
      exact ⟨⟨rfl, ha, Cycle.not_established hreply⟩, hf⟩
  · exact hmissing

theorem ensureUnpaused_outcome (actor : Actor) (now : Time) (h : Works a r₀ m f)
    (hu : r₀.pausedReason = none) (hm : m.Asking) (hreply : m.reply = .silent)
    (hlogin : m.login = false) :
    (ensureUnpaused P a actor now : Tx T SessionResolution).wp (cycles T C) (Resolves a r₀ m f)
      m f := by
  have hg : ∀ g, m.reply ≠ .identity g := by simp [hreply]
  have hmode := h.authMode
  have hrefresh : r₀.authMode = .tokenOnly →
      (pauseForRefresh a actor : Tx T SessionResolution).wp (cycles T C) (Resolves a r₀ m f) m f :=
    fun htoken => Coro.wp_mono
      (pauseForRefresh_outcome actor h hm (Cycle.not_established hg) htoken)
      fun _ _ _ => Unresolved.resolves
  unfold ensureUnpaused
  rw [Coro.wp_bind, wp_record, Coro.chain_ok]
  dsimp only
  split
  · rename_i htoken _
    exact hrefresh (hmode.symm.trans htoken)
  · rename_i htoken _
    rw [Coro.wp_ite]
    exact ⟨fun _ => hrefresh (hmode.symm.trans htoken),
      fun _ => ensureTokenOnly_outcome actor _ now h hu hm hlogin (hmode.symm.trans htoken)⟩
  · exact renewSession_outcome actor now h hu hm hg
  · rw [Coro.wp_ite]
    refine ⟨fun _ => renewSession_outcome actor now h hu hm hg, fun _ => ?_⟩
    refine Coro.wp_seq (useStoredToken_outcome actor _ now h hu hm hlogin) ?_ fun _ _ _ hr => hr
    rintro m₁ (_ | resolution) f₁ hr
    · obtain ⟨rfl, ha, hraised, hrejected⟩ := hr
      exact Resolves.of_asks ha (renewSession_outcome actor now (h.asks ha) hu (hm.asks ha hraised)
        (by simp [hrejected]))
    · exact hr

/-- What `_ensure_locked` leaves of a cycle. -/
def Ensures (a : AccountId) (r₀ : GameAccount) (m : Cycle) (f : Frame) (m' : Cycle) :
    Except Exc SessionResolution → Frame → Prop
  | .ok resolution, f' => Settled a r₀ m f resolution.api.isSome m' f' ∧
    ∀ api g, resolution.api = some (api, g) → m'.reply = .identity g
  | .error e, f' => f' = f ∧ m'.row = m.row ∧ m'.bound = m.bound ∧ m'.past = m.past ∧
    m'.log = m.log ∧ m'.outcome = none ∧ m'.raised = some e

theorem Unresolved.ensures {m' : Cycle} {r : Except Exc SessionResolution} {f' : Frame}
    (h : Unresolved a r₀ m f m' r f') : Ensures a r₀ m f m' r f' := by
  have hr := h.resolves
  obtain ⟨resolution, rfl, -⟩ := h
  exact hr

/-- A session is found exactly when the game established one, an error is raised only when an await
raised it, and the record is changed by the outcome. -/
theorem ensureLocked_outcome (actor : Actor) (h : Works a r₀ m f)
    (hp : f.record.pausedReason.isSome = r₀.pausedReason.isSome) (hover : m.concluded = false)
    (hraised : m.raised = none) (hbegun : m.begun = false) (hended : m.ended = none)
    (hreply : m.reply = .silent) (hlogin : m.login = false) :
    (ensureLocked P a actor : Tx T SessionResolution).wp (cycles T C) (Ensures a r₀ m f) m f := by
  have hm : ({ m with begun := true } : Cycle).Asking := ⟨hover, hraised, rfl, hended⟩
  have hworks : Works a r₀ { m with begun := true } f := ⟨h.row, h.identity, h.loaded, h.authMode⟩
  unfold ensureLocked
  rw [Coro.wp_bind, wp_clock]
  refine ⟨trivial, ?_⟩
  rintro (e | now) hans
  · exact hans.elim
  have htick : m.tick now = { m with begun := true } := by
    simp [Cycle.tick, hover, hraised, hbegun]
  rw [cycles_next, Cycle.next, htick, Coro.chain_ok, Coro.wp_bind, wp_record, Coro.chain_ok,
    Coro.wp_ite]
  constructor
  · intro hpaused
    have hsome : r₀.pausedReason.isSome = true := hp.symm.trans hpaused
    have he : ({ m with begun := true } : Cycle).established = false :=
      Cycle.not_established (by simp [hreply])
    refine Coro.wp_mono (unauthenticated_outcome (m := m) (f := f)
      ⟨hworks, hraised, hover, rfl, rfl, he, nofun, fun _ now => ?_, fun _ => ?_⟩)
      fun _ _ _ => Unresolved.ensures
    · rw [Cycle.outcome_of_paused (m := { m with begun := true }) h.row hsome]
      exact Cycle.outcome_of_paused h.row hsome
    rw [Cycle.outcome_of_paused (m := { m with begun := true }) h.row hsome]
    rfl
  · intro hpaused
    have hu : r₀.pausedReason = none := by
      have : r₀.pausedReason.isSome = false := hp.symm.trans (by simpa using hpaused)
      simpa using this
    refine wp_try (ensureUnpaused_outcome actor now hworks hu hm hreply hlogin) ?_
    rintro m₁ r f₁ hr
    split
    · exact ⟨⟨hr.1.works, hr.1.raised, hr.1.concluded, hr.1.past, hr.1.log, hr.1.established, hr.1.ended,
        hr.1.final, hr.1.standing⟩, hr.2⟩
    · obtain ⟨hd, hf⟩ := hr
      obtain ⟨rfl⟩ := hd.frame
      simp only [Cycle.Fails, if_true] at hf
      refine Coro.wp_mono (recordAuthFailure_outcome actor (hworks.asks hd.asks)
        (hm.asks hd.asks hf.1) hu hf.2) ?_
      rintro m' r f' ⟨resolution, hr, hnone, hs⟩
      have hs' := hs.of_asks hd.asks
      exact Unresolved.ensures (m := m) ⟨resolution, hr, hnone, hs'.works, hs'.raised, hs'.concluded,
        hs'.past, hs'.log, hs'.established, hs'.ended, hs'.final, hs'.standing⟩
    · rename_i e hne
      obtain ⟨hd, hf⟩ := hr
      have hr' : m₁.raised = some e := by
        rwa [Cycle.Fails, if_neg fun he => hne he] at hf
      exact ⟨hd.frame, hd.asks.row, hd.asks.bound, hd.asks.past, hd.asks.log, hd.outcome hended, hr'⟩

end Ensure

section Opening

variable {T : Type} {P : Ports} {C : Allowed} {a : AccountId} {m : Cycle}

structure Cycle.Closed (m : Cycle) : Prop where
  row : m.row = none
  bound : m.bound = none
  past : m.past = []

/-- What the selection of the account leaves of a cycle: it starts, or the account was not found. -/
def Opens (a : AccountId) (m m' : Cycle) : Except Exc Unit → Frame → Prop
  | .ok _, f' => ∃ r₀, m' = { row := some (a, r₀), log := m.log } ∧
    f' = { loaded := some a, record := r₀ }
  | .error e, _ => m'.row = none ∧ m'.log = m.log ∧
    (m'.raised = some e ∨ m'.raised = m.raised ∧ e = .accountNotFound)

theorem lockAccount_outcome (h : m.Closed) (ha : C.select m a) :
    (AccountService.lockAccount a : Tx T Unit).wp (cycles T C) (Opens a m) m {} := by
  unfold AccountService.lockAccount requireForUpdate
  rw [Coro.wp_bind, wp_await]
  refine ⟨trivial, ?_⟩
  rintro (e | _) -
  · exact ⟨h.row, rfl, .inl rfl⟩
  rw [Coro.chain_ok, Coro.wp_bind, wp_await]
  refine ⟨ha, ?_⟩
  rintro (e | row) -
  · exact ⟨h.row, rfl, .inl rfl⟩
  rw [Coro.chain_ok]
  cases row with
  | none => exact ⟨h.row, rfl, .inr ⟨rfl, rfl⟩⟩
  | some row =>
    refine ⟨row, ?_, rfl⟩
    show m.reopen a row = _
    simp [Cycle.reopen, Cycle.outcomes, Cycle.outcome, h.row, h.bound, h.past]

end Opening

section Snapshot

variable {T : Type} {P : Ports} {C : Allowed} {a : AccountId} {r₀ : GameAccount}
variable {m m₀ : Cycle} {f f₀ : Frame}

theorem Cycle.outcome_found (hrow : m.row = some (a, r₀)) (he : m.established = true)
    (hended : m.ended = none) : m.outcome = some .stored ∨ m.outcome = some .renewed := by
  have hu : r₀.pausedReason.isSome = false := by
    unfold Cycle.established at he
    rw [hrow] at he
    cases hreply : m.reply <;> simp_all
  unfold Cycle.outcome
  cases hl : m.login <;> simp [hrow, hu, hended, he]

theorem Cycle.outcome_missing (he : m.established = false) :
    m.outcome ≠ some .stored ∧ m.outcome ≠ some .renewed := by
  unfold Cycle.outcome
  cases m.row with
  | none => simp
  | some row =>
    simp only [Option.bind_some, he]
    constructor <;> (repeat' split) <;> simp_all

/-- The state that a snapshot carries says whether the cycle established a session. -/
def Snapshots (m' : Cycle) (snapshot : AccountSnapshot) : Prop :=
  (∃ g idle, snapshot.state = snapshotState g idle ∧ m'.reply = .identity g ∧
    (m'.outcome = some .stored ∨ m'.outcome = some .renewed)) ∨
  (snapshot.state = .obj [] ∧ m'.outcome ≠ some .stored ∧ m'.outcome ≠ some .renewed)

theorem Cycle.over_tick (m : Cycle) (now : Time) : (m.tick now).concluded = m.concluded := by
  unfold Cycle.tick
  split
  · rfl
  · split <;> rfl

/-- The outcome of the cycle stands, and nothing that follows is part of it. -/
structure Stands (m m' : Cycle) (f f' : Frame) : Prop where
  row : m'.row = m.row
  past : m'.past = m.past
  log : m'.log = m.log
  bound : m'.bound = m.bound
  outcome : m'.outcome = m.outcome
  record : f'.record = f.record
  loaded : f'.loaded = f.loaded

theorem Stands.refl (m : Cycle) (f : Frame) : Stands m m f f := ⟨rfl, rfl, rfl, rfl, rfl, rfl, rfl⟩

theorem Stands.raise (m : Cycle) (f : Frame) (e : Exc) : Stands m (m.raise e) f f :=
  ⟨rfl, rfl, rfl, rfl, rfl, rfl, rfl⟩

/-- The state that is stored: of the session, or empty. -/
theorem readState_outcome {resolution : SessionResolution}
    (h : Settled a r₀ m₀ f₀ resolution.api.isSome m f)
    (hreply : ∀ api g, resolution.api = some (api, g) → m.reply = .identity g) :
    (readState a resolution resolution.api.isSome : Tx T Json).wp (cycles T C)
      (fun m' r f' => f' = f ∧ Stands m m' f f' ∧
        match r with
        | .ok state => m'.raised = none ∧
          ((m'.concluded = true ∧ resolution.api.isSome = true ∧
              ∃ g idle, state = snapshotState g idle ∧ m'.reply = .identity g) ∨
            m' = m ∧ state = .obj [] ∧ resolution.api = none)
        | .error e => m'.raised = some e) m f := by
  unfold readState
  cases hapi : resolution.api with
  | none => exact ⟨rfl, .refl m f, h.raised, .inr ⟨rfl, rfl, rfl⟩⟩
  | some session =>
    obtain ⟨api, g⟩ := session
    dsimp only
    rw [Option.isSome_some, if_pos rfl, Coro.wp_bind, wp_await]
    refine ⟨trivial, ?_⟩
    rintro (e | idle) -
    · exact ⟨rfl, .raise m f e, rfl⟩
    · exact ⟨rfl, ⟨rfl, rfl, rfl, rfl, rfl, rfl, rfl⟩, h.raised,
        .inl ⟨rfl, rfl, g, idle, rfl, hreply api g hapi⟩⟩

theorem saveSnapshot_outcome {resolution : SessionResolution}
    (h : Settled a r₀ m₀ f₀ resolution.api.isSome m f)
    (hreply : ∀ api g, resolution.api = some (api, g) → m.reply = .identity g) :
    (saveSnapshot P a resolution resolution.api.isSome : Tx T AccountSnapshot).wp (cycles T C)
      (fun m' r f' => Stands m m' f f' ∧
        match r with
        | .ok snapshot => m'.raised = none ∧ Snapshots m' snapshot ∧
          (resolution.api.isSome = true → m'.concluded = true)
        | .error e => m'.raised = some e) m f := by
  unfold saveSnapshot
  refine Coro.wp_seq (readState_outcome h hreply) ?_ fun _ _ _ hr => hr.2
  rintro m₁ state f₁ ⟨rfl, hs, hraised, hstate⟩
  rw [Coro.wp_bind, wp_clock]
  refine ⟨trivial, ?_⟩
  rintro (e | now) hans
  · exact hans.elim
  -- the clock of the snapshot is no part of the cycle
  have htick : Stands m (m₁.tick now) f₁ f₁ ∧ (m₁.tick now).raised = none ∧
      (m₁.tick now).reply = m₁.reply := by
    unfold Cycle.tick
    split
    · exact ⟨hs, hraised, rfl⟩
    · rename_i hopen
      have hm : m₁ = m ∧ resolution.api = none := by
        rcases hstate with ⟨hover, -⟩ | ⟨hm, -, hnone⟩
        · exact absurd (.inl hover) hopen
        · exact ⟨hm, hnone⟩
      obtain ⟨rfl, hnone⟩ := hm
      split
      · exact ⟨⟨rfl, rfl, rfl, rfl, h.final (by simp [hnone]) now, rfl, rfl⟩, hraised, rfl⟩
      · exact ⟨⟨rfl, rfl, rfl, rfl, rfl, rfl, rfl⟩, hraised, rfl⟩
  obtain ⟨hstands, hraised', hreply'⟩ := htick
  rw [cycles_next, Cycle.next, Coro.chain_ok]
  dsimp only
  rw [Coro.wp_bind, wp_modifyFrame, Coro.chain_ok, Coro.wp_bind, wp_await]
  refine ⟨trivial, ?_⟩
  rintro (e | _) -
  · exact ⟨⟨hstands.row, hstands.past, hstands.log, hstands.bound, hstands.outcome, rfl, rfl⟩, rfl⟩
  rw [Coro.chain_ok, Coro.wp_bind, wp_record, Coro.chain_ok]
  refine ⟨⟨hstands.row, hstands.past, hstands.log, hstands.bound, hstands.outcome, rfl, rfl⟩,
    hraised', ?_⟩
  have hout : (m₁.tick now).outcome = m.outcome := hstands.outcome
  rcases hstate with ⟨hover, hsome, g, idle, rfl, hg⟩ | ⟨rfl, rfl, hnone⟩
  · refine ⟨.inl ⟨g, idle, rfl, hreply'.trans hg, ?_⟩, fun _ => (m₁.over_tick now).trans hover⟩
    show (m₁.tick now).outcome = _ ∨ (m₁.tick now).outcome = _
    rw [hout]
    exact Cycle.outcome_found h.works.row (h.established.trans hsome) (h.ended hsome)
  · refine ⟨.inr ⟨rfl, ?_⟩, by simp [hnone]⟩
    show (m₁.tick now).outcome ≠ _ ∧ (m₁.tick now).outcome ≠ _
    rw [hout]
    exact Cycle.outcome_missing (h.established.trans (by simp [hnone]))

end Snapshot

section Tasks

variable {T : Type} {P : Ports}

/-- What the awaits of a task say about its session cycle. -/
def cycleOf (U : Task (machine T P)) : Cycle := (cycles T {}).after U.hist

theorem after_cycles (C : Allowed) (h : List (Event (sig T))) :
    (cycles T C).after h = (cycles T {}).after h := by
  induction h with
  | nil => rfl
  | cons e h ih =>
    show Cycle.next _ e.op e.ans = Cycle.next _ e.op e.ans
    rw [ih]

end Tasks

end PlaceGame
