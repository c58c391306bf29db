import PlaceGame.Accounts.CycleMutate
import PlaceGame.Accounts.PauseWindow
import PlaceGame.Scripts

/-!
# PlaceGame.Accounts.CycleRuns

Sequences of session cycles on one account, and when one of them pauses it.

The calls of a sequence run one after the other, each to its end or until its process dies, and time
passes in between. What the cycles of a call came to is read off its awaits and added to the history;
`Progress` says that the row of the account follows that history at every point.
-/

namespace PlaceGame

open Coop
open GameAccount (Standing)

/-- The calls that run session cycles of an account, and the operator's resume. -/
def SessionCall (a : AccountId) : Call → Prop
  | .ensureSession b _ | .locked b _ | .snapshot b _ | .resume b _ => b = a
  | .mutate args => args.accountId = a
  | _ => False

def rulesOf : Call → Allowed
  | .ensureSession a _ | .locked a _ | .snapshot a _ => sessionRules a
  | .mutate args => sessionRules args.accountId
  | .resume a _ => resumeRules a
  | _ => {}

/-- What one transaction of a call adds to the history of its account. -/
def entriesOf : Call → List Outcome × Ending → List Entry
  | .resume _ _, (_, ending) => if ending = .abandoned then [] else [(.resumed, ending)]
  | _, (outcomes, ending) => outcomes.map (·, ending)

section Watched

variable {T : Type} {P : Ports}

theorem returning_cycles {α : Type} {C : Allowed} {wrap : α → Returned T} {c : Action T α}
    (h : c.wp (cycles T C) (fun _ _ _ => True) {} ()) :
    (Coro.toProc () (returning wrap c)).wp (cycles T C) (fun _ _ => True) {} :=
  Coro.wp_toProc.mpr (Coro.wp_seq h (fun _ _ _ _ => trivial) fun _ _ _ _ => trivial)

theorem watched_sessions :
    Reachable.Watched (machine T P) (fun call => cycles T (rulesOf call)) fun _ _ _ => True where
  prog call := by
    cases call with
    | ensureSession a actor => exact returning_cycles (ensureSession_cycles actor)
    | locked a actor => exact returning_cycles (lockedContext_cycles actor)
    | snapshot a actor => exact returning_cycles (snapshot_cycles actor)
    | mutate args => exact returning_cycles (mutate_cycles rfl)
    | resume a actor => exact returning_cycles (resume_cycles actor)
    | _ => exact wp_cycles_any _ _
  ans _ _ _ _ _ _ hw _ := cycle_answers hw

end Watched

section History

variable {s₀ s : Standing} {history : List Entry} {outcomes : List Outcome} {ending : Ending}

/-- A transaction that was not committed leaves the columns alone. -/
theorem Moves.dropped (h : Moves s₀ history s) (hopen : outcomes ≠ [] → s.pausedReason = none)
    (he : ending ≠ .committed) : Moves s₀ (history ++ outcomes.map (·, ending)) s := by
  induction outcomes generalizing history with
  | nil => simpa using h
  | cons o outcomes ih =>
    have hfirst : Moves s₀ (history ++ [(o, ending)]) s :=
      .snoc h (fun _ => hopen (List.cons_ne_nil _ _)) (.inr ⟨he, rfl⟩)
    have := ih hfirst fun _ => hopen (List.cons_ne_nil _ _)
    simpa using this

theorem Outcome.Success.pausedReason {o : Outcome} (h : o.Success) (s : Standing) :
    (s.after o).pausedReason = s.pausedReason := by
  cases o <;> first | exact h.elim | rfl

/-- A transaction that was not abandoned may apply what its cycles came to: successes, and one more
outcome. -/
theorem Moves.applied {past : List Outcome} {last : Option Outcome} (h : Moves s₀ history s)
    (hopen : past ++ last.toList ≠ [] → s.pausedReason = none) (hpast : ∀ o ∈ past, o.Success)
    (he : ending ≠ .abandoned) :
    Moves s₀ (history ++ (past ++ last.toList).map (·, ending))
      ((past ++ last.toList).foldl Standing.after s) := by
  induction past generalizing history s with
  | nil =>
    cases last with
    | none => simpa using h
    | some o => exact .snoc h (fun _ => hopen (List.cons_ne_nil _ _)) (.inl ⟨he, rfl⟩)
  | cons o past ih =>
    have hs : s.pausedReason = none := hopen (List.cons_ne_nil _ _)
    have hfirst : Moves s₀ (history ++ [(o, ending)]) (s.after o) :=
      .snoc h (fun _ => hs) (.inl ⟨he, rfl⟩)
    have hsuccess := hpast o List.mem_cons_self
    have := ih hfirst (fun _ => (hsuccess.pausedReason s).trans hs) fun o' ho' =>
      hpast o' (List.mem_cons_of_mem _ ho')
    simpa using this

theorem Standing.authMode_after (s : Standing) (o : Outcome) : (s.after o).authMode = s.authMode := by
  cases o with
  | failed now => exact s.authMode_fail now
  | _ => rfl

theorem Moves.authMode (h : Moves s₀ history s) : s.authMode = s₀.authMode := by
  induction h with
  | nil => rfl
  | snoc _ _ hmove ih =>
    rcases hmove with ⟨-, rfl⟩ | ⟨-, rfl⟩
    · exact (Standing.authMode_after _ _).trans ih
    · exact ih

end History

section Times

def Outcome.time : Outcome → Option Time
  | .failed now => some now
  | _ => none

/-- The failures of the transactions and cycles that a call has behind it. -/
def Cycle.times (m : Cycle) : List Time :=
  m.log.flatMap (·.1.filterMap Outcome.time) ++ m.past.filterMap Outcome.time

theorem failures_map (outcomes : List Outcome) (ending : Ending) :
    failures (outcomes.map (·, ending)) = outcomes.filterMap Outcome.time := by
  unfold failures
  rw [List.filterMap_map]
  rfl

theorem failures_append (history history' : List Entry) :
    failures (history ++ history') = failures history ++ failures history' :=
  List.filterMap_append

theorem failures_entriesOf (call : Call) (log : List (List Outcome × Ending)) :
    (failures (log.flatMap (entriesOf call))).Sublist
      (log.flatMap (·.1.filterMap Outcome.time)) := by
  induction log with
  | nil => exact List.Sublist.refl _
  | cons e log ih =>
    rw [List.flatMap_cons, List.flatMap_cons, failures_append]
    refine List.Sublist.append ?_ ih
    unfold entriesOf
    split
    · split
      · exact List.nil_sublist _
      · exact List.nil_sublist _
    · rw [failures_map]

/-- The failures are in the order of time, and the clock is past them. -/
structure Timed (before : List Time) (m : Cycle) (now : Time) : Prop where
  sorted : (before ++ m.times).Pairwise (· ≤ ·)
  bounded : ∀ t ∈ before ++ m.times, t ≤ now
  ended : ∀ t, m.ended = some t → t ≤ now ∧ ∀ t' ∈ before ++ m.times, t' ≤ t

/-- The part of a cycle that its transaction is judged by is the same. -/
structure Cycle.Stays (m m' : Cycle) : Prop where
  row : m'.row = m.row
  past : m'.past = m.past
  log : m'.log = m.log
  ended : m'.ended = m.ended

variable {before : List Time} {m m' : Cycle} {now now' : Time}

theorem Cycle.Stays.refl (m : Cycle) : m.Stays m := ⟨rfl, rfl, rfl, rfl⟩

theorem Cycle.Stays.asks (h : m.Asks m') : m.Stays m' := ⟨h.row, h.past, h.log, h.ended⟩

theorem Cycle.next_stays {T : Type} {o : Op T} (hc : o ≠ .clock) (hl : ∀ a, o ≠ .accountForUpdate a)
    (he : o.ends = false) (m : Cycle) (r : Except Exc o.Val) : m.Stays (m.next o r) := by
  cases o with
  | clock => exact absurd rfl hc
  | accountForUpdate a => exact absurd rfl (hl a)
  | commit ws => cases he
  | rollback => cases he
  | login username password =>
    cases r with
    | ok _ => exact .asks (.hear _ _ _)
    | error e => exact .asks (.refuse _ _ _)
  | bootstrap api =>
    cases r with
    | ok _ => exact .asks (.hear _ _ _)
    | error e => exact .asks (.refuse _ _ _)
  | sleep =>
    cases r with
    | ok _ => exact .refl m
    | error e =>
      simp only [Cycle.next]
      split
      · exact .refl m
      · exact .asks (.raise _ _)
  | flushIdentity a g =>
    cases r with
    | ok bound => cases bound <;> exact ⟨rfl, rfl, rfl, rfl⟩
    | error e => exact .asks (.raise _ _)
  | _ => cases r <;> exact ⟨rfl, rfl, rfl, rfl⟩

theorem Cycle.time_outcome {o : Outcome} {t : Time} (ho : m.outcome = some o) (ht : o.time = some t) :
    m.ended = some t := by
  obtain ⟨row, -, ho⟩ := Option.bind_eq_some_iff.mp ho
  cases hended : m.ended <;> (repeat' split at ho) <;> simp_all <;> (try subst ho) <;>
    simp_all [Outcome.time]

theorem Cycle.row_of_outcome {o : Outcome} (ho : m.outcome = some o) :
    ∃ a r₀, m.row = some (a, r₀) ∧ r₀.pausedReason = none := by
  obtain ⟨⟨a, r₀⟩, hrow, ho⟩ := Option.bind_eq_some_iff.mp ho
  refine ⟨a, r₀, hrow, ?_⟩
  split at ho
  · cases ho
  · rename_i hopen
    simpa using hopen

theorem Timed.stays (h : Timed before m now) (hs : m.Stays m') : Timed before m' now := by
  have htimes : m'.times = m.times := by rw [Cycle.times, Cycle.times, hs.log, hs.past]
  exact ⟨htimes ▸ h.sorted, htimes ▸ h.bounded, fun t ht => htimes ▸ h.ended t (hs.ended ▸ ht)⟩

theorem Timed.later (h : Timed before m now) (hle : now ≤ now') : Timed before m now' :=
  ⟨h.sorted, fun t ht => (h.bounded t ht).trans hle, fun t ht =>
    ⟨(h.ended t ht).1.trans hle, (h.ended t ht).2⟩⟩

theorem Timed.tick (h : Timed before m now) : Timed before (m.tick now) now := by
  unfold Cycle.tick
  split
  · exact h
  · split
    · refine ⟨h.sorted, h.bounded, fun t ht => ?_⟩
      cases hended : m.ended with
      | some t' =>
        change m.ended.or (some now) = some t at ht
        rw [hended] at ht
        cases ht
        exact h.ended _ hended
      | none =>
        change m.ended.or (some now) = some t at ht
        rw [hended] at ht
        cases ht
        exact ⟨le_refl _, h.bounded⟩
    · exact h.stays ⟨rfl, rfl, rfl, rfl⟩

/-- The last cycle failed after everything before it. -/
theorem Timed.outcome (h : Timed before m now) :
    let times := before ++ (m.times ++ m.outcome.toList.filterMap Outcome.time)
    times.Pairwise (· ≤ ·) ∧ ∀ t ∈ times, t ≤ now := by
  intro times
  have hlast : ∀ t ∈ m.outcome.toList.filterMap Outcome.time,
      t ≤ now ∧ ∀ t' ∈ before ++ m.times, t' ≤ t := by
    intro t ht
    obtain ⟨o, ho, ht⟩ := List.mem_filterMap.mp ht
    exact h.ended t (Cycle.time_outcome (Option.mem_toList.mp ho) ht)
  have htimes : times = (before ++ m.times) ++ m.outcome.toList.filterMap Outcome.time :=
    (List.append_assoc ..).symm
  rw [htimes]
  constructor
  · refine List.pairwise_append.mpr ⟨h.sorted, ?_, fun t ht t' ht' => (hlast t' ht').2 t ht⟩
    cases m.outcome with
    | none => exact List.Pairwise.nil
    | some o => cases ho : o.time <;> simp [ho]
  · intro t ht
    rcases List.mem_append.mp ht with ht | ht
    · exact h.bounded t ht
    · exact (hlast t ht).1

theorem Timed.reopen (h : Timed before m now) (a : AccountId) (row : GameAccount) :
    Timed before (m.reopen a row) now := by
  have htimes : (m.reopen a row).times =
      m.times ++ m.outcome.toList.filterMap Outcome.time := by
    simp [Cycle.times, Cycle.reopen, Cycle.outcomes]
  obtain ⟨hsorted, hbounded⟩ := h.outcome
  exact ⟨htimes ▸ hsorted, htimes ▸ hbounded, fun _ ht => by cases ht⟩

theorem Timed.close (h : Timed before m now) (ending : Ending) :
    Timed before (m.close ending) now := by
  have htimes : (m.close ending).times.Sublist
      (m.times ++ m.outcome.toList.filterMap Outcome.time) := by
    cases hrow : m.row with
    | none => simp [Cycle.times, Cycle.close, hrow]
    | some row => simp [Cycle.times, Cycle.close, hrow, Cycle.outcomes]
  have hsub := List.Sublist.append (List.Sublist.refl before) htimes
  obtain ⟨hsorted, hbounded⟩ := h.outcome
  exact ⟨hsorted.sublist hsub, fun t ht => hbounded t (hsub.subset ht), fun _ ht => by cases ht⟩

end Times

section Rules

variable {a b : AccountId} {r₀ : GameAccount} {call : Call} {m : Cycle} {ws : Writes}

/-- The columns that a committed transaction of the call leaves. -/
def brought (call : Call) (m : Cycle) (s : Standing) : Standing :=
  match call with
  | .resume _ _ => s.after .resumed
  | _ => m.outcomes.foldl Standing.after s

theorem unlocked_writes (hcall : SessionCall a call) (hc : (rulesOf call).commit m ws)
    (hrow : m.row = none) : ws.account = none := by
  cases haccount : ws.account with
  | none => rfl
  | some x =>
    obtain ⟨b, r'⟩ := x
    have hlocked : ∃ r₀, m.row = some (b, r₀) := by
      cases call with
      | ensureSession | locked | snapshot | mutate | resume =>
        obtain ⟨r₀, hr₀, -⟩ := hc.2 b r' haccount
        exact ⟨r₀, hr₀⟩
      | _ => exact hcall.elim
    obtain ⟨r₀, hr₀⟩ := hlocked
    rw [hrow] at hr₀
    cases hr₀

theorem locked_writes (hcall : SessionCall a call) (hc : (rulesOf call).commit m ws)
    (hrow : m.row = some (b, r₀)) (hcred : r₀.authMode = .credentials) :
    ∃ r', ws.account = some (b, r') ∧ r'.standing = brought call m r₀.standing := by
  have hsome : m.row.isSome = true := by
    rw [hrow]
    rfl
  have hwrite : ws.account.isSome = true ∧ ∀ b' r', ws.account = some (b', r') →
      ∃ r₁, m.row = some (b', r₁) ∧
        (r₁.authMode = .credentials → r'.standing = brought call m r₁.standing) := by
    cases call with
    | ensureSession | locked | snapshot | mutate => exact ⟨hc.1 hsome, hc.2⟩
    | resume =>
      refine ⟨hc.1 hsome, fun b' r' hr' => ?_⟩
      obtain ⟨r₁, hr₁, hstand⟩ := hc.2 b' r' hr'
      exact ⟨r₁, hr₁, fun _ => hstand⟩
    | _ => exact hcall.elim
  obtain ⟨⟨b', r'⟩, hx⟩ := Option.isSome_iff_exists.mp hwrite.1
  obtain ⟨r₁, hr₁, hstand⟩ := hwrite.2 b' r' hx
  rw [hrow] at hr₁
  cases hr₁
  exact ⟨r', hx, hstand hcred⟩

end Rules

section Progress

variable {T : Type} {P : Ports} {a : AccountId} {s₀ : Standing} {before : List Entry} {call : Call}
variable {m m' : Cycle} {w w' : World} {t : TaskId}

/-- The row of the account follows the history, up to the transaction that the call has open. -/
structure Progress (a : AccountId) (s₀ : Standing) (before : List Entry) (call : Call) (m : Cycle)
    (w : World) : Prop where
  row : ∃ R, w.accounts.get a = some R ∧
    Moves s₀ (before ++ m.log.flatMap (entriesOf call)) R.standing ∧
    ∀ b r₀, m.row = some (b, r₀) → b = a ∧ r₀ = R
  past : ∀ o ∈ m.past, o.Success
  running : m.past ≠ [] → ∃ b r₀, m.row = some (b, r₀) ∧ r₀.pausedReason = none
  times : Timed (failures before) m w.clock

namespace Progress

theorem stays (h : Progress a s₀ before call m w) (hs : m.Stays m')
    (hrow : w'.accounts = w.accounts) (hclock : w.clock ≤ w'.clock) :
    Progress a s₀ before call m' w' where
  row := by rw [hrow, hs.log, hs.row]; exact h.row
  past := by rw [hs.past]; exact h.past
  running := by rw [hs.past, hs.row]; exact h.running
  times := (h.times.later hclock).stays hs

theorem begins {R : GameAccount} (hR : w.accounts.get a = some R) (hmoves : Moves s₀ before R.standing)
    (hsorted : Chronological before) (hbounded : ∀ t ∈ failures before, t ≤ w.clock) :
    Progress a s₀ before call {} w := by
  have htimes : failures before ++ ({} : Cycle).times = failures before := List.append_nil _
  refine ⟨⟨R, hR, by simpa using hmoves, fun b r₀ hb => ?_⟩, fun o ho => ?_,
    fun hne => absurd rfl hne, ⟨?_, ?_, fun t ht => ?_⟩⟩
  · cases hb
  · cases ho
  · rw [htimes]
    exact hsorted
  · rw [htimes]
    exact hbounded
  · cases ht

theorem tick (h : Progress a s₀ before call m w) :
    Progress a s₀ before call (m.tick w.clock) w := by
  have hsame : (m.tick w.clock).row = m.row ∧ (m.tick w.clock).past = m.past ∧
      (m.tick w.clock).log = m.log := by
    unfold Cycle.tick
    split
    · exact ⟨rfl, rfl, rfl⟩
    · split <;> exact ⟨rfl, rfl, rfl⟩
  exact ⟨by rw [hsame.1, hsame.2.2]; exact h.row, by rw [hsame.2.1]; exact h.past,
    by rw [hsame.1, hsame.2.1]; exact h.running, h.times.tick⟩

/-- Only an account that is not paused has outcomes. -/
theorem open_of_outcomes (h : Progress a s₀ before call m w) (hne : m.outcomes ≠ []) :
    ∃ b r₀, m.row = some (b, r₀) ∧ r₀.pausedReason = none := by
  cases hpast : m.past with
  | cons o past => exact h.running (by simp [hpast])
  | nil =>
    cases hout : m.outcome with
    | none => exact absurd (by simp [Cycle.outcomes, hpast, hout]) hne
    | some o => exact Cycle.row_of_outcome hout

theorem reopen (h : Progress a s₀ before call m w) {row : GameAccount}
    (hget : w.accounts.get a = some row) (hsuccess : ∀ o ∈ m.outcomes, o.Success)
    (hrow : w'.accounts = w.accounts) (hclock : w'.clock = w.clock) :
    Progress a s₀ before call (m.reopen a row) w' := by
  obtain ⟨R, hR, hmoves, hlocked⟩ := h.row
  rw [hget] at hR
  cases hR
  refine ⟨⟨row, by rw [hrow, hget], hmoves, ?_⟩, hsuccess, ?_, by rw [hclock]; exact h.times.reopen a row⟩
  · intro b r₀ hb
    cases hm : m.row with
    | none =>
      simp only [Cycle.reopen, hm, Option.getD_none, Option.some.injEq, Prod.mk.injEq] at hb
      exact ⟨hb.1.symm, hb.2.symm⟩
    | some x =>
      simp only [Cycle.reopen, hm, Option.getD_some, Option.some.injEq] at hb
      exact hlocked b r₀ (hm.trans (congrArg some hb))
  · intro hne
    obtain ⟨b, r₀, hb, hopen⟩ := h.open_of_outcomes hne
    exact ⟨b, r₀, by simp [Cycle.reopen, hb], hopen⟩

/-- The transaction ends: its writes are in the table, or the table is as it was. -/
theorem close (h : Progress a s₀ before call m w) (hcall : SessionCall a call)
    (hcred : s₀.authMode = .credentials) (ws : Writes) (ending : Ending)
    (hclock : w'.clock = w.clock)
    (hend : (rulesOf call).commit m ws ∧ ending ≠ .abandoned ∧
        w'.accounts = World.store w.accounts ws.account ∨
      ending ≠ .committed ∧ w'.accounts = w.accounts) :
    Progress a s₀ before call (m.close ending) w' := by
  obtain ⟨R, hR, hmoves, hlocked⟩ := h.row
  have hclosed : ∀ b r₀, (m.close ending).row = some (b, r₀) → b = a ∧ r₀ = R := by
    intro b r₀ hb
    cases hb
  suffices hrow : ∃ R', w'.accounts.get a = some R' ∧
      Moves s₀ (before ++ (m.close ending).log.flatMap (entriesOf call)) R'.standing by
    obtain ⟨R', hget, hmoves'⟩ := hrow
    refine ⟨⟨R', hget, hmoves', fun b r₀ hb => ?_⟩, fun o ho => ?_, fun hne => absurd rfl hne, ?_⟩
    · cases hb
    · cases ho
    · rw [hclock]
      exact h.times.close ending
  cases hrow : m.row with
  | none =>
    -- no account was locked, so none is written
    refine ⟨R, ?_, by simpa [Cycle.close, hrow] using hmoves⟩
    rcases hend with ⟨hc, -, hw⟩ | ⟨-, hw⟩
    · rw [hw, unlocked_writes hcall hc hrow]
      exact hR
    · rw [hw, hR]
  | some x =>
    obtain ⟨b, r₀⟩ := x
    obtain ⟨rfl, rfl⟩ := hlocked b r₀ hrow
    have hlog : (m.close ending).log.flatMap (entriesOf call) =
        m.log.flatMap (entriesOf call) ++ entriesOf call (m.outcomes, ending) := by
      simp [Cycle.close, hrow]
    have hopen : m.outcomes ≠ [] → r₀.standing.pausedReason = none := by
      intro hne
      obtain ⟨b', r₁, hb, hopen⟩ := h.open_of_outcomes hne
      rw [hrow] at hb
      cases hb
      exact hopen
    rw [hlog, ← List.append_assoc]
    rcases hend with ⟨hc, he, hw⟩ | ⟨he, hw⟩
    · obtain ⟨r', hr', hstand⟩ := locked_writes hcall hc hrow (hmoves.authMode.trans hcred)
      refine ⟨r', ?_, ?_⟩
      · rw [hw, hr']
        exact Table.get_set_self ..
      · rw [hstand]
        cases call with
        | resume c' actor =>
          simp only [entriesOf, if_neg he]
          exact .snoc hmoves (fun hne => absurd rfl hne) (.inl ⟨he, rfl⟩)
        | ensureSession | locked | snapshot | mutate => exact hmoves.applied hopen h.past he
        | _ => exact hcall.elim
    · refine ⟨r₀, by rw [hw, hR], ?_⟩
      have hdropped := hmoves.dropped hopen he
      cases call with
      | resume c' actor =>
        simp only [entriesOf]
        split
        · rwa [List.append_nil]
        · exact .snoc hmoves (fun hne => absurd rfl hne) (.inr ⟨he, rfl⟩)
      | ensureSession | locked | snapshot | mutate => exact hdropped
      | _ => exact hcall.elim

theorem next (h : Progress a s₀ before call m w) (hcall : SessionCall a call)
    (hcred : s₀.authMode = .credentials) {o : Op T} {r : Except Exc o.Val}
    (hok : (cycles T (rulesOf call)).ok m o) (hp : World.Perform t w o r w') :
    Progress a s₀ before call (m.next o r) w' := by
  have hclock := hp.clock
  have hrows : (∀ ws, o ≠ .commit ws) → w'.accounts = w.accounts := by
    intro hc
    rcases hp.rows with ⟨ws, he, -⟩ | hs
    · exact absurd he (hc ws)
    · exact hs.accounts
  cases o with
  | clock =>
    cases r with
    | error e => exact (cycle_answers hp).elim
    | ok now =>
      cases hp with
      | done he =>
        cases he
        exact h.tick
  | accountForUpdate b =>
    have hsame := hrows fun _ he => by cases he
    have hstays : m.Stays (m.next (.accountForUpdate b) r) →
        Progress a s₀ before call (m.next (.accountForUpdate b) r) w' :=
      fun hs => h.stays hs hsame hclock.ge
    cases r with
    | error e => exact hstays (.asks (.raise _ _))
    | ok found =>
      cases found with
      | none => exact hstays (.refl m)
      | some row =>
        have hselect : b = a ∧ ∀ o ∈ m.outcomes, o.Success := by
          cases call with
          | ensureSession | locked | snapshot | mutate | resume => exact ⟨hok.1.trans hcall, hok.2⟩
          | _ => exact hcall.elim
        obtain ⟨rfl, hsuccess⟩ := hselect
        cases hp with
        | done he =>
          simp only [World.effect] at he
          split at he
          · cases he
          · rename_i row' hget
            split at he <;> cases he
            exact h.reopen hget hsuccess hsame hclock
  | commit ws =>
    have hwrites : w'.accounts = World.store w.accounts ws.account ∨ w'.accounts = w.accounts := by
      rcases hp.rows with ⟨ws', he, rfl⟩ | hs
      · cases he
        exact .inl rfl
      · exact .inr hs.accounts
    have hcommit : (rulesOf call).commit m ws := hok
    cases r with
    | ok _ =>
      have hdone : w'.accounts = World.store w.accounts ws.account := by
        rw [hp.committed rfl]
        rfl
      exact h.close hcall hcred ws .committed hclock (.inl ⟨hcommit, by decide, hdone⟩)
    | error e =>
      have hclosed : Progress a s₀ before call (m.close .unanswered) w' := by
        refine h.close hcall hcred ws .unanswered hclock ?_
        rcases hwrites with hw | hw
        · exact .inl ⟨hcommit, by decide, hw⟩
        · exact .inr ⟨by decide, hw⟩
      exact hclosed.stays ⟨rfl, rfl, rfl, rfl⟩ rfl (le_refl _)
  | rollback =>
    have hclosed : Progress a s₀ before call (m.close .abandoned) w' :=
      h.close hcall hcred {} .abandoned hclock (.inr ⟨by decide, hrows fun _ he => by cases he⟩)
    cases r with
    | ok _ => exact hclosed
    | error e => exact hclosed.stays ⟨rfl, rfl, rfl, rfl⟩ rfl (le_refl _)
  | _ =>
    exact h.stays (Cycle.next_stays (by simp) (by simp) rfl m r) (hrows (by simp)) hclock.ge

end Progress

end Progress

section Sequences

variable {T : Type} {P : Ports}

/-- What the cycles of a call came to; a transaction that is still open when its process died is
abandoned. -/
def entries (U : Task (machine T P)) : List Entry :=
  ((cycleOf U).close .abandoned).log.flatMap (entriesOf U.call)

/-- The calls of session cycles on an account, one after the other, with their history. -/
inductive Sequence (P : Ports) (a : AccountId) (w : World) :
    List Entry → Config (machine T P) → Prop where
  | start : Sequence P a w [] (.start w)
  | env {history : List Entry} {c : Config (machine T P)} {w' : World} :
      Sequence P a w history c → World.Env c.world w' → Sequence P a w history { c with world := w' }
  | call {history : List Entry} {c c' : Config (machine T P)} {t : TaskId} {call : Call}
      {U : Task (machine T P)} :
      Sequence P a w history c → c.task t = none → SessionCall a call →
      Relation.ReflTransGen (Alone t)
        (c.setTask t { call := call, prog := (machine T P).prog call }) c' →
      c'.task t = some U → U.Ended → Sequence P a w (history ++ entries U) c'

variable {a : AccountId} {w : World} {history : List Entry} {c c' : Config (machine T P)}

theorem Sequence.reachable (h : Sequence P a w history c) : Reachable (.start w) c := by
  induction h with
  | start => exact .refl
  | env _ hw ih => exact ih.tail (.env hw)
  | call _ ht _ hrun _ _ ih => exact (ih.tail (.spawn _ _ ht)).trans (Alone.reachable hrun)

/-- A call that runs alone keeps the row of the account with its history. -/
theorem progress_of_alone {s₀ : Standing} {t : TaskId} {call : Call}
    (hcred : s₀.authMode = .credentials) (hcall : SessionCall a call)
    (hr : Reachable (.start w) c) (ht : c.task t = none)
    (hrun : Relation.ReflTransGen (Alone t)
      (c.setTask t { call := call, prog := (machine T P).prog call }) c')
    (h : Progress a s₀ history call {} c.world) :
    ∃ U, c'.task t = some U ∧ U.call = call ∧ Progress a s₀ history call (cycleOf U) c'.world := by
  have henv : ∀ m w w', Progress a s₀ history call m w → World.Env w w' →
      Progress a s₀ history call m w' := by
    intro m w w' hp hw
    cases hw with
    | tick now h => exact hp.stays (.refl _) rfl h
    | accumulate | collect => exact hp.stays (.refl _) rfl (le_refl _)
  obtain ⟨U, hU, hUcall, -, hp⟩ := Reachable.alone watched_sessions hr ht hrun
    (Progress a s₀ history call) h henv (fun m w hp => hp.stays (.refl _) rfl (le_refl _))
    fun m w o r w' hp hok hw => hp.next hcall hcred hok hw
  rw [after_cycles] at hp
  exact ⟨U, hU, hUcall, hp⟩

/-- How a sequence of session cycles leaves the account. -/
structure Follows (a : AccountId) (s₀ : Standing) (history : List Entry) (w : World) : Prop where
  row : ∃ R, w.accounts.get a = some R ∧ Moves s₀ history R.standing
  chronological : Chronological history
  bounded : ∀ t ∈ failures history, t ≤ w.clock

theorem Sequence.follows {r : GameAccount} (hrow : w.accounts.get a = some r)
    (hcred : r.authMode = .credentials) (h : Sequence P a w history c) :
    Follows a r.standing history c.world := by
  induction h with
  | start => exact ⟨⟨r, hrow, .nil⟩, .nil, nofun⟩
  | env _ hw ih =>
    cases hw with
    | tick now h => exact ⟨ih.row, ih.chronological, fun t ht => (ih.bounded t ht).trans h⟩
    | accumulate => exact ⟨ih.row, ih.chronological, ih.bounded⟩
    | collect => exact ⟨ih.row, ih.chronological, ih.bounded⟩
  | @call history c c' t call U hs ht hcall hrun hU _ ih =>
    have hnew : Progress a r.standing history call {} c.world := by
      obtain ⟨R, hR, hmoves⟩ := ih.row
      exact Progress.begins hR hmoves ih.chronological ih.bounded
    obtain ⟨V, hV, hVcall, hp⟩ := progress_of_alone hcred hcall hs.reachable ht hrun hnew
    rw [hU] at hV
    cases hV
    subst hVcall
    have hclosed := hp.close hcall hcred {} .abandoned (rfl : c'.world.clock = c'.world.clock)
      (.inr ⟨by decide, rfl⟩)
    obtain ⟨R, hR, hmoves, -⟩ := hclosed.row
    have hsub : (failures (history ++ entries U)).Sublist
        (failures history ++ ((cycleOf U).close .abandoned).times) := by
      rw [failures_append]
      refine List.Sublist.append (List.Sublist.refl _) ?_
      exact (failures_entriesOf _ _).trans (List.sublist_append_left _ _)
    exact ⟨⟨R, hR, hmoves⟩, hclosed.times.sorted.sublist hsub,
      fun t ht => hclosed.times.bounded t (hsub.subset ht)⟩

/-- In every sequence of session cycles of which each is one that the counter of the record takes as
the rule does, an account that starts open and without failures is paused for authentication exactly
when its last three cycles with an outcome failed within less than an hour. -/
theorem paused_iff_due {r : GameAccount} (hrow : w.accounts.get a = some r)
    (hcred : r.authMode = .credentials) (hopen : r.pausedReason = none)
    (hcount : r.authFailureCount = 0) (hwindow : r.authFailureWindowStartedAt = none)
    (h : Sequence P a w history c) (ho : Orderly history) :
    ∃ R, c.world.accounts.get a = some R ∧
      (R.pausedReason = some "authentication_required" ↔ due (streak history) = true) := by
  have hf := h.follows hrow hcred
  obtain ⟨R, hR, hmoves⟩ := hf.row
  exact ⟨R, hR, (counts_of_moves hcount hwindow hopen hmoves ho hf.chronological).paused⟩

/-- The task has ended and has added these entries to the history. -/
def adds {T : Type} {P : Ports} (c : Config (machine T P)) (t : TaskId) (new : List Entry) : Bool :=
  (c.task t).any fun U => U.pending.isNone && entries U == new

/-- A scripted call whose history is computed. -/
theorem Sequence.ran {T : Type} {P : Ports} {a : AccountId} {w : World} {history new : List Entry}
    {c : Config (machine T P)} {t : TaskId} {call : Call} {script : (o : Op T) → Except Exc o.Val}
    {n : Nat} (h : Sequence P a w history c) (ht : c.task t = none) (hcall : SessionCall a call)
    (hrun : adds (run c t call script n) t new = true) :
    Sequence P a w (history ++ new) (run c t call script n) := by
  obtain ⟨U, hU, h'⟩ := (Option.any_eq_true ..).mp hrun
  obtain ⟨hended, hnew⟩ := Bool.and_eq_true_iff.mp h'
  rw [← eq_of_beq hnew]
  exact .call h ht hcall (alone_call honest_effect ht call script n) hU
    (.inr (Option.isNone_iff_eq_none.mp hended))

end Sequences

section SequenceRuns

def refusingGame : (o : Op Unit) → Except Exc o.Val
  | .sleep => .ok ()
  | _ => .error .sessionRejected

def cycle (c : Config (machine Unit samplePorts)) (t : TaskId)
    (game : (o : Op Unit) → Except Exc o.Val) : Config (machine Unit samplePorts) :=
  run c t (.ensureSession 0 operator) game 40

def failedOnce : Config (machine Unit samplePorts) := cycle (.start storedWorld) 1 refusingGame

def failedTwice : Config (machine Unit samplePorts) := cycle failedOnce 2 refusingGame

def failedThrice : Config (machine Unit samplePorts) := cycle failedTwice 3 refusingGame

/-- A failure, a stored token that the game accepts, and two more failures. -/
def acceptedBetween : Config (machine Unit samplePorts) := cycle failedOnce 2 friendlyGame

def failedAfter : Config (machine Unit samplePorts) := cycle acceptedBetween 3 refusingGame

def failedApart : Config (machine Unit samplePorts) := cycle failedAfter 4 refusingGame

def pausedForLogin (c : Config (machine Unit samplePorts)) : Bool :=
  (c.world.accounts.get 0).any fun r => r.pausedReason == some "authentication_required"

def failedNow : Entry := (.failed 0, .committed)

def acceptedNow : Entry := (.stored, .committed)

theorem cycle_task {c : Config (machine Unit samplePorts)} {t u : TaskId}
    {game : (o : Op Unit) → Except Exc o.Val} (h : u ≠ t) (hc : c.task u = none) :
    (cycle c t game).task u = none :=
  (run_task_ne h).trans hc

theorem Sequence.cycled {history : List Entry} {c : Config (machine Unit samplePorts)} {t : TaskId}
    {game : (o : Op Unit) → Except Exc o.Val} {new : List Entry}
    (h : Sequence samplePorts 0 storedWorld history c) (ht : c.task t = none)
    (hrun : adds (cycle c t game) t new = true) :
    Sequence samplePorts 0 storedWorld (history ++ new) (cycle c t game) :=
  h.ran ht rfl hrun

/-- What each cycle adds, and what the last one leaves. -/
theorem cycles_add : adds failedOnce 1 [failedNow] = true ∧ adds failedTwice 2 [failedNow] = true ∧
    adds failedThrice 3 [failedNow] = true ∧ adds acceptedBetween 2 [acceptedNow] = true ∧
    adds failedAfter 3 [failedNow] = true ∧ adds failedApart 4 [failedNow] = true ∧
    pausedForLogin failedApart = true := by decide +kernel

theorem sequence_failedOnce : Sequence samplePorts 0 storedWorld [failedNow] failedOnce :=
  Sequence.cycled .start rfl cycles_add.1

theorem failedOnce_task {u : TaskId} (h : u ≠ 1) : failedOnce.task u = none := cycle_task h rfl

theorem sequence_failedTwice : Sequence samplePorts 0 storedWorld [failedNow, failedNow] failedTwice :=
  sequence_failedOnce.cycled (failedOnce_task (by decide)) cycles_add.2.1

theorem sequence_failedThrice : Sequence samplePorts 0 storedWorld
    [failedNow, failedNow, failedNow] failedThrice :=
  sequence_failedTwice.cycled (cycle_task (by decide) (failedOnce_task (by decide)))
    cycles_add.2.2.1

theorem sequence_acceptedBetween : Sequence samplePorts 0 storedWorld [failedNow, acceptedNow]
    acceptedBetween :=
  sequence_failedOnce.cycled (failedOnce_task (by decide)) cycles_add.2.2.2.1

theorem acceptedBetween_task {u : TaskId} (h₁ : u ≠ 1) (h₂ : u ≠ 2) :
    acceptedBetween.task u = none := cycle_task h₂ (failedOnce_task h₁)

theorem sequence_failedAfter : Sequence samplePorts 0 storedWorld
    [failedNow, acceptedNow, failedNow] failedAfter :=
  sequence_acceptedBetween.cycled (acceptedBetween_task (by decide) (by decide))
    cycles_add.2.2.2.2.1

theorem sequence_failedApart : Sequence samplePorts 0 storedWorld
    [failedNow, acceptedNow, failedNow, failedNow] failedApart :=
  sequence_failedAfter.cycled
    (cycle_task (by decide) (acceptedBetween_task (by decide) (by decide))) cycles_add.2.2.2.2.2.1

theorem orderly_failedThrice : Orderly [failedNow, failedNow, failedNow] := by
  have hwindow : (0 : Time) - 0 < authFailureWindow := by decide
  have h₁ : Orderly [failedNow] := .snoc .nil ⟨rfl, nofun⟩
  have h₂ : Orderly [failedNow, failedNow] := by
    refine .snoc h₁ ⟨rfl, ?_⟩
    intro started hstarted
    obtain rfl : (0 : Time) = started := Option.some.inj hstarted
    rw [if_pos hwindow]
    exact List.cons_ne_nil _ _
  have hopened : opened [failedNow, failedNow] = some 0 := by decide
  refine .snoc h₂ ⟨rfl, ?_⟩
  intro started hstarted
  rw [hopened] at hstarted
  obtain rfl : (0 : Time) = started := Option.some.inj hstarted
  rw [if_pos hwindow]
  exact List.cons_ne_nil _ _

theorem paused_iff_due_thrice : ∃ R : GameAccount, failedThrice.world.accounts.get 0 = some R ∧
    (R.pausedReason = some "authentication_required" ↔
      due (streak [failedNow, failedNow, failedNow]) = true) := by
  have hrow : storedWorld.accounts.get 0 = some storedAccount := Table.get_set_self ..
  exact paused_iff_due hrow rfl rfl rfl rfl sequence_failedThrice orderly_failedThrice

/-- A stored token that the game accepts between three failures does not keep the account open. -/
theorem failures_apart_pause :
    ¬ ∀ (w : World) (a : AccountId) (r : GameAccount) (history : List Entry)
      (c : Config (machine Unit samplePorts)), w.accounts.get a = some r →
      r.authMode = .credentials → r.pausedReason = none → r.authFailureCount = 0 →
      r.authFailureWindowStartedAt = none → Sequence samplePorts a w history c →
      ∃ R, c.world.accounts.get a = some R ∧
        (R.pausedReason = some "authentication_required" ↔ due (streak history) = true) := by
  intro hall
  have hrow : storedWorld.accounts.get 0 = some storedAccount := Table.get_set_self ..
  obtain ⟨R, hR, hiff⟩ := hall _ _ _ _ _ hrow rfl rfl rfl rfl sequence_failedApart
  have hpaused : pausedForLogin failedApart = true := cycles_add.2.2.2.2.2.2
  have hreason : R.pausedReason = some "authentication_required" := by
    unfold pausedForLogin at hpaused
    rw [hR] at hpaused
    exact eq_of_beq hpaused
  have hdue : due (streak [failedNow, acceptedNow, failedNow, failedNow]) = false := by decide
  rw [hiff.mp hreason] at hdue
  cases hdue

end SequenceRuns

end PlaceGame
