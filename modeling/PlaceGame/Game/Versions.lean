import PlaceGame.Coop.Script
import PlaceGame.Game.Transport

/-!
# PlaceGame.Game.Versions

Any number of requests that share one client version.

* `clients`: the machine. Its world is the shared version, and the game answers as it likes.
* `Phase`: how far a request has come with the versions it was asked for.
* `phases`: the monitor that follows a request through its phases.
* `resent_after_refusal`: what a request does about a 426, in every run in which the shared version
  is not yet the demanded one when a demand is read.
-/

namespace PlaceGame

open Coop

/-- The header that declares the version of a request. -/
def Request.declared (request : Request) : Option String :=
  request.headers.lookup "x-placegame-client-version"

@[simp] theorem HttpGameClient.declared_request (client : HttpGameClient)
    (operation : OperationName) (v : ClientVersion) (payload : Option Json) :
    (client.request operation v payload).declared = some v.1 := by
  simp [Request.declared, HttpGameClient.request, HttpGameClient.headers, List.lookup_cons]

namespace Versions

/-- One call of a client. The values of all response models are of one type. -/
structure Issued (α : Type) where
  client : HttpGameClient
  operation : OperationName
  model : ResponseModel α
  payload : Option Json

def Issued.request {α : Type} (call : Issued α) (v : ClientVersion) : Request :=
  call.client.request call.operation v call.payload

@[simp] theorem Issued.declared_request {α : Type} (call : Issued α) (v : ClientVersion) :
    (call.request v).declared = some v.1 :=
  HttpGameClient.declared_request ..

/-- Whether a transmission brings an answer or is cut off is not the clients' choice; the shared
version is read and changed without waiting. -/
inductive Answers : ClientVersion → (o : ClientOp) → clientSig.Ans o → ClientVersion → Prop where
  | declare (v : ClientVersion) : Answers v .declare (.ok v) v
  | adopt (v : ClientVersion) (candidate : String) :
      Answers v (.adopt candidate) (.ok (v.adopt candidate).1) (v.adopt candidate).2
  | transmit (v : ClientVersion) (request : Request) (a : Answer) :
      Answers v (.transmit request) (.ok a) v
  | interrupted (v : ClientVersion) (request : Request) (exc : Exc) :
      Answers v (.transmit request) (.error (.raised exc)) v
  | sleep (v : ClientVersion) (n : ℕ) : Answers v (.sleep n) (.ok ()) v
  | cancelled (v : ClientVersion) (n : ℕ) (exc : Exc) :
      Answers v (.sleep n) (.error (.raised exc)) v

theorem Answers.declare_eq {v v' u : ClientVersion} (h : Answers v .declare (.ok u) v') : u = v := by
  cases h
  rfl

theorem Answers.adopt_eq {v v' : ClientVersion} {w : String} {r : clientSig.Ans (.adopt w)}
    (h : Answers v (.adopt w) r v') : r = .ok (v.adopt w).1 ∧ v' = (v.adopt w).2 := by
  cases h
  exact ⟨rfl, rfl⟩

abbrev clients (α : Type) : Machine clientSig ClientVersion where
  Call := Issued α
  Res := Except ClientError α
  prog call := Coro.toProc () (call.client.requestResult call.operation call.model call.payload)
  perform _ v o r v' := Answers v o r v'
  crash _ v := v
  env _ _ := False

/-! ## Phases -/

inductive Phase where
  | first
  /-- The request that declares `v` was refused for another version. -/
  | demanded (v : ClientVersion) (w : String)
  /-- The refusal stands: it names no version, or it is the second one. -/
  | refused (again : Bool)
  /-- The shared version was the demanded one already. -/
  | kept (v : ClientVersion) (w : String)
  | adopted
  | resent
  deriving DecidableEq

/-- What is known of a request: its phase, and the version read last if nothing came after it. -/
structure Progress where
  phase : Phase
  declared : Option ClientVersion

namespace Progress

/-- An answer to the request that declares `v`. -/
def answered (v : ClientVersion) : Phase → Answer → Phase
  | .first, .response r =>
    if r.statusCode = 426 then
      match requiredClientVersion r with
      | some w => .demanded v w
      | none => .refused false
    else .first
  | .adopted, .response r => if r.statusCode = 426 then .refused true else .resent
  | .adopted, .transportFailure => .resent
  | .resent, .response r => if r.statusCode = 426 then .refused true else .resent
  | phase, _ => phase

def next (m : Progress) : (o : ClientOp) → clientSig.Ans o → Progress
  | .declare, .ok v => ⟨m.phase, some v⟩
  | .adopt _, .ok true => ⟨.adopted, none⟩
  | .adopt _, _ =>
    match m.phase with
    | .demanded v w => ⟨.kept v w, none⟩
    | phase => ⟨phase, none⟩
  | .transmit _, .ok a =>
    match m.declared with
    | some v => ⟨answered v m.phase a, none⟩
    | none => ⟨m.phase, none⟩
  | .transmit _, .error _ => ⟨if m.phase = .adopted then .resent else m.phase, none⟩
  | _, _ => ⟨m.phase, none⟩

def Sending (m : Progress) : Prop := m.phase = .first ∨ m.phase = .adopted ∨ m.phase = .resent

end Progress

variable {α : Type}

/-- A request is sent as the version read just before, a demand is adopted and nothing else happens
between a demand and its adoption. -/
def phases (call : Issued α) : Monitor clientSig Progress where
  init := ⟨.first, none⟩
  next := Progress.next
  ok m
    | .declare => m.Sending
    | .transmit request => m.Sending ∧ ∃ v, m.declared = some v ∧ request = call.request v
    | .adopt w => ∃ v, m.phase = .demanded v w
    | .sleep _ => m.Sending ∧ m.phase ≠ .adopted
  ans
    | _, .declare, r => ∃ v, r = .ok v
    | _, .adopt _, r => ∃ b, r = .ok b
    | _, _, r => ∀ e, r = .error e → ∃ exc, e = .raised exc

/-- No demand is left open, and only a refusal that stands is reported as one. -/
structure Settled (m : Progress) (r : Except ClientError α) : Prop where
  answered : ∀ v w, m.phase ≠ .demanded v w
  sent : m.phase ≠ .adopted
  stands : r = .error (.game .clientVersionRejected) →
    (∃ b, m.phase = .refused b) ∨ ∃ v w, m.phase = .kept v w
  rejected : ∀ v w, m.phase = .kept v w → r = .error (.game .clientVersionRejected)

/-! ## Following a request -/

theorem interpretResponse_version {retryAfter : List (String × String) → Option ℚ}
    {model : ResponseModel α} {r : Response} {failure : Failure}
    (h : interpretResponse retryAfter model r = .error failure) :
    (failure.kind = .clientVersionRejected ↔ r.statusCode = 426) ∧
      (r.statusCode = 426 → failure.requiredVersion = requiredClientVersion r) := by
  unfold interpretResponse at h
  split at h
  · rename_i hstatus
    have hne : r.statusCode ≠ 426 := by omega
    rcases interpretSuccess_error h with hk | hk <;> simp [hk, hne]
  · cases h
    exact ⟨interpretRefusal_version, interpretRefusal_required⟩

theorem interpretResponse_ok {retryAfter : List (String × String) → Option ℚ}
    {model : ResponseModel α} {r : Response} {result : α}
    (h : interpretResponse retryAfter model r = .ok result) : r.statusCode ≠ 426 := by
  unfold interpretResponse at h
  split at h
  · omega
  · cases h

/-- The phase an attempt ends in when no version was refused. -/
def Phase.quiet : Phase → Phase
  | .first => .first
  | _ => .resent

/-- The phase an attempt ends in when a 426 names this version. -/
def Phase.IsRefusal (phase : Phase) (required : Option String) (after : Phase) : Prop :=
  match phase, required with
  | .first, some w => ∃ v, after = .demanded v w
  | .first, none => after = .refused false
  | _, _ => after = .refused true

def Attempted (phase : Phase) (m : Progress) : Except ClientError (Except Failure α) → Prop
  | .ok (.error failure) =>
    (failure.kind ≠ .clientVersionRejected ∧ m.phase = phase.quiet) ∨
      failure.kind = .clientVersionRejected ∧ phase.IsRefusal failure.requiredVersion m.phase
  | .ok (.ok _) => m.phase = phase.quiet
  | .error e => m.phase = phase.quiet ∧ ∃ exc, e = .raised exc

theorem answered_transport {v : ClientVersion} {phase : Phase}
    (h : phase = .first ∨ phase = .adopted ∨ phase = .resent) :
    Progress.answered v phase .transportFailure = phase.quiet := by
  rcases h with rfl | rfl | rfl <;> rfl

theorem answered_response {v : ClientVersion} {phase : Phase} {r : Response}
    (h : phase = .first ∨ phase = .adopted ∨ phase = .resent) (hr : r.statusCode ≠ 426) :
    Progress.answered v phase (.response r) = phase.quiet := by
  rcases h with rfl | rfl | rfl <;> simp [Progress.answered, Phase.quiet, hr]

theorem answered_refusal {v : ClientVersion} {phase : Phase} {r : Response}
    (h : phase = .first ∨ phase = .adopted ∨ phase = .resent) (hr : r.statusCode = 426) :
    phase.IsRefusal (requiredClientVersion r) (Progress.answered v phase (.response r)) := by
  rcases h with rfl | rfl | rfl
  · cases hw : requiredClientVersion r <;> simp [Progress.answered, Phase.IsRefusal, hr, hw]
  · simp [Progress.answered, Phase.IsRefusal, hr]
  · simp [Progress.answered, Phase.IsRefusal, hr]

theorem answered_demanded {v v' : ClientVersion} {phase : Phase} {a : Answer} {w : String}
    (h : phase = .first ∨ phase = .adopted ∨ phase = .resent)
    (hd : Progress.answered v phase a = .demanded v' w) :
    v' = v ∧ ∃ r, a = .response r ∧ r.statusCode = 426 ∧ requiredClientVersion r = some w := by
  cases a with
  | transportFailure => rcases h with rfl | rfl | rfl <;> cases hd
  | response r =>
    rcases h with rfl | rfl | rfl <;> simp only [Progress.answered] at hd
    · split at hd
      · rename_i hr
        split at hd
        · rename_i hw
          cases hd
          exact ⟨rfl, r, rfl, hr, hw⟩
        · cases hd
      · cases hd
    · split at hd <;> cases hd
    · split at hd <;> cases hd

theorem answered_ne_kept {v v' : ClientVersion} {phase : Phase} {a : Answer} {w : String}
    (h : phase = .first ∨ phase = .adopted ∨ phase = .resent) :
    Progress.answered v phase a ≠ .kept v' w := by
  cases a with
  | transportFailure => rcases h with rfl | rfl | rfl <;> simp [Progress.answered]
  | response r =>
    by_cases hr : r.statusCode = 426
    · rcases h with rfl | rfl | rfl
      · cases hw : requiredClientVersion r <;> simp [Progress.answered, hr, hw]
      · simp [Progress.answered, hr]
      · simp [Progress.answered, hr]
    · rcases h with rfl | rfl | rfl <;> simp [Progress.answered, hr]

theorem quiet_quiet (phase : Phase) : phase.quiet.quiet = phase.quiet := by
  cases phase <;> rfl

theorem isRefusal_quiet {phase after : Phase} {required : Option String} :
    phase.quiet.IsRefusal required after ↔ phase.IsRefusal required after := by
  cases phase <;> cases required <;> rfl

/-- An attempt that goes on after a failure ends as one that starts there. -/
theorem Attempted.of_quiet {phase : Phase} {m : Progress}
    {r : Except ClientError (Except Failure α)} (h : Attempted phase.quiet m r) :
    Attempted phase m r := by
  unfold Attempted at *
  simpa only [quiet_quiet, isRefusal_quiet] using h

theorem wp_sendOnce {call : Issued α} {m : Progress} {u : Unit}
    {Q : Progress → Except ClientError Answer → Unit → Prop} (hm : m.Sending)
    (ha : ∀ v a, Q ⟨Progress.answered v m.phase a, none⟩ (.ok a) ())
    (he : ∀ exc, Q ⟨m.phase.quiet, none⟩ (.error (.raised exc)) ()) :
    (call.client.sendOnce call.operation call.payload).wp (phases call) Q m u := by
  unfold HttpGameClient.sendOnce HttpGameClient.await
  rw [Coro.wp_bind, Coro.wp_await]
  refine ⟨hm, ?_⟩
  rintro _ ⟨v, rfl⟩
  refine (Coro.wp_await _).mpr ⟨⟨hm, v, rfl, rfl⟩, ?_⟩
  intro r hr
  cases r with
  | ok a => exact ha v a
  | error e =>
    obtain ⟨exc, rfl⟩ := hr e rfl
    have hphase : ((phases call).next ⟨m.phase, some v⟩
        (.transmit (call.request v)) (.error (.raised exc))) = ⟨m.phase.quiet, none⟩ := by
      rcases hm with h | h | h <;> simp [phases, Progress.next, h, Phase.quiet]
    show Q ((phases call).next _ _ _) _ _
    exact hphase ▸ he exc

theorem attempted_settle (call : Issued α) {phase : Phase} (v : ClientVersion) (a : Answer)
    (hphase : phase = .first ∨ phase = .adopted ∨ phase = .resent) :
    Attempted phase ⟨Progress.answered v phase a, none⟩
      (.ok (call.client.settle call.operation call.model a)) := by
  cases a with
  | transportFailure =>
    refine .inl ⟨?_, answered_transport hphase⟩
    by_cases hm : (registry call.operation).mutation = true <;> simp [hm]
  | response r =>
    cases hi : interpretResponse call.client.retryAfter call.model r with
    | ok result =>
      simp only [HttpGameClient.settle, hi]
      exact answered_response hphase (interpretResponse_ok hi)
    | error failure =>
      simp only [HttpGameClient.settle, hi]
      obtain ⟨hkind, hrequired⟩ := interpretResponse_version hi
      by_cases hr : r.statusCode = 426
      · have hk := hkind.mpr hr
        rw [if_neg (by simp [hk])]
        refine .inr ⟨hk, ?_⟩
        rw [hrequired hr]
        exact answered_refusal hphase hr
      · have hk : failure.kind ≠ .clientVersionRejected := fun h => hr (hkind.mp h)
        have hquiet := answered_response (v := v) hphase hr
        split
        · exact .inl ⟨by simp, hquiet⟩
        · exact .inl ⟨hk, hquiet⟩

theorem wp_attemptLoop {call : Issued α} {phase : Phase} {total left : ℕ} {u : Unit}
    (hphase : phase = .first ∨ phase = .adopted ∨ phase = .resent)
    {d : Option ClientVersion} :
    (call.client.attemptLoop call.operation call.model call.payload total (left + 1)).wp
      (phases call) (fun m r _ => Attempted phase m r) ⟨phase, d⟩ u := by
  induction left generalizing phase d with
  | zero =>
    unfold HttpGameClient.attemptLoop
    rw [Coro.wp_bind]
    refine wp_sendOnce hphase ?_ fun exc => ⟨rfl, exc, rfl⟩
    intro v a
    have hend := attempted_settle call v a hphase
    cases a with
    | transportFailure =>
      by_cases hm : (registry call.operation).mutation = true <;>
        simpa [hm, HttpGameClient.settle] using hend
    | response r =>
      unfold HttpGameClient.settle at hend
      cases hi : interpretResponse call.client.retryAfter call.model r with
      | ok result => simpa [hi] using hend
      | error failure =>
        by_cases hk : failure.kind = .unavailable ∧ (registry call.operation).mutation = true <;>
          simpa [hi, hk] using hend
  | succ left ih =>
    unfold HttpGameClient.attemptLoop
    rw [Coro.wp_bind]
    refine wp_sendOnce hphase ?_ fun exc => ⟨rfl, exc, rfl⟩
    intro v a
    have hend := attempted_settle call v a hphase
    cases a with
    | transportFailure =>
      by_cases hm : (registry call.operation).mutation = true
      · simpa [hm, HttpGameClient.settle] using hend
      · simp only [hm, if_false, Bool.false_eq_true, Nat.add_one_ne_zero, Coro.chain_ok]
        rw [Coro.wp_bind, answered_transport hphase]
        have hquiet : phase.quiet = .first ∨ phase.quiet = .resent := by
          rcases hphase with rfl | rfl | rfl <;> simp [Phase.quiet]
        refine (Coro.wp_await _).mpr ⟨⟨?_, ?_⟩, ?_⟩
        · exact hquiet.imp_right .inr
        · rcases hquiet with h | h <;> simp [h]
        · intro r hr
          have hnext : (phases call).next ⟨phase.quiet, none⟩ (.sleep (total - (left + 1 + 1))) r =
              ⟨phase.quiet, none⟩ := by cases r <;> rfl
          rw [hnext]
          cases r with
          | ok _ => exact Coro.wp_mono (ih (hquiet.imp_right .inr)) fun _ _ _ h => h.of_quiet
          | error e => exact ⟨rfl, hr e rfl⟩
    | response r =>
      unfold HttpGameClient.settle at hend
      cases hi : interpretResponse call.client.retryAfter call.model r with
      | ok result => simpa [hi] using hend
      | error failure =>
        by_cases hk : failure.kind = .unavailable ∧ (registry call.operation).mutation = true <;>
          simpa [hi, hk] using hend

theorem wp_attempt {call : Issued α} {phase : Phase} {u : Unit}
    (hphase : phase = .first ∨ phase = .adopted ∨ phase = .resent) {d : Option ClientVersion} :
    (call.client.attempt call.operation call.model call.payload).wp (phases call)
      (fun m r _ => Attempted phase m r) ⟨phase, d⟩ u := by
  unfold HttpGameClient.attempt
  by_cases hm : (registry call.operation).mutation = true
  · simp only [hm, if_true]
    exact wp_attemptLoop hphase
  · simp only [hm, if_false, Bool.false_eq_true]
    exact wp_attemptLoop hphase

/-- How a request ends, as `_request_outcome` sees it. -/
structure Outcome (m : Progress) (r : Except ClientError (Except Failure α)) : Prop where
  answered : ∀ v w, m.phase ≠ .demanded v w
  sent : m.phase ≠ .adopted
  stands : ∀ failure, r = .ok (.error failure) → failure.kind = .clientVersionRejected →
    (∃ b, m.phase = .refused b) ∨ ∃ v w, m.phase = .kept v w
  rejected : ∀ v w, m.phase = .kept v w →
    ∃ failure, r = .ok (.error failure) ∧ failure.kind = .clientVersionRejected
  raised : ∀ e, r = .error e → ∃ exc, e = .raised exc

theorem outcome_quiet {m : Progress} {r : Except ClientError (Except Failure α)}
    (hphase : m.phase = .first ∨ m.phase = .resent)
    (hk : ∀ failure, r = .ok (.error failure) → failure.kind ≠ .clientVersionRejected)
    (he : ∀ e, r = .error e → ∃ exc, e = .raised exc) : Outcome m r where
  answered v w h := by rcases hphase with h' | h' <;> rw [h] at h' <;> cases h'
  sent h := by rcases hphase with h' | h' <;> rw [h] at h' <;> cases h'
  stands failure h hkind := absurd hkind (hk failure h)
  rejected v w h := by rcases hphase with h' | h' <;> rw [h] at h' <;> cases h'
  raised := he

theorem outcome_refused {m : Progress} {failure : Failure} {b : Bool}
    (hphase : m.phase = .refused b) : @Outcome α m (.ok (.error failure)) where
  answered := by simp [hphase]
  sent := by simp [hphase]
  stands _ _ _ := .inl ⟨b, hphase⟩
  rejected := by simp [hphase]
  raised := by simp

theorem outcome_kept {m : Progress} {failure : Failure} {v : ClientVersion} {w : String}
    (hphase : m.phase = .kept v w) (hk : failure.kind = .clientVersionRejected) :
    @Outcome α m (.ok (.error failure)) where
  answered := by simp [hphase]
  sent := by simp [hphase]
  stands _ _ _ := .inr ⟨v, w, hphase⟩
  rejected _ _ _ := ⟨failure, rfl, hk⟩
  raised := by simp

/-- An attempt that meets no refusal ends the request. -/
theorem Attempted.outcome_quiet {phase : Phase} {m : Progress}
    {r : Except ClientError (Except Failure α)} (h : Attempted phase m r)
    (hk : ∀ failure, r = .ok (.error failure) → failure.kind ≠ .clientVersionRejected) :
    Outcome m r := by
  have hquiet : phase.quiet = .first ∨ phase.quiet = .resent := by cases phase <;> simp [Phase.quiet]
  rcases r with e | failure | result
  · exact Versions.outcome_quiet (h.1 ▸ hquiet) hk fun e' he => by cases he; exact h.2
  · rcases h with ⟨-, h⟩ | ⟨h, -⟩
    · exact Versions.outcome_quiet (h ▸ hquiet) hk (by simp)
    · exact absurd h (hk failure rfl)
  · exact Versions.outcome_quiet (h ▸ hquiet) hk (by simp)

/-- A second attempt leaves no demand open. -/
theorem Attempted.outcome {m : Progress} {r : Except ClientError (Except Failure α)}
    (h : Attempted .adopted m r) : Outcome m r := by
  by_cases hk : ∃ failure, r = .ok (.error failure) ∧ failure.kind = .clientVersionRejected
  · obtain ⟨failure, rfl, hkind⟩ := hk
    rcases h with ⟨hne, -⟩ | ⟨-, href⟩
    · exact absurd hkind hne
    · exact outcome_refused (show m.phase = .refused true from href)
  · exact h.outcome_quiet fun failure hr hkind => hk ⟨failure, hr, hkind⟩

theorem wp_requestOutcome {call : Issued α} {u : Unit} :
    (call.client.requestOutcome call.operation call.model call.payload).wp (phases call)
      (fun m r _ => Outcome m r) (phases call).init u := by
  unfold HttpGameClient.requestOutcome
  refine Coro.wp_seq (wp_attempt (.inl rfl)) ?_ ?_
  · rintro m (failure | result) u h
    · by_cases hk : failure.kind = .clientVersionRejected
      · have href := h.resolve_left fun h => h.1 hk
        simp only [hk, if_true]
        cases hrequired : failure.requiredVersion with
        | none =>
          rw [hrequired] at href
          exact outcome_refused (show m.phase = .refused false from href.2)
        | some w =>
          rw [hrequired] at href
          obtain ⟨v, hphase⟩ : ∃ v, m.phase = .demanded v w := href.2
          rw [Coro.wp_bind]
          refine (Coro.wp_await _).mpr ⟨⟨v, hphase⟩, ?_⟩
          rintro _ ⟨b, rfl⟩
          cases b with
          | true =>
            simp only [Coro.chain_ok, if_true]
            exact Coro.wp_mono (wp_attempt (.inr (.inl rfl))) fun _ _ _ h => h.outcome
          | false =>
            have hkept : ((phases call).next m (.adopt w) (.ok false)).phase = .kept v w := by
              simp [phases, Progress.next, hphase]
            simp only [Coro.chain_ok, Bool.false_eq_true, if_false, Coro.wp_pure]
            exact outcome_kept hkept hk
      · simp only [hk, if_false, Coro.wp_pure]
        exact h.outcome_quiet fun failure' h => by cases h; exact hk
    · exact h.outcome_quiet (by simp)
  · rintro m e u h
    exact h.outcome_quiet (by simp)

theorem publicError_version {operation : OperationName} {failure : Failure} :
    publicError operation failure = .clientVersionRejected ↔
      failure.kind = .clientVersionRejected := by
  unfold publicError
  cases failure.kind <;> simp

theorem wp_prog (call : Issued α) :
    ((clients α).prog call).wp (phases call) Settled (phases call).init := by
  show (Coro.toProc () _).wp _ _ _
  rw [Coro.wp_toProc]
  unfold HttpGameClient.requestResult
  refine Coro.wp_seq wp_requestOutcome ?_ ?_
  · rintro m (failure | result) u h
    · refine ⟨h.answered, h.sent, fun he => ?_, fun v w hkept => ?_⟩
      · simp only [Except.error.injEq, ClientError.game.injEq] at he
        exact h.stands failure rfl (publicError_version.mp he)
      · obtain ⟨failure', he, hk⟩ := h.rejected v w hkept
        cases he
        rw [publicError_version.mpr hk]
    · refine ⟨h.answered, h.sent, by simp, fun v w hkept => ?_⟩
      obtain ⟨_, he, -⟩ := h.rejected v w hkept
      cases he
  · rintro m e u h
    obtain ⟨exc, rfl⟩ := h.raised e rfl
    refine ⟨h.answered, h.sent, by simp, fun v w hkept => ?_⟩
    obtain ⟨_, he, -⟩ := h.rejected v w hkept
    cases he

theorem watched (α : Type) : Reachable.Watched (clients α) phases fun _ => Settled where
  prog := wp_prog
  ans := by
    intro call t v o r v' h m
    cases h with
    | declare => exact ⟨v, rfl⟩
    | adopt candidate => exact ⟨_, rfl⟩
    | transmit => exact fun e h => by cases h
    | interrupted _ exc =>
      intro e h
      cases h
      exact ⟨exc, rfl⟩
    | sleep => exact fun e h => by cases h
    | cancelled _ exc =>
      intro e h
      cases h
      exact ⟨exc, rfl⟩

/-! ## Histories -/

def IsTransmission (e : Event clientSig) : Prop := ∃ request r, e = ⟨.transmit request, r⟩

/-- The event is a transmission answered with a 426. -/
def IsRefused (e : Event clientSig) : Prop :=
  ∃ request r, e = ⟨.transmit request, .ok (.response r)⟩ ∧ r.statusCode = 426

/-- The status of the newest answer of a history is 426. -/
def lastRefused : List (Event clientSig) → Bool
  | [] => false
  | ⟨.transmit _, .ok (.response r)⟩ :: _ => r.statusCode == 426
  | ⟨.transmit _, _⟩ :: _ => false
  | _ :: earlier => lastRefused earlier

def resends : List (Event clientSig) → ℕ
  | [] => 0
  | ⟨.transmit _, _⟩ :: earlier => resends earlier + if lastRefused earlier then 1 else 0
  | _ :: earlier => resends earlier

section

variable {call : Issued α} {h : List (Event clientSig)}

/-- A version counts as declared only right after it was read. -/
theorem declared_just_read {v : ClientVersion} (hd : ((phases call).after h).declared = some v) :
    ∃ earlier, h = ⟨.declare, .ok v⟩ :: earlier := by
  cases h with
  | nil => cases hd
  | cons e earlier =>
    obtain ⟨o, r⟩ := e
    simp only [Monitor.after, phases] at hd
    generalize Monitor.after _ earlier = m at hd
    cases o with
    | declare =>
      cases r with
      | ok v' => cases hd; exact ⟨earlier, rfl⟩
      | error e => cases hd
    | adopt w =>
      rcases r with e | _ | _
      · simp only [Progress.next] at hd
        split at hd <;> cases hd
      · simp only [Progress.next] at hd
        split at hd <;> cases hd
      · cases hd
    | transmit request =>
      cases r with
      | ok a =>
        simp only [Progress.next] at hd
        split at hd <;> cases hd
      | error e => cases hd
    | sleep n => cases hd

/-- A demand is open only right after the answer that makes it. -/
theorem demanded_just_answered {v : ClientVersion} {w : String} (hv : (phases call).Valid h)
    (hd : ((phases call).after h).phase = .demanded v w) :
    ∃ a earlier, h = ⟨.transmit (call.request v), .ok a⟩ :: earlier ∧
      ∃ hw : isClientVersion w = true, a.RefusesFor ⟨w, hw⟩ := by
  cases h with
  | nil => cases hd
  | cons e earlier =>
    obtain ⟨o, r⟩ := e
    have hok := hv.1
    simp only [Monitor.after] at hd
    generalize (phases call).after earlier = m at hd hok
    have hsend : m.Sending → m.phase ≠ .demanded v w := by
      rintro (h | h | h) <;> simp [h]
    cases o with
    | declare =>
      cases r with
      | ok v' => exact absurd hd (hsend hok)
      | error e => exact absurd hd (hsend hok)
    | adopt w' =>
      obtain ⟨v', hm⟩ := hok
      rcases r with e | _ | _ <;> simp [phases, Progress.next, hm] at hd
    | transmit request =>
      obtain ⟨hm, v', hdeclared, rfl⟩ := hok
      cases r with
      | ok a =>
        simp only [phases, Progress.next, hdeclared] at hd
        obtain ⟨rfl, r, rfl, hr, hw⟩ := answered_demanded hm hd
        exact ⟨_, earlier, rfl, requiredClientVersion_wellFormed hw, r, rfl, hr, hw⟩
      | error e =>
        rcases hm with h | h | h <;> simp [phases, Progress.next, h] at hd
    | sleep n => exact absurd hd (hsend hok.1)

/-- Only the answer to a demand can make it stand. -/
theorem next_kept {m : Progress} {o : ClientOp} {r : clientSig.Ans o} {v : ClientVersion}
    {w : String} (hok : (phases call).ok m o) (h : (m.next o r).phase = .kept v w) :
    m.phase = .demanded v w ∧ o = .adopt w := by
  have hsend : m.Sending → m.phase ≠ .kept v w := by
    rintro (h | h | h) <;> simp [h]
  cases o with
  | declare => cases r <;> exact absurd h (hsend hok)
  | adopt w' =>
    obtain ⟨v', hm⟩ := hok
    rcases r with e | _ | _
    · simp only [Progress.next, hm, Phase.kept.injEq] at h
      exact ⟨by rw [hm, h.1, h.2], by rw [h.2]⟩
    · simp only [Progress.next, hm, Phase.kept.injEq] at h
      exact ⟨by rw [hm, h.1, h.2], by rw [h.2]⟩
    · cases h
  | transmit request =>
    obtain ⟨hm, v', hdeclared, rfl⟩ := hok
    cases r with
    | ok a =>
      simp only [Progress.next, hdeclared] at h
      exact absurd h (answered_ne_kept hm)
    | error e => rcases hm with hm | hm | hm <;> simp [Progress.next, hm] at h
  | sleep n => exact absurd h (hsend hok.1)

/-- Until the first 426 a request is in its first phase. -/
theorem phase_first (hv : (phases call).Valid h) (hnone : ∀ e ∈ h, ¬ IsRefused e) :
    ((phases call).after h).phase = .first := by
  induction h with
  | nil => rfl
  | cons e earlier ih =>
    have hfirst := ih hv.2 fun e he => hnone e (List.mem_cons_of_mem _ he)
    obtain ⟨o, r⟩ := e
    have hok := hv.1
    simp only [Monitor.after]
    generalize (phases call).after earlier = m at hfirst hok
    cases o with
    | declare => cases r <;> exact hfirst
    | adopt w =>
      obtain ⟨v, hm⟩ := hok
      rw [hfirst] at hm
      cases hm
    | transmit request =>
      obtain ⟨-, v, hdeclared, rfl⟩ := hok
      rcases r with e | _ | r
      · simp [phases, Progress.next, hfirst]
      · simp [phases, Progress.next, hdeclared, hfirst, Progress.answered]
      · have hr : r.statusCode ≠ 426 := fun hr =>
          hnone _ List.mem_cons_self ⟨_, r, rfl, hr⟩
        simp [phases, Progress.next, hdeclared, hfirst, Progress.answered, hr]
    | sleep n => exact hfirst

/-- The phases between a demand and the next transmission. -/
theorem phase_after_demand {v : ClientVersion} {w : String} {later : List (Event clientSig)}
    (hv : (phases call).Valid (later ++ h)) (hd : ((phases call).after h).phase = .demanded v w)
    (hnone : ∀ e ∈ later, ¬ IsTransmission e) :
    let phase := ((phases call).after (later ++ h)).phase
    phase = .demanded v w ∨ phase = .kept v w ∨ phase = .adopted := by
  induction later with
  | nil => exact .inl hd
  | cons e later ih =>
    have hprev := ih hv.2 fun e he => hnone e (List.mem_cons_of_mem _ he)
    obtain ⟨o, r⟩ := e
    have hok := hv.1
    simp only [List.cons_append, Monitor.after] at hprev ⊢
    generalize (phases call).after (later ++ h) = m at hprev hok
    cases o with
    | declare =>
      rcases hprev with hm | hm | hm
      · simp [phases, Progress.Sending, hm] at hok
      · simp [phases, Progress.Sending, hm] at hok
      · cases r <;> exact .inr (.inr hm)
    | adopt w' =>
      obtain ⟨v', hm'⟩ := hok
      rcases hprev with hm | hm | hm <;> rw [hm] at hm' <;> cases hm'
      rcases r with e | _ | _ <;> simp [phases, Progress.next, hm]
    | transmit request => exact absurd ⟨request, r, rfl⟩ (hnone _ List.mem_cons_self)
    | sleep n => rcases hprev with hm | hm | hm <;> simp [phases, Progress.Sending, hm] at hok

/-- How often a request in this phase was sent again for its version. -/
def Phase.resends : Phase → ℕ
  | .resent => 1
  | .refused true => 1
  | _ => 0

theorem Phase.resends_le (phase : Phase) : phase.resends ≤ 1 := by
  unfold Phase.resends
  split <;> omega

/-- The newest answer was a 426 in the phases that follow one. -/
def Phase.isRefusal : Phase → Bool
  | .first => false
  | .resent => false
  | _ => true

theorem answered_resends (request : Request) (v : ClientVersion) {phase : Phase} (a : Answer)
    (h : phase = .first ∨ phase = .adopted ∨ phase = .resent) :
    (Progress.answered v phase a).resends = phase.resends + (if phase.isRefusal then 1 else 0) ∧
      (Progress.answered v phase a).isRefusal = lastRefused [⟨.transmit request, .ok a⟩] := by
  cases a with
  | transportFailure =>
    rw [answered_transport h]
    rcases h with rfl | rfl | rfl <;> exact ⟨rfl, rfl⟩
  | response r =>
    by_cases hr : r.statusCode = 426
    · rcases h with rfl | rfl | rfl
      · cases hw : requiredClientVersion r <;>
          simp [Progress.answered, hr, hw, lastRefused, Phase.resends, Phase.isRefusal]
      · simp [Progress.answered, hr, lastRefused, Phase.resends, Phase.isRefusal]
      · simp [Progress.answered, hr, lastRefused, Phase.resends, Phase.isRefusal]
    · rw [answered_response h hr]
      rcases h with rfl | rfl | rfl <;>
        simp [lastRefused, hr, Phase.resends, Phase.isRefusal, Phase.quiet]

theorem resends_eq (hv : (phases call).Valid h) :
    resends h = ((phases call).after h).phase.resends ∧
      lastRefused h = ((phases call).after h).phase.isRefusal := by
  induction h with
  | nil => exact ⟨rfl, rfl⟩
  | cons e earlier ih =>
    obtain ⟨hcount, hlast⟩ := ih hv.2
    obtain ⟨o, r⟩ := e
    have hok := hv.1
    simp only [Monitor.after]
    generalize (phases call).after earlier = m at hcount hlast hok
    cases o with
    | declare => cases r <;> exact ⟨hcount, hlast⟩
    | adopt w =>
      obtain ⟨v, hm⟩ := hok
      simp only [hm] at hcount hlast
      rcases r with e | _ | _ <;> simp [phases, Progress.next, hm, resends, lastRefused, hcount,
        hlast, Phase.resends, Phase.isRefusal]
    | transmit request =>
      obtain ⟨hsend, v, hdeclared, rfl⟩ := hok
      cases r with
      | error e =>
        rcases hsend with hm | hm | hm <;>
          simp [phases, Progress.next, resends, lastRefused, hcount, hlast, hm, Phase.resends,
            Phase.isRefusal]
      | ok a =>
        obtain ⟨hresends, hrefusal⟩ := answered_resends (call.request v) v a hsend
        simp only [phases, Progress.next, hdeclared, resends, hcount, hlast, hresends, hrefusal]
        exact ⟨trivial, by cases a <;> rfl⟩
    | sleep n => exact ⟨hcount, hlast⟩

end

/-! ## Runs -/

/-- A demand for a version that the request did not declare is read while the shared version is
another one. -/
def Timely (c c' : Config (clients α)) : Prop :=
  ∀ t T T' request a earlier w r, c.task t = some T → c'.task t = some T' →
    T.hist = ⟨.transmit request, .ok a⟩ :: earlier → T'.hist = ⟨.adopt w, r⟩ :: T.hist →
    request.declared ≠ some w → c.world.1 ≠ w

abbrev TimelyRun : Config (clients α) → Config (clients α) → Prop :=
  Relation.ReflTransGen fun c c' => Step c c' ∧ Timely c c'

theorem TimelyRun.reachable {c c' : Config (clients α)} (h : TimelyRun c c') : Reachable c c' :=
  Relation.ReflTransGen.mono (fun _ _ hs => hs.1) _ _ h

theorem step_hist {c c' : Config (clients α)} (hst : Step c c') {t : TaskId}
    {T' : Task (clients α)} (hT' : c'.task t = some T') :
    T'.hist = [] ∨ ∃ T, c.task t = some T ∧ T'.call = T.call ∧
      (T'.hist = T.hist ∨
        ∃ o k r, T.prog = .call o k ∧ Answers c.world o r c'.world ∧ T'.hist = ⟨o, r⟩ :: T.hist) := by
  rcases hst.task_cases hT' with ⟨-, h⟩ | ⟨T, hT, hcall, ⟨hhist, -⟩ | ⟨o, k, r, -, hp, hw, rfl⟩⟩
  · exact .inl (by rw [h])
  · exact .inr ⟨T, hT, hcall, .inl hhist⟩
  · exact .inr ⟨T, hT, hcall, .inr ⟨o, k, r, hp, hw, rfl⟩⟩

/-- The version of a declaration is the one that was shared when it was read. -/
def ReadFrom (start c : Config (clients α)) (t : TaskId) (v : ClientVersion)
    (earlier : List (Event clientSig)) : Prop :=
  ∃ c₁ T₁, TimelyRun start c₁ ∧ TimelyRun c₁ c ∧ c₁.task t = some T₁ ∧ T₁.hist = earlier ∧
    c₁.world = v

theorem declarations_read {v₀ : ClientVersion} {c : Config (clients α)}
    (hrun : TimelyRun (.start v₀) c) :
    ∀ t T later v earlier, c.task t = some T → T.hist = later ++ ⟨.declare, .ok v⟩ :: earlier →
      ReadFrom (.start v₀) c t v earlier := by
  induction hrun with
  | refl =>
    intro t T later v earlier hT
    cases hT
  | @tail c c' hr hst ih =>
    intro t T' later v earlier hT' hhist
    have hlast : TimelyRun c c' := .single hst
    rcases step_hist hst.1 hT' with hnil | ⟨T, hT, -, hsame | ⟨o, k, r, hp, hw, hnew⟩⟩
    · rw [hnil] at hhist
      simp at hhist
    · obtain ⟨c₁, T₁, h₁, h₂, h₃⟩ := ih t T later v earlier hT (hsame ▸ hhist)
      exact ⟨c₁, T₁, h₁, h₂.trans hlast, h₃⟩
    · rw [hnew] at hhist
      cases later with
      | nil =>
        obtain ⟨hhead, rfl⟩ := List.cons.inj hhist
        cases hhead
        exact ⟨c, T, hr, hlast, hT, rfl, hw.declare_eq.symm⟩
      | cons e later =>
        obtain ⟨-, hrest⟩ := List.cons.inj hhist
        obtain ⟨c₁, T₁, h₁, h₂, h₃⟩ := ih t T later v earlier hT hrest
        exact ⟨c₁, T₁, h₁, h₂.trans hlast, h₃⟩

theorem follows {v₀ : ClientVersion} {c : Config (clients α)} (hrun : TimelyRun (.start v₀) c)
    {t : TaskId} {T : Task (clients α)} (hT : c.task t = some T) :
    Reachable.Follows phases (fun _ => Settled) T :=
  Reachable.follows (watched α) hrun.reachable t T hT

/-- Only a demand for the version that the request declared itself is not adopted. -/
theorem kept_declared {v₀ : ClientVersion} {c : Config (clients α)}
    (hrun : TimelyRun (.start v₀) c) :
    ∀ t T v w, c.task t = some T → ((phases T.call).after T.hist).phase = .kept v w →
      w = v.1 := by
  induction hrun with
  | refl =>
    intro t T v w hT
    cases hT
  | @tail c c' hr hst ih =>
    intro t T' v w hT' hphase
    rcases step_hist hst.1 hT' with hnil | ⟨T, hT, hcall, hsame | ⟨o, k, r, hp, hw, hnew⟩⟩
    · rw [hnil] at hphase
      cases hphase
    · exact ih t T v w hT (by rw [← hcall, ← hsame]; exact hphase)
    · have hfollows := follows hr hT
      rw [hcall, hnew] at hphase
      obtain ⟨hm, rfl⟩ := next_kept (hfollows.allowed hp) hphase
      obtain ⟨a, earlier, hbefore, hwell, -⟩ := demanded_just_answered hfollows.valid hm
      obtain ⟨hr', -⟩ := hw.adopt_eq
      by_contra hne
      have hdeclared : (T.call.request v).declared ≠ some w := by
        rw [Issued.declared_request]
        exact fun h => hne (Option.some.inj h).symm
      have hother := hst.2 t T T' _ a earlier w r hT hT' hbefore hnew hdeclared
      rw [hr'] at hphase
      simp [Monitor.after, phases, ClientVersion.adopt, hwell, hother.symm, Progress.next] at hphase

/-! ## A version raised once -/

/-- Whoever was refused had declared another version than `w` and was told to declare `w`. -/
def RaisedOnce (w : ClientVersion) (c : Config (clients α)) : Prop :=
  ∀ t T request r, c.task t = some T →
    (⟨.transmit request, .ok (.response r)⟩ : Event clientSig) ∈ T.hist → r.statusCode = 426 →
    request.declared ≠ some w.1 ∧ requiredClientVersion r = some w.1

/-- What is known of a request while the game asks for `w` and nothing else. -/
structure Once (w shared : ClientVersion) (m : Progress) : Prop where
  stands : ∀ b, m.phase ≠ .refused b
  named : ∀ v s, m.phase = .demanded v s ∨ m.phase = .kept v s → s = w.1 ∧ v ≠ w
  shared_eq : m.phase = .adopted ∨ m.phase = .resent → shared = w
  declared : m.phase = .adopted ∨ m.phase = .resent → ∀ v, m.declared = some v → v = w

/-- To adopt the version the game asks for leaves it shared. -/
theorem adopt_asked (v w : ClientVersion) : (v.adopt w.1).2 = w := by
  unfold ClientVersion.adopt
  rw [dif_pos w.2]
  split
  · rename_i h
    exact (Subtype.ext h).symm
  · rfl

theorem once_first {w shared : ClientVersion} {m : Progress} (hm : m.phase = .first) :
    Once w shared m := by
  constructor <;> simp [hm]

theorem once_resent {w : ClientVersion} {m : Progress} (hm : m.phase = .resent)
    (hd : m.declared = none) : Once w w m := by
  constructor <;> simp [hm, hd]

theorem once_next {call : Issued α} {w shared shared' : ClientVersion} {m : Progress}
    {o : ClientOp} {r : clientSig.Ans o} (h : Once w shared m) (hok : (phases call).ok m o)
    (hw : Answers shared o r shared')
    (hasked : ∀ request response,
      (⟨o, r⟩ : Event clientSig) = ⟨.transmit request, .ok (.response response)⟩ →
      response.statusCode = 426 →
      request.declared ≠ some w.1 ∧ requiredClientVersion response = some w.1) :
    Once w shared' (m.next o r) := by
  cases hw with
  | declare =>
    refine ⟨h.stands, h.named, h.shared_eq, ?_⟩
    intro hphase v hv
    cases hv
    exact h.shared_eq hphase
  | adopt =>
    rename_i s
    obtain ⟨v, hm⟩ := hok
    obtain ⟨rfl, hne⟩ := h.named v s (.inl hm)
    have hshared := adopt_asked shared w
    cases hadopt : (shared.adopt w.1).1 with
    | true => constructor <;> simp [Progress.next, hshared]
    | false =>
      constructor <;> simp only [Progress.next, hm, reduceCtorEq, false_or, or_self, false_imp_iff,
        Phase.kept.injEq, and_imp, ne_eq, not_false_eq_true, implies_true]
      rintro _ _ rfl rfl
      exact ⟨rfl, hne⟩
  | transmit =>
    rename_i request a
    obtain ⟨hsend, v, hdeclared, rfl⟩ := hok
    have hquiet : Progress.answered v m.phase a = m.phase.quiet →
        Once w shared (m.next (.transmit (call.request v)) (.ok a)) := by
      intro hq
      have hnext : m.next (.transmit (call.request v)) (.ok a) = ⟨m.phase.quiet, none⟩ := by
        simp [Progress.next, hdeclared, hq]
      rw [hnext]
      rcases hsend with hm | hm | hm
      · exact once_first (by rw [hm]; rfl)
      · obtain rfl := h.shared_eq (.inl hm)
        exact once_resent (by rw [hm]; rfl) rfl
      · obtain rfl := h.shared_eq (.inr hm)
        exact once_resent (by rw [hm]; rfl) rfl
    cases a with
    | transportFailure => exact hquiet (answered_transport hsend)
    | response r =>
      by_cases hr : r.statusCode = 426
      · obtain ⟨hother, hrequired⟩ := hasked _ r rfl hr
        rw [Issued.declared_request] at hother
        have hne : v ≠ w := fun h => hother (h ▸ rfl)
        rcases hsend with hm | hm | hm
        · have hnext : m.next (.transmit (call.request v)) (.ok (.response r)) =
              ⟨.demanded v w.1, none⟩ := by
            simp [Progress.next, hdeclared, hm, Progress.answered, hr, hrequired]
          rw [hnext]
          constructor <;> simp [hne]
        · exact absurd (h.declared (.inl hm) v hdeclared) hne
        · exact absurd (h.declared (.inr hm) v hdeclared) hne
      · exact hquiet (answered_response hsend hr)
  | interrupted =>
    rename_i request exc
    rcases hok.1 with hm | hm | hm
    · exact once_first (by simp [Progress.next, hm])
    · obtain rfl := h.shared_eq (.inl hm)
      exact once_resent (by simp [Progress.next, hm]) rfl
    · obtain rfl := h.shared_eq (.inr hm)
      exact once_resent (by simp [Progress.next, hm]) rfl
  | sleep => exact ⟨h.stands, h.named, h.shared_eq, fun _ _ hv => by cases hv⟩
  | cancelled => exact ⟨h.stands, h.named, h.shared_eq, fun _ _ hv => by cases hv⟩

theorem RaisedOnce.of_step {w : ClientVersion} {c c' : Config (clients α)}
    (h : RaisedOnce w c') (hst : Step c c') : RaisedOnce w c := by
  intro t T request r hT hmem
  obtain ⟨T', hT', -, hsub⟩ := hst.keeps hT
  exact h t T' request r hT' (hsub hmem)

theorem once_of_raised {v₀ w : ClientVersion} {c : Config (clients α)}
    (hrun : Reachable (.start v₀) c) (hraised : RaisedOnce w c) :
    ∀ t T, c.task t = some T → Once w c.world ((phases T.call).after T.hist) := by
  induction hrun with
  | refl =>
    intro t T hT
    cases hT
  | @tail c c' hr hst ih =>
    have hprev := ih (hraised.of_step hst)
    have hworld : c.world = w → c'.world = w := by
      intro hcw
      cases hst with
      | spawn => exact hcw
      | crash => exact hcw
      | env h => exact h.elim
      | @exec u U o k r w' hu ha hp hw =>
        have hallowed := (Reachable.follows (watched α) hr u U hu).allowed hp
        show w' = w
        cases hw with
        | adopt =>
          obtain ⟨v, hm⟩ := hallowed
          obtain ⟨rfl, -⟩ := (hprev u U hu).named v _ (.inl hm)
          exact adopt_asked _ _
        | _ => exact hcw
    intro t T' hT'
    rcases step_hist hst hT' with hnil | ⟨T, hT, hcall, hsame | ⟨o, k, r, hp, hw, hnew⟩⟩
    · rw [hnil]
      exact once_first rfl
    · rw [hcall, hsame]
      obtain ⟨hstands, hnamed, hshared, hdeclared⟩ := hprev t T hT
      exact ⟨hstands, hnamed, fun h => hworld (hshared h), hdeclared⟩
    · have hallowed := (Reachable.follows (watched α) hr t T hT).allowed hp
      rw [hcall, hnew]
      refine once_next (hprev t T hT) hallowed hw ?_
      intro request response he hstatus
      exact hraised t T' request response hT' (hnew ▸ he ▸ List.mem_cons_self) hstatus

/-! ## What a request does about a refusal -/

theorem transmission_declares {v₀ : ClientVersion} {c : Config (clients α)}
    (hrun : TimelyRun (.start v₀) c) {t : TaskId} {T : Task (clients α)} (hT : c.task t = some T)
    {later earlier : List (Event clientSig)} {request : Request}
    {r : clientSig.Ans (.transmit request)}
    (hhist : T.hist = later ++ ⟨.transmit request, r⟩ :: earlier) :
    ∃ v before, earlier = ⟨.declare, .ok v⟩ :: before ∧ request = T.call.request v ∧
      ReadFrom (.start v₀) c t v before := by
  have hv := (follows hrun hT).valid
  rw [hhist] at hv
  obtain ⟨-, v, hdeclared, hrequest⟩ := Monitor.valid_of_suffix hv
  obtain ⟨before, rfl⟩ := declared_just_read hdeclared
  refine ⟨v, before, rfl, hrequest, ?_⟩
  exact declarations_read hrun t T (later ++ [⟨.transmit request, r⟩]) v before hT
    (by rw [hhist, List.append_assoc]; rfl)

/-- A finished request that was refused for another version has been sent again. -/
theorem refused_is_resent {v₀ : ClientVersion} {c : Config (clients α)}
    (hrun : TimelyRun (.start v₀) c) {t : TaskId} {T : Task (clients α)} (hT : c.task t = some T)
    {later earlier : List (Event clientSig)} {request : Request} {a : Answer} {w : ClientVersion}
    (hhist : T.hist = later ++ ⟨.transmit request, .ok a⟩ :: earlier) (ha : a.RefusesFor w)
    (hw : request.declared ≠ some w.1) (hfirst : ∀ e ∈ earlier, ¬ IsRefused e)
    {result : Except ClientError α} (hret : T.prog = .ret result) :
    ∃ e ∈ later, IsTransmission e := by
  by_contra hnone
  have hfollows := follows hrun hT
  have hv := hfollows.valid
  have hsettled : Settled ((phases T.call).after T.hist) result := by
    have := hfollows.wp
    rwa [hret] at this
  rw [hhist] at hv hsettled
  obtain ⟨hok, hvalid⟩ := Monitor.valid_append hv
  obtain ⟨-, v, hdeclared, rfl⟩ := hok
  obtain ⟨r, rfl, hr, hrequired⟩ := ha
  have hdemand : ((phases T.call).after
      (⟨.transmit (T.call.request v), .ok (.response r)⟩ :: earlier)).phase = .demanded v w.1 := by
    have hphase := phase_first hvalid hfirst
    simp only [Monitor.after]
    generalize (phases T.call).after earlier = m at hdeclared hphase
    simp [phases, Progress.next, hdeclared, hphase, Progress.answered, hr, hrequired]
  have hafter := phase_after_demand hv hdemand fun e he h => hnone ⟨e, he, h⟩
  rcases hafter with h | h | h
  · exact hsettled.answered v w.1 h
  · rw [Issued.declared_request] at hw
    exact hw (congrArg some (kept_declared hrun t T v w.1 hT (hhist ▸ h)).symm)
  · exact hsettled.sent h

theorem not_rejected_of_raised {v₀ w : ClientVersion} {c : Config (clients α)}
    (hrun : TimelyRun (.start v₀) c) (hraised : RaisedOnce w c) {t : TaskId}
    {T : Task (clients α)} (hT : c.task t = some T) :
    T.prog ≠ .ret (.error (.game .clientVersionRejected)) := by
  intro hret
  have hsettled := (follows hrun hT).wp
  rw [hret] at hsettled
  have honce := once_of_raised hrun.reachable hraised t T hT
  rcases hsettled.stands rfl with ⟨b, h⟩ | ⟨v, s, h⟩
  · exact honce.stands b h
  · obtain ⟨rfl, hne⟩ := honce.named v s (.inr h)
    exact hne (Subtype.ext (kept_declared hrun t T v w.1 hT h).symm)

/-- In a run in which no demand comes after the shared version is already the demanded one: every
transmission declares the version that was shared just before; a request that is refused for a
version it did not declare is sent again before it ends, and once only; and while the game asks for
one version, no request ends because of its version. -/
theorem resent_after_refusal {v₀ : ClientVersion} {c : Config (clients α)}
    (hrun : TimelyRun (.start v₀) c) {t : TaskId} {T : Task (clients α)}
    (hT : c.task t = some T) :
    (∀ later request r earlier, T.hist = later ++ ⟨.transmit request, r⟩ :: earlier →
      ∃ v before, earlier = ⟨.declare, .ok v⟩ :: before ∧ request = T.call.request v ∧
        ReadFrom (.start v₀) c t v before) ∧
    (∀ later request a earlier w, T.hist = later ++ ⟨.transmit request, .ok a⟩ :: earlier →
      a.RefusesFor w → request.declared ≠ some w.1 → (∀ e ∈ earlier, ¬ IsRefused e) →
      ∀ result, T.prog = .ret result → ∃ e ∈ later, IsTransmission e) ∧
    resends T.hist ≤ 1 ∧
    ∀ w, RaisedOnce w c → T.prog ≠ .ret (.error (.game .clientVersionRejected)) := by
  refine ⟨?_, ?_, ?_, ?_⟩
  · intro later request r earlier hhist
    exact transmission_declares hrun hT hhist
  · intro later request a earlier w hhist ha hw hfirst result hret
    exact refused_is_resent hrun hT hhist ha hw hfirst hret
  · rw [(resends_eq (follows hrun hT).valid).1]
    exact Phase.resends_le _
  · intro w hraised
    exact not_rejected_of_raised hrun hraised hT

/-- A demand that is read when the shared version is the demanded one already ends the request. -/
theorem late_demand_is_rejected {v₀ : ClientVersion} {c : Config (clients α)}
    (hrun : Reachable (.start v₀) c) {t : TaskId} {T : Task (clients α)} (hT : c.task t = some T)
    {w : String} {earlier : List (Event clientSig)}
    (hhist : T.hist = ⟨.adopt w, .ok false⟩ :: earlier) :
    T.prog = .ret (.error (.game .clientVersionRejected)) := by
  have hfollows := Reachable.follows (watched α) hrun t T hT
  have hv := hfollows.valid
  rw [hhist] at hv
  obtain ⟨v, hm⟩ := hv.1
  have hkept : ((phases T.call).after T.hist).phase = .kept v w := by
    rw [hhist]
    simp only [Monitor.after]
    generalize (phases T.call).after earlier = m at hm
    simp [phases, Progress.next, hm]
  have hwp := hfollows.wp
  generalize (phases T.call).after T.hist = m at hwp hkept
  generalize T.prog = p at hwp ⊢
  cases p with
  | ret result => rw [Settled.rejected hwp v w hkept]
  | call o k =>
    have hok := hwp.1
    cases o <;> simp [phases, Progress.Sending, hkept] at hok

/-! ## Sample runs -/

/-- The world answers by itself; a script says what the game answers. -/
def answering : Responder clientSig ClientVersion
  | _, v, .declare, _ => some (.ok v, v)
  | _, v, .adopt w, _ => some (.ok (v.adopt w).1, (v.adopt w).2)
  | _, v, .transmit _, .ok a => some (.ok a, v)
  | _, _, .transmit _, .error _ => none
  | _, v, .sleep _, _ => some (.ok (), v)

theorem honest_answering : answering.Honest (clients α) := by
  intro t v o reply r v' h
  cases o with
  | declare => cases h; exact .declare v
  | adopt w => cases h; exact .adopt v w
  | sleep n => cases h; exact .sleep v n
  | transmit request =>
    cases reply with
    | ok a => cases h; exact .transmit v request a
    | error e => cases h

def requiredVersion : ClientVersion := ⟨"0.2.49", by decide⟩

def askingGame : (o : ClientOp) → clientSig.Ans o
  | .transmit request =>
    if request.declared = some requiredVersion.1 then
      .ok (.response { statusCode := 200, json := some (.obj [("data", .obj [])]) })
    else
      .ok (.response
        { statusCode := 426,
          json := some (.obj [("data", .obj [("minimumClientVersion", .str requiredVersion.1)])]) })
  | _ => .error .unreachable

def collecting : Issued Unit where
  client := ⟨"https://game", some "tok", fun _ => none⟩
  operation := .idleCollect
  model := ⟨false, fun _ => some ()⟩
  payload := none

def acceptingGame : (o : ClientOp) → clientSig.Ans o
  | .transmit _ => .ok (.response { statusCode := 200, json := some (.obj [("data", .obj [])]) })
  | _ => .error .unreachable

/-- The requests of tasks 0 and 1 are in flight together. The game answers the second one before it
asks for a version and the first one after that. -/
def overlapRun : Config (clients Unit) :=
  (((Config.start HttpGameClient.seedVersion).call answering 0 collecting askingGame 1).call
    answering 1 collecting acceptingGame 5).drive answering 0 askingGame 4

/-- The request of task 0 is in flight while task 1 learns the new version. -/
def raceRun : Config (clients Unit) :=
  (((Config.start HttpGameClient.seedVersion).call answering 0 collecting askingGame 1).call
    answering 1 collecting askingGame 5).drive answering 0 askingGame 2

theorem timely_of_adopted {v₀ : ClientVersion} {c : Config (clients α)}
    (hrun : Reachable (.start v₀) c)
    (h : ∀ t T w r, c.task t = some T → (⟨.adopt w, r⟩ : Event clientSig) ∈ T.hist →
      r = .ok true) :
    TimelyRun (.start v₀) c := by
  induction hrun with
  | refl => exact .refl
  | @tail c c' hr hst ih =>
    refine .tail (ih ?_) ⟨hst, ?_⟩
    · intro t T w r hT hmem
      obtain ⟨T', hT', -, hsub⟩ := hst.keeps hT
      exact h t T' w r hT' (hsub hmem)
    · intro t T T' request a earlier w r hT hT' _ hnew _ hw
      have hr := h t T' w r hT' (hnew ▸ List.mem_cons_self)
      rcases step_hist hst hT' with hnil | ⟨U, hU, -, hsame | ⟨o, k, r', -, hans, hhist⟩⟩
      · rw [hnil] at hnew
        cases hnew
      · rw [hT] at hU
        cases hU
        rw [hsame] at hnew
        exact absurd hnew (List.ne_cons_self)
      · rw [hhist] at hnew
        obtain ⟨he, -⟩ := List.cons.inj hnew
        cases he
        rw [hans.adopt_eq.1, ClientVersion.adopt] at hr
        simp [hw] at hr

/-- The event is no refused adoption. -/
def adopted : Event clientSig → Bool
  | ⟨.adopt _, .ok b⟩ => b
  | ⟨.adopt _, .error _⟩ => false
  | _ => true

/-- The event is no 426 but one that asks for the required version. -/
def asking : Event clientSig → Bool
  | ⟨.transmit request, .ok (.response r)⟩ =>
    r.statusCode != 426 ||
      request.declared != some requiredVersion.1 &&
        requiredClientVersion r == some requiredVersion.1
  | _ => true

theorem raisedOnce_of_asking {c : Config (clients α)}
    (h : ∀ t T, c.task t = some T → ∀ e ∈ T.hist, asking e = true) :
    RaisedOnce requiredVersion c := by
  intro t T request r hT hmem hr
  have := h t T hT _ hmem
  simpa [asking, hr] using this

theorem overlapRun_none (t : TaskId) (ht : t ∉ [0, 1]) : overlapRun.task t = none := by
  simp only [List.mem_cons, List.not_mem_nil, or_false, not_or] at ht
  rw [overlapRun, drive_task_ne ht.1, call_task_ne ht.2, call_task_ne ht.1]
  rfl

theorem overlapRun_timely : TimelyRun (.start HttpGameClient.seedVersion) overlapRun := by
  have hreach : Reachable (.start HttpGameClient.seedVersion) overlapRun :=
    ((reachable_call honest_answering ..).trans (reachable_call honest_answering ..)).trans
      (reachable_drive honest_answering ..)
  refine timely_of_adopted hreach ?_
  intro t T w r hT hmem
  have := forall_hist (p := adopted) overlapRun_none rfl t T hT _ hmem
  rcases r with e | b
  · cases this
  · exact congrArg Except.ok this

theorem overlapRun_raisedOnce : RaisedOnce requiredVersion overlapRun :=
  raisedOnce_of_asking (forall_hist overlapRun_none rfl)

theorem resent_after_refusal_overlapping :
    ∃ T U, overlapRun.task 0 = some T ∧ overlapRun.task 1 = some U ∧
      (resends T.hist = 1 ∧ resends T.hist ≤ 1 ∧
        T.prog ≠ .ret (.error (.game .clientVersionRejected))) ∧
      resends U.hist = 0 ∧ resends U.hist ≤ 1 ∧
        U.prog ≠ .ret (.error (.game .clientVersionRejected)) := by
  refine ⟨_, _, rfl, rfl, ⟨rfl, ?_⟩, rfl, ?_⟩
  · have h := resent_after_refusal (t := 0) overlapRun_timely rfl
    exact ⟨h.2.2.1, h.2.2.2 requiredVersion overlapRun_raisedOnce⟩
  · have h := resent_after_refusal (t := 1) overlapRun_timely rfl
    exact ⟨h.2.2.1, h.2.2.2 requiredVersion overlapRun_raisedOnce⟩

theorem raceRun_raisedOnce : RaisedOnce requiredVersion raceRun := by
  refine raisedOnce_of_asking (@forall_hist _ _ _ _ _ [0, 1] ?_ rfl)
  intro t ht
  simp only [List.mem_cons, List.not_mem_nil, or_false, not_or] at ht
  rw [raceRun, drive_task_ne ht.1, call_task_ne ht.2, call_task_ne ht.1]
  rfl

/-- The game asks everybody for one version, and a request that was in flight when another one
learned it is refused once, never sent again, and fails because of its version. -/
theorem in_flight_request_is_rejected :
    ∃ c : Config (clients Unit), Reachable (.start HttpGameClient.seedVersion) c ∧
      RaisedOnce requiredVersion c ∧
      ∃ T request a w r, c.task 0 = some T ∧
        T.hist = [⟨.adopt w, r⟩, ⟨.transmit request, .ok a⟩,
          ⟨.declare, .ok HttpGameClient.seedVersion⟩] ∧
        a.RefusesFor requiredVersion ∧ request.declared ≠ some requiredVersion.1 ∧
        T.prog = .ret (.error (.game .clientVersionRejected)) := by
  have hreach : Reachable (.start HttpGameClient.seedVersion) raceRun :=
    ((reachable_call honest_answering ..).trans (reachable_call honest_answering ..)).trans
      (reachable_drive honest_answering ..)
  refine ⟨raceRun, hreach, raceRun_raisedOnce, _, _, _, _, _, rfl, rfl, ⟨_, rfl, rfl, rfl⟩, ?_, rfl⟩
  decide

end Versions

end PlaceGame
