import PlaceGame.Game.Client

/-!
# PlaceGame.Game.Transport

One request alone with the game: what is transmitted, and how the request ends, for every sequence
of answers.

* `play` runs a request against a stream of answers.
* `burst` is the shape of what one `_attempt` transmits: the same request over and over, every
  answer but the last one a failure of the transport.
* `play_requestResult`: a request is one burst, or two of which the first ended in a 426 that names
  another version.
-/

namespace PlaceGame

open Coop

abbrev Transcript : Type := List (Request × Answer)

/-- The run of a client's program: its transmissions, the version it leaves, and its outcome. -/
structure Played (β : Type) where
  transcript : Transcript
  version : ClientVersion
  outcome : β

/-- Run a program alone: transmission number `n` is answered by `answers n`. -/
def play {β : Type} : Proc clientSig β → ClientVersion → (ℕ → Answer) → Played β
  | .ret b, v, _ => ⟨[], v, b⟩
  | .call .declare k, v, answers => play (k (.ok v)) v answers
  | .call (.adopt candidate) k, v, answers =>
    play (k (.ok (v.adopt candidate).1)) (v.adopt candidate).2 answers
  | .call (.sleep _) k, v, answers => play (k (.ok ())) v answers
  | .call (.transmit request) k, v, answers =>
    let rest := play (k (.ok (answers 0))) v fun n => answers (n + 1)
    { rest with transcript := (request, answers 0) :: rest.transcript }

theorem play_bind {β γ : Type} (p : Proc clientSig β) (f : β → Proc clientSig γ)
    (v : ClientVersion) (answers : ℕ → Answer) :
    play (p.bind f) v answers =
      let first := play p v answers
      let second := play (f first.outcome) first.version
        fun n => answers (first.transcript.length + n)
      { second with transcript := first.transcript ++ second.transcript } := by
  induction p generalizing v answers with
  | ret b => simp [Proc.bind, play]
  | call o k ih =>
    cases o with
    | declare => exact ih _ v answers
    | adopt candidate => exact ih _ _ answers
    | sleep n => exact ih _ v answers
    | transmit request =>
      simp only [Proc.bind, play]
      rw [ih]
      simp [Nat.add_assoc, Nat.add_comm 1]

/-! ## Coroutines alone with the game -/

/-- The run of a coroutine: its outcome is its result or what it raises. -/
def alone {β : Type} (c : Client β) (v : ClientVersion) (answers : ℕ → Answer) :
    Played (Except ClientError β) :=
  play (Coro.toProc () c) v answers

section

variable {β γ : Type} (v : ClientVersion) (answers : ℕ → Answer)

@[simp] theorem alone_pure (b : β) : alone (pure b) v answers = ⟨[], v, .ok b⟩ := rfl

@[simp] theorem alone_raise (e : ClientError) :
    alone (Coro.raise (S := clientSig) e : Client β) v answers = ⟨[], v, .error e⟩ := rfl

@[simp] theorem alone_adopt (candidate : String) :
    alone (HttpGameClient.await (.adopt candidate)) v answers =
      ⟨[], (v.adopt candidate).2, .ok (v.adopt candidate).1⟩ := rfl

@[simp] theorem alone_sleep (n : ℕ) :
    alone (HttpGameClient.await (.sleep n)) v answers = ⟨[], v, .ok ()⟩ := rfl

/-- A raise ends the run; a value goes on with the answers that are left. -/
theorem alone_bind (c : Client β) (f : β → Client γ) :
    alone (c >>= f) v answers =
      match alone c v answers with
      | ⟨first, v', .error e⟩ => ⟨first, v', .error e⟩
      | ⟨first, v', .ok b⟩ =>
        let second := alone (f b) v' fun n => answers (first.length + n)
        { second with transcript := first ++ second.transcript } := by
  have hbind : Coro.toProc () (c >>= f) = (Coro.toProc () c).bind fun r =>
      match r with
      | .ok b => Coro.toProc () (f b)
      | .error e => .ret (.error e) := by
    show Proc.map _ ((c ()).bind _) = (Proc.map _ (c ())).bind _
    unfold Proc.map
    rw [Proc.bind_assoc, Proc.bind_assoc]
    congr 1
    funext p
    obtain ⟨e | b, _⟩ := p
    · rfl
    · rfl
  unfold alone
  rw [hbind, play_bind]
  generalize play (Coro.toProc () c) v answers = first
  obtain ⟨t, v', e | b⟩ := first
  · simp [play]
  · rfl

end

/-! ## Answers -/

namespace Answer

/-- A 426 that names the version the game wants. -/
def RefusesFor (a : Answer) (w : ClientVersion) : Prop :=
  ∃ r, a = .response r ∧ r.statusCode = 426 ∧ requiredClientVersion r = some w.1

/-- The game may have done the work although the client does not see it. -/
def Uncertain : Answer → Prop
  | .transportFailure => True
  | .response r => 500 ≤ r.statusCode

/-- A 2xx envelope that is not refused and whose payload validates. -/
def Delivers {α : Type} (model : ResponseModel α) (a : Answer) (result : α) : Prop :=
  ∃ r envelope payload, a = .response r ∧ 200 ≤ r.statusCode ∧ r.statusCode < 300 ∧
    r.json = some (.obj envelope) ∧ envelope.lookup "ok" ≠ some (.bool false) ∧
    payloadFor model envelope = some payload ∧ model.validate payload = some result

end Answer

variable {α : Type}

theorem isFalse_iff {p : Option Payload} : isFalse p = true ↔ p = some (.bool false) := by
  unfold isFalse
  split
  · simp
  · rename_i h
    simp only [Bool.false_eq_true, false_iff]
    exact h

theorem requiredClientVersion_wellFormed {r : Response} {s : String}
    (h : requiredClientVersion r = some s) : isClientVersion s = true := by
  simp only [requiredClientVersion, Option.bind_eq_bind, Option.bind_eq_some_iff] at h
  obtain ⟨_, _, _, _, _, _, s', _, h⟩ := h
  split at h
  · cases h
    assumption
  · cases h

theorem interpretSuccess_ok {model : ResponseModel α} {r : Response} {result : α}
    (h : interpretSuccess model r = .ok result) :
    ∃ envelope payload, r.json = some (.obj envelope) ∧
      envelope.lookup "ok" ≠ some (.bool false) ∧ payloadFor model envelope = some payload ∧
      model.validate payload = some result := by
  unfold interpretSuccess at h
  simp only at h
  split at h
  · rename_i envelope hjson
    split at h
    · cases h
    · rename_i hok
      split at h
      · rename_i result' hvalid
        cases h
        obtain ⟨payload, hpayload, hvalid⟩ := Option.bind_eq_some_iff.mp hvalid
        exact ⟨envelope, payload, hjson, fun h => hok (isFalse_iff.mpr h), hpayload, hvalid⟩
      · cases h
  · cases h

theorem interpretSuccess_error {model : ResponseModel α} {r : Response} {failure : Failure}
    (h : interpretSuccess model r = .error failure) :
    failure.kind = .conflict ∨ failure.kind = .schemaMismatch := by
  unfold interpretSuccess at h
  simp only at h
  split at h
  · split at h
    · cases h
      exact .inl rfl
    · split at h
      · cases h
      · cases h
        exact .inr rfl
  · cases h
    exact .inr rfl

theorem interpretRefusal_unavailable {retryAfter : List (String × String) → Option ℚ}
    {r : Response} : (interpretRefusal retryAfter r).kind = .unavailable ↔ 500 ≤ r.statusCode := by
  unfold interpretRefusal
  simp only
  repeat' split
  all_goals first
    | (simp only [reduceCtorEq, false_iff]; omega)
    | (simp only [true_iff]; omega)

theorem interpretRefusal_ne_ambiguous {retryAfter : List (String × String) → Option ℚ}
    {r : Response} : (interpretRefusal retryAfter r).kind ≠ .ambiguous := by
  unfold interpretRefusal
  simp only
  repeat' split
  all_goals simp

/-- Only a 426 refuses the version, and it names what its body names. -/
theorem interpretRefusal_version {retryAfter : List (String × String) → Option ℚ} {r : Response} :
    (interpretRefusal retryAfter r).kind = .clientVersionRejected ↔ r.statusCode = 426 := by
  unfold interpretRefusal
  simp only
  repeat' split
  all_goals first
    | (simp only [reduceCtorEq, false_iff]; omega)
    | (simp only [true_iff]; omega)

theorem interpretRefusal_required {retryAfter : List (String × String) → Option ℚ} {r : Response}
    (h : r.statusCode = 426) :
    (interpretRefusal retryAfter r).requiredVersion = requiredClientVersion r := by
  simp [interpretRefusal, h]

/-! ## One attempt -/

/-- The same request `lost` times in vain and once more. -/
def burst (request : Request) (lost : ℕ) (last : Answer) : Transcript :=
  List.replicate lost (request, .transportFailure) ++ [(request, last)]

@[simp] theorem length_burst {request : Request} {lost : ℕ} {last : Answer} :
    (burst request lost last).length = lost + 1 := by simp [burst]

@[simp] theorem burst_zero {request : Request} {last : Answer} :
    burst request 0 last = [(request, last)] := rfl

theorem burst_succ {request : Request} {lost : ℕ} {last : Answer} :
    burst request (lost + 1) last = (request, .transportFailure) :: burst request lost last := by
  simp [burst, List.replicate_succ]

@[simp] theorem getLast?_burst {request : Request} {lost : ℕ} {last : Answer} :
    (burst request lost last).getLast? = some (request, last) := by simp [burst]

namespace HttpGameClient

variable (client : HttpGameClient) (operation : OperationName) (model : ResponseModel α)
  (payload : Option Json)

/-- The outcome that the last answer of an attempt decides. -/
def settle : Answer → Except Failure α
  | .transportFailure =>
    .error { kind := if (registry operation).mutation then .ambiguous else .unavailable }
  | .response r =>
    match interpretResponse client.retryAfter model r with
    | .error failure =>
      if failure.kind = .unavailable ∧ (registry operation).mutation = true then
        .error { kind := .ambiguous }
      else .error failure
    | .ok result => .ok result

def attempts : ℕ := if (registry operation).mutation then 1 else 3

theorem alone_sendOnce (v : ClientVersion) (answers : ℕ → Answer) :
    alone (client.sendOnce operation payload) v answers =
      ⟨[(client.request operation v payload, answers 0)], v, .ok (answers 0)⟩ := rfl

/-- With a round to go the loop transmits a burst and ends as its last answer says; a mutation has
no second round. -/
theorem alone_attemptLoop (total left : ℕ) (v : ClientVersion) (answers : ℕ → Answer)
    (hleft : (registry operation).mutation = true → left = 0) :
    ∃ lost < left + 1, ∃ last,
      alone (client.attemptLoop operation model payload total (left + 1)) v answers =
        ⟨burst (client.request operation v payload) lost last, v,
          .ok (client.settle operation model last)⟩ := by
  induction left generalizing answers with
  | zero =>
    refine ⟨0, by omega, answers 0, ?_⟩
    unfold attemptLoop
    rw [alone_bind, alone_sendOnce]
    cases answers 0 with
    | transportFailure => by_cases hm : (registry operation).mutation = true <;> simp [hm, settle]
    | response r =>
      simp only [settle]
      cases interpretResponse client.retryAfter model r with
      | ok result => simp
      | error failure =>
        by_cases hk : failure.kind = .unavailable ∧ (registry operation).mutation = true <;>
          simp [hk]
  | succ left ih =>
    have hm : ¬ (registry operation).mutation = true := fun h => by simpa using hleft h
    rw [attemptLoop, alone_bind, alone_sendOnce]
    cases hfirst : answers 0 with
    | transportFailure =>
      obtain ⟨lost, hlost, last, hrest⟩ := ih (fun n => answers (n + 1)) fun h => absurd h hm
      refine ⟨lost + 1, by omega, last, ?_⟩
      simp only [hm, if_false, Bool.false_eq_true, Nat.add_one_ne_zero]
      rw [alone_bind, alone_sleep]
      simp only [List.length_singleton, List.length_nil, Nat.zero_add, List.nil_append]
      simp only [Nat.add_comm 1]
      rw [hrest, burst_succ]
      rfl
    | response r =>
      refine ⟨0, by omega, .response r, ?_⟩
      simp only [settle]
      cases interpretResponse client.retryAfter model r with
      | ok result => simp
      | error failure => simp [hm]

theorem alone_attempt (v : ClientVersion) (answers : ℕ → Answer) :
    ∃ lost < attempts operation, ∃ last,
      alone (client.attempt operation model payload) v answers =
        ⟨burst (client.request operation v payload) lost last, v,
          .ok (client.settle operation model last)⟩ := by
  unfold attempt attempts
  by_cases hm : (registry operation).mutation = true
  · simp only [hm, if_true]
    exact client.alone_attemptLoop operation model payload 1 0 v answers fun _ => rfl
  · simp only [hm, if_false, Bool.false_eq_true]
    exact client.alone_attemptLoop operation model payload 3 2 v answers fun h => absurd h hm

variable {client operation model}

theorem settle_ambiguous {a : Answer} {failure : Failure}
    (h : client.settle operation model a = .error failure) :
    failure.kind = .ambiguous ↔ (registry operation).mutation = true ∧ a.Uncertain := by
  cases a with
  | transportFailure =>
    simp only [settle] at h
    cases h
    by_cases hm : (registry operation).mutation = true <;> simp [hm, Answer.Uncertain]
  | response r =>
    simp only [settle, interpretResponse] at h
    split at h
    · rename_i failure' hinterpret
      have hkind : failure'.kind ≠ .ambiguous ∧
          (failure'.kind = .unavailable ↔ 500 ≤ r.statusCode) := by
        split at hinterpret
        · rename_i hstatus
          rcases interpretSuccess_error hinterpret with hk | hk <;>
            · rw [hk]
              refine ⟨by simp, ?_⟩
              simp only [reduceCtorEq, false_iff]
              omega
        · cases hinterpret
          exact ⟨interpretRefusal_ne_ambiguous, interpretRefusal_unavailable⟩
      split at h
      · rename_i hk
        cases h
        simp only [true_iff]
        exact ⟨hk.2, hkind.2.mp hk.1⟩
      · rename_i hk
        cases h
        constructor
        · intro h
          exact absurd h hkind.1
        · intro ⟨hm, hu⟩
          exact absurd ⟨hkind.2.mpr hu, hm⟩ hk
    · cases h

theorem settle_ok {a : Answer} {result : α} (h : client.settle operation model a = .ok result) :
    a.Delivers model result := by
  cases a with
  | transportFailure => cases h
  | response r =>
    simp only [settle, interpretResponse] at h
    split at h
    · split at h <;> cases h
    · rename_i result' hinterpret
      cases h
      split at hinterpret
      · rename_i hstatus
        obtain ⟨envelope, body, hjson, hok, hbody, hvalid⟩ := interpretSuccess_ok hinterpret
        exact ⟨r, envelope, body, rfl, hstatus.1, hstatus.2, hjson, hok, hbody, hvalid⟩
      · cases hinterpret

/-- The version is rejected by a 426 alone, and the failure names what its body names. -/
theorem settle_version {a : Answer} {w : ClientVersion} :
    (∃ failure, client.settle operation model a = .error failure ∧
      failure.kind = .clientVersionRejected ∧ failure.requiredVersion = some w.1) ↔
      a.RefusesFor w := by
  constructor
  · rintro ⟨failure, h, hk, hw⟩
    cases a with
    | transportFailure =>
      cases h
      by_cases hm : (registry operation).mutation = true <;> simp [hm] at hk
    | response r =>
      simp only [settle, interpretResponse] at h
      split at h
      · rename_i failure' hinterpret
        split at h
        · cases h
          cases hk
        · cases h
          split at hinterpret
          · rcases interpretSuccess_error hinterpret with hk' | hk' <;> rw [hk] at hk' <;> cases hk'
          · cases hinterpret
            have h426 := interpretRefusal_version.mp hk
            rw [interpretRefusal_required h426] at hw
            exact ⟨r, rfl, h426, hw⟩
      · cases h
  · rintro ⟨r, rfl, h426, hw⟩
    have hk := (@interpretRefusal_version client.retryAfter r).mpr h426
    refine ⟨interpretRefusal client.retryAfter r, ?_, hk, ?_⟩
    · simp [settle, interpretResponse, h426, hk]
    · rw [interpretRefusal_required h426, hw]

/-! ## Whole requests -/

/-- What the request raises or returns once its last attempt is over. -/
def conclude (operation : OperationName) : Except Failure α → Except ClientError α
  | .ok result => .ok result
  | .error failure => .error (.game (publicError operation failure))

variable (client operation model)

theorem alone_requestResult (v : ClientVersion) (answers : ℕ → Answer) :
    alone (client.requestResult operation model payload) v answers =
      match alone (client.requestOutcome operation model payload) v answers with
      | ⟨t, v', .ok outcome⟩ => ⟨t, v', conclude operation outcome⟩
      | ⟨t, v', .error e⟩ => ⟨t, v', .error e⟩ := by
  unfold requestResult
  rw [alone_bind]
  rcases alone (client.requestOutcome operation model payload) v answers with ⟨t, v', e | e | b⟩
  · rfl
  · simp [conclude]
  · simp [conclude]

/-- `_request_outcome` transmits one burst, or two when the first ends in a 426 that names a
version other than the one declared. -/
theorem alone_requestOutcome (v : ClientVersion) (answers : ℕ → Answer) :
    ∃ lost < attempts operation, ∃ last,
      ((¬ ∃ w, w ≠ v ∧ last.RefusesFor w) ∧
        alone (client.requestOutcome operation model payload) v answers =
          ⟨burst (client.request operation v payload) lost last, v,
            .ok (client.settle operation model last)⟩) ∨
      ∃ w, w ≠ v ∧ last.RefusesFor w ∧ ∃ lost' < attempts operation, ∃ last',
        alone (client.requestOutcome operation model payload) v answers =
          ⟨burst (client.request operation v payload) lost last ++
            burst (client.request operation w payload) lost' last', w,
            .ok (client.settle operation model last')⟩ := by
  obtain ⟨lost, hlost, last, hattempt⟩ := client.alone_attempt operation model payload v answers
  refine ⟨lost, hlost, last, ?_⟩
  unfold requestOutcome
  rw [alone_bind, hattempt]
  simp only
  cases hsettle : client.settle operation model last with
  | ok result =>
    refine .inl ⟨?_, by simp⟩
    rintro ⟨w, -, hw⟩
    obtain ⟨failure, h, -⟩ := settle_version.mpr hw
    rw [hsettle] at h
    cases h
  | error failure =>
    have hnames : ∀ w, last.RefusesFor w → failure.kind = .clientVersionRejected ∧
        failure.requiredVersion = some w.1 := by
      intro w hw
      obtain ⟨failure', h, hk⟩ := settle_version.mpr hw
      rw [hsettle] at h
      cases h
      exact hk
    by_cases hk : failure.kind = .clientVersionRejected
    · cases hrequired : failure.requiredVersion with
      | none =>
        refine .inl ⟨?_, by simp [hk, hrequired]⟩
        rintro ⟨w, -, hw⟩
        rw [(hnames w hw).2] at hrequired
        cases hrequired
      | some s =>
        simp only [hk, if_true, hrequired]
        rw [alone_bind, alone_adopt]
        by_cases hnews : isClientVersion s = true ∧ s ≠ v.1
        · obtain ⟨hs, hne⟩ := hnews
          have hadopt : v.adopt s = (true, ⟨s, hs⟩) := by simp [ClientVersion.adopt, hs, hne]
          obtain ⟨lost', hlost', last', hagain⟩ := client.alone_attempt operation model payload
            ⟨s, hs⟩ fun n => answers (lost + 1 + n)
          refine .inr ⟨⟨s, hs⟩, fun h => hne (congrArg Subtype.val h),
            settle_version.mp ⟨failure, hsettle, hk, hrequired⟩, lost', hlost', last', ?_⟩
          simp only [hadopt, if_true, length_burst, List.length_nil, Nat.zero_add, hagain,
            List.nil_append]
        · have hadopt : v.adopt s = (false, v) := by
            unfold ClientVersion.adopt
            by_cases hs : isClientVersion s = true
            · simp [not_not.mp fun h => hnews ⟨hs, h⟩]
            · simp [hs]
          refine .inl ⟨?_, by simp [hadopt]⟩
          rintro ⟨w, hne, hw⟩
          have hsw := (hnames w hw).2
          rw [hrequired, Option.some.injEq] at hsw
          exact hnews ⟨hsw ▸ w.2, fun h => hne (Subtype.ext (hsw.symm.trans h))⟩
    · refine .inl ⟨?_, by simp [hk]⟩
      rintro ⟨w, -, hw⟩
      exact hk (hnames w hw).1

theorem play_requestResult (v : ClientVersion) (answers : ℕ → Answer) :
    ∃ lost < attempts operation, ∃ last,
      alone (client.requestResult operation model payload) v answers =
          ⟨burst (client.request operation v payload) lost last, v,
            conclude operation (client.settle operation model last)⟩ ∨
      ∃ w, w ≠ v ∧ last.RefusesFor w ∧ ∃ lost' < attempts operation, ∃ last',
        alone (client.requestResult operation model payload) v answers =
          ⟨burst (client.request operation v payload) lost last ++
            burst (client.request operation w payload) lost' last', w,
            conclude operation (client.settle operation model last')⟩ := by
  obtain ⟨lost, hlost, last, ⟨-, h⟩ | ⟨w, hne, hw, lost', hlost', last', h⟩⟩ :=
    client.alone_requestOutcome operation model payload v answers
  · exact ⟨lost, hlost, last, .inl (by rw [alone_requestResult, h])⟩
  · exact ⟨lost, hlost, last,
      .inr ⟨w, hne, hw, lost', hlost', last', by rw [alone_requestResult, h]⟩⟩

variable {client operation model}

theorem conclude_ambiguous {a : Answer} :
    conclude operation (client.settle operation model a) =
      .error (.game (.ambiguousMutation operation)) ↔
    (registry operation).mutation = true ∧ a.Uncertain := by
  cases h : client.settle operation model a with
  | ok result =>
    simp only [conclude, reduceCtorEq, false_iff]
    rintro ⟨-, hu⟩
    obtain ⟨r, _, _, rfl, _, hlt, _⟩ := settle_ok h
    simp only [Answer.Uncertain] at hu
    omega
  | error failure =>
    rw [← settle_ambiguous h]
    simp only [conclude, publicError, Except.error.injEq, ClientError.game.injEq]
    cases failure.kind <;> simp

theorem conclude_ok {outcome : Except Failure α} {result : α}
    (h : conclude operation outcome = .ok result) : outcome = .ok result := by
  cases outcome with
  | ok result' => cases h; rfl
  | error failure => cases h

theorem conclude_ne_unreachable {outcome : Except Failure α} :
    conclude operation outcome ≠ .error .unreachable := by
  cases outcome <;> simp [conclude]

theorem ends_safe {run : Played (Except ClientError α)} {request : Request} {a : Answer}
    (ht : run.transcript.getLast? = some (request, a))
    (ho : run.outcome = conclude operation (client.settle operation model a)) :
    (∃ last ∈ run.transcript.getLast?,
      (run.outcome = .error (.game (.ambiguousMutation operation)) ↔
        (registry operation).mutation = true ∧ last.2.Uncertain) ∧
      ∀ result, run.outcome = .ok result → last.2.Delivers model result) ∧
    run.outcome ≠ .error .unreachable := by
  rw [ht, ho]
  refine ⟨⟨(request, a), rfl, conclude_ambiguous, ?_⟩, conclude_ne_unreachable⟩
  intro result hresult
  exact settle_ok (conclude_ok hresult)

/-- What is transmitted for a request and how it ends, whatever the answers. A mutation is sent
again only after a refusal that names another version; a read is repeated only after failures of
the transport, and for another version. -/
theorem transport_safe (client : HttpGameClient) (operation : OperationName)
    (model : ResponseModel α) (payload : Option Json) (v : ClientVersion)
    (answers : ℕ → Answer) :
    let run := alone (client.requestResult operation model payload) v answers
    let sent := fun declared => client.request operation declared payload
    ((registry operation).mutation = true →
      (∃ a, run.transcript = [(sent v, a)]) ∨
      ∃ a w b, run.transcript = [(sent v, a), (sent w, b)] ∧ w ≠ v ∧ a.RefusesFor w) ∧
    ((registry operation).mutation = false →
      run.transcript.length ≤ 6 ∧
      ((∃ lost < 3, ∃ a, run.transcript = burst (sent v) lost a) ∨
      ∃ lost < 3, ∃ a w, ∃ lost' < 3, ∃ b,
        run.transcript = burst (sent v) lost a ++ burst (sent w) lost' b ∧
          w ≠ v ∧ a.RefusesFor w)) ∧
    (∃ last ∈ run.transcript.getLast?,
      (run.outcome = .error (.game (.ambiguousMutation operation)) ↔
        (registry operation).mutation = true ∧ last.2.Uncertain) ∧
      ∀ result, run.outcome = .ok result → last.2.Delivers model result) ∧
    run.outcome ≠ .error .unreachable := by
  intro run sent
  obtain ⟨lost, hlost, a, hrun | ⟨w, hne, hw, lost', hlost', b, hrun⟩⟩ :=
    client.play_requestResult operation model payload v answers
  · have ht : run.transcript = burst (sent v) lost a := congrArg Played.transcript hrun
    refine ⟨fun hm => ?_, fun hm => ?_, ?_⟩
    · rw [attempts, if_pos hm] at hlost
      obtain rfl : lost = 0 := by omega
      exact .inl ⟨a, ht⟩
    · rw [attempts, hm, if_neg Bool.false_ne_true] at hlost
      refine ⟨?_, .inl ⟨lost, hlost, a, ht⟩⟩
      rw [ht, length_burst]
      omega
    · exact ends_safe (by rw [ht, getLast?_burst]) (congrArg Played.outcome hrun)
  · have ht : run.transcript = burst (sent v) lost a ++ burst (sent w) lost' b :=
      congrArg Played.transcript hrun
    refine ⟨fun hm => ?_, fun hm => ?_, ?_⟩
    · rw [attempts, if_pos hm] at hlost hlost'
      obtain rfl : lost = 0 := by omega
      obtain rfl : lost' = 0 := by omega
      exact .inr ⟨a, w, b, ht, hne, hw⟩
    · rw [attempts, hm, if_neg Bool.false_ne_true] at hlost hlost'
      refine ⟨?_, .inr ⟨lost, hlost, a, w, lost', hlost', b, ht, hne, hw⟩⟩
      rw [ht, List.length_append, length_burst, length_burst]
      omega
    · have hlast : run.transcript.getLast? = some (sent w, b) := by
        rw [ht, List.getLast?_append, getLast?_burst]
        rfl
      exact ends_safe hlast (congrArg Played.outcome hrun)

def seedVersion : ClientVersion := ⟨"0.2.48", by decide⟩

/-- A status of 600 is no 5xx, and yet the mutation is called ambiguous. -/
theorem status_600_is_ambiguous :
    ∃ (client : HttpGameClient) (model : ResponseModel Unit) (answers : ℕ → Answer),
      (alone (client.requestResult .idleCollect model none) seedVersion answers).outcome =
          .error (.game (.ambiguousMutation .idleCollect)) ∧
      ∀ last ∈ (alone (client.requestResult .idleCollect model none) seedVersion
          answers).transcript.getLast?,
        ¬ (last.2 = .transportFailure ∨
          ∃ r, last.2 = .response r ∧ 500 ≤ r.statusCode ∧ r.statusCode < 600) := by
  refine ⟨⟨"https://game", none, fun _ => none⟩, ⟨false, fun _ => some ()⟩,
    fun _ => .response ⟨600, [], none⟩, rfl, ?_⟩
  intro last hlast
  obtain rfl : _ = last := Option.some.inj hlast
  rintro (h | ⟨r, h, -, hlt⟩)
  · cases h
  · cases h
    exact absurd hlt (by decide)

end HttpGameClient

end PlaceGame
