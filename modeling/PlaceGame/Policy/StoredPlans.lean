import PlaceGame.Accounts.Safety
import PlaceGame.Policy.PlanTexts
import PlaceGame.Scripts

/-!
# PlaceGame.Policy.StoredPlans

Every row that the plan store leaves validates again.

Confirming, marking and finishing write no column that a plan was created with, and what they write
passes the checks of the reload: a confirmation is complete, and a result is cut to the limits that
the reload enforces.
-/

namespace PlaceGame

open Coop

namespace Plans

/-- The row that `create` inserts for a draft. -/
def ActionPlanDraft.row (draft : ActionPlanDraft Time) : ActionPlan where
  accountId := draft.accountId
  stateFingerprint := draft.stateFingerprint
  policyVersion := draft.policyVersion.toNat
  proposedActions := draft.decisions.map Decision.toJson
  estimatedCosts := draft.estimatedCosts
  risk := draft.risk
  expiresAt := draft.expiresAt
  confirmationRequired := draft.confirmationRequired

/-- `execution_result` of a row. -/
def readResult : Option Json → Option (Option ExecutionResult)
  | none => some none
  | some result => (Wires.result.read result).map some

/-- The lifecycle fields of a row; `ownerText` is the text of an execution owner. -/
def rowLifecycle (ownerText : Nat → String) (id : PlanId) (row : ActionPlan)
    (executionResult : Option ExecutionResult) : Lifecycle Time where
  id := id
  confirmedAt := row.confirmedAt
  confirmedBy := row.confirmedBy
  executionState := row.executionState
  executedAt := row.executedAt
  executionResult := executionResult
  executionOwner := row.executionOwner.map ownerText
  executionStartedAt := row.executionStartedAt
  executionLeaseExpiresAt := row.executionLeaseExpiresAt
  executionAttemptCount := row.executionAttemptCount

/-- `_typed`: validation of a row. -/
def typed (ownerText : Nat → String) (id : PlanId) (row : ActionPlan) :
    Option (TypedActionPlan Time) := do
  let decisions ← row.proposedActions.mapM Decision.fromJson
  let estimatedCosts ← Wires.costs.read (Wires.costs.write row.estimatedCosts)
  let details ← validateDetails row.accountId row.stateFingerprint row.policyVersion decisions
    estimatedCosts row.risk row.expiresAt row.confirmationRequired
  let executionResult ← readResult row.executionResult
  validatePlan details (rowLifecycle ownerText id row executionResult)

/-! ## Results -/

/-- An entry within the limits of the reload. -/
def SafeEntry (e : String × Json) : Prop :=
  e.1.length ≤ 64 ∧ ∃ v : ExecutionResultValue, e.2 = v.toJson ∧ valueBounded v = true

theorem length_take (s : String) (n : Nat) : (String.ofList (s.toList.take n)).length ≤ n := by
  simp

theorem safeEntry_safe {e e' : String × Json} (h : PlanStore.safeEntry e = some e') :
    SafeEntry e' := by
  obtain ⟨key, value⟩ := e
  cases value <;> cases h
  · rename_i b
    exact ⟨length_take key 64, .bool b, rfl, rfl⟩
  · rename_i i
    exact ⟨length_take key 64, .int i, rfl, rfl⟩
  · rename_i s
    exact ⟨length_take key 64, .str _, rfl, decide_eq_true (length_take s 256)⟩

theorem insertEntry_safe {safe : List (String × Json)} {e : String × Json}
    (hsafe : ∀ e ∈ safe, SafeEntry e) (he : SafeEntry e) (hlength : safe.length < 16) :
    (PlanStore.insertEntry safe e).length ≤ 16 ∧
      ∀ e' ∈ PlanStore.insertEntry safe e, SafeEntry e' := by
  unfold PlanStore.insertEntry
  split
  · refine ⟨by rw [List.length_map]; omega, fun e' he' => ?_⟩
    obtain ⟨old, hold, rfl⟩ := List.mem_map.mp he'
    split
    · exact he
    · exact hsafe old hold
  · refine ⟨by rw [List.length_append, List.length_singleton]; omega, fun e' he' => ?_⟩
    rcases List.mem_append.mp he' with h | h
    · exact hsafe e' h
    · rw [List.mem_singleton.mp h]
      exact he

/-- The entries that `finish` collects, in the order of the mapping. -/
theorem safeResult_entries (result safe : List (String × Json)) (hlength : safe.length ≤ 16)
    (hsafe : ∀ e ∈ safe, SafeEntry e) :
    let entries := result.foldl (fun safe e =>
      match PlanStore.safeEntry e with
      | some e' => if safe.length < 16 then PlanStore.insertEntry safe e' else safe
      | none => safe) safe
    entries.length ≤ 16 ∧ ∀ e ∈ entries, SafeEntry e := by
  induction result generalizing safe with
  | nil => exact ⟨hlength, hsafe⟩
  | cons e result ih =>
    rw [List.foldl_cons]
    cases he : PlanStore.safeEntry e with
    | none => exact ih safe hlength hsafe
    | some e' =>
      by_cases hlt : safe.length < 16
      · simp only [hlt, if_true]
        obtain ⟨hl, hs⟩ := insertEntry_safe hsafe (safeEntry_safe he) hlt
        exact ih _ hl hs
      · simp only [hlt, if_false]
        exact ih safe hlength hsafe

theorem readEntries {entries : List (String × Json)} (h : ∀ e ∈ entries, SafeEntry e) :
    ∃ r : ExecutionResult, entries.mapM readResultEntry = some r ∧ r.length = entries.length ∧
      (r.all fun e => decide (e.1.length ≤ 64) && valueBounded e.2) = true := by
  induction entries with
  | nil => exact ⟨[], rfl, rfl, rfl⟩
  | cons e entries ih =>
    obtain ⟨r, hr, hlength, hall⟩ := ih fun e he => h e (List.mem_cons_of_mem _ he)
    obtain ⟨hkey, v, hv, hbound⟩ := h e List.mem_cons_self
    have hread : readResultEntry e = some (e.1, v) := by
      rw [← Wires.readResultEntry_write (e.1, v), ← hv]
    refine ⟨(e.1, v) :: r, by simp [hread, hr], by simp [hlength], ?_⟩
    rw [List.all_cons, hall]
    simp [hkey, hbound]

/-- Whatever mapping `finish` is given, the result it stores validates. -/
theorem safeResult_valid (result : List (String × Json)) :
    ∃ r, Wires.result.read (PlanStore.safeResult result) = some r ∧ resultBounded r = true := by
  obtain ⟨hlength, hsafe⟩ := safeResult_entries result [] (by simp) (by simp)
  obtain ⟨r, hr, hl, hall⟩ := readEntries hsafe
  refine ⟨r, hr, ?_⟩
  rw [resultBounded, hall, hl]
  simpa using hlength

/-! ## Rows -/

/-- The lifecycle columns pass the checks of the reload. -/
structure RowValid (row : ActionPlan) : Prop where
  complete : row.confirmedAt.isNone ↔ row.confirmedBy.isNone
  confirmed : row.executionState = .confirmed → row.confirmedAt.isSome
  result : ∀ json, row.executionResult = some json →
    ∃ r, Wires.result.read json = some r ∧ resultBounded r = true

def StoreUpdate : PlanUpdate → Prop
  | .confirmed _ _ | .markedExecuting => True
  | .finished state result _ => state.terminal = true ∧ ∃ r, result = PlanStore.safeResult r
  | _ => False

theorem RowValid.apply {row : ActionPlan} {u : PlanUpdate} (h : RowValid row)
    (hu : StoreUpdate u) : RowValid (u.apply row) := by
  cases u with
  | confirmed at_ by_ => exact ⟨by simp [PlanUpdate.apply], fun _ => rfl, h.result⟩
  | markedExecuting => exact ⟨h.complete, fun hstate => (by cases hstate), h.result⟩
  | finished state result at_ =>
    obtain ⟨hterminal, r, rfl⟩ := hu
    refine ⟨h.complete, fun hstate => ?_, fun json hjson => ?_⟩
    · rw [show state = .confirmed from hstate] at hterminal
      cases hterminal
    · cases hjson
      exact safeResult_valid r
  | recovered owner startedAt leaseExpiresAt => exact hu.elim
  | claimed owner startedAt leaseExpiresAt attemptCount => exact hu.elim
  | claimFinished owner state result at_ => exact hu.elim

theorem RowValid.reads {row : ActionPlan} (h : RowValid row) (ownerText : Nat → String)
    (id : PlanId) : ∃ result, readResult row.executionResult = some result ∧
      (rowLifecycle ownerText id row result).Valid := by
  cases hresult : row.executionResult with
  | none => exact ⟨none, rfl, h.complete, h.confirmed, rfl⟩
  | some json =>
    obtain ⟨r, hr, hbounded⟩ := h.result json hresult
    exact ⟨some r, by rw [readResult, hr]; rfl, h.complete, h.confirmed, hbounded⟩

theorem mapM_decisions (decisions : List Decision) :
    (decisions.map Decision.toJson).mapM Decision.fromJson = some decisions :=
  Wires.decision.mapM_read_write decisions

/-- A row with the columns of a draft and a valid lifecycle loads as a plan with the draft's
decisions, costs and family. -/
theorem typed_of_valid {ownerText : Nat → String} {id : PlanId} {row : ActionPlan}
    {draft : ActionPlanDraft Time} (hc : row.creation = draft.row.creation) (hv : RowValid row) :
    ∃ plan, typed ownerText id row = some plan ∧ plan.toPlanDetails = draft.toPlanDetails := by
  have hdetails : validateDetails row.accountId row.stateFingerprint (row.policyVersion : Int)
      draft.decisions row.estimatedCosts row.risk row.expiresAt row.confirmationRequired =
        some draft.toPlanDetails := by
    have hversion : (draft.row.policyVersion : Int) = draft.policyVersion :=
      Int.toNat_of_nonneg (Int.le_trans (by decide) draft.policyVersion_ge)
    have hcols : row.accountId = draft.accountId ∧ row.stateFingerprint = draft.stateFingerprint ∧
        row.policyVersion = draft.row.policyVersion ∧ row.estimatedCosts = draft.estimatedCosts ∧
          row.risk = draft.risk ∧ row.expiresAt = draft.expiresAt ∧
            row.confirmationRequired = draft.confirmationRequired := by
      cases row
      injection hc with h1 h2 h3 h4 h5 h6 h7 h8
      exact ⟨h1, h2, h3, h5, h6, h7, h8⟩
    obtain ⟨h1, h2, h3, h4, h5, h6, h7⟩ := hcols
    rw [h1, h2, h3, h4, h5, h6, h7, hversion]
    exact validateDetails_self draft.toPlanDetails
  have hactions : row.proposedActions = draft.decisions.map Decision.toJson :=
    congrArg PlanCreation.proposedActions hc
  obtain ⟨result, hresult, hvalid⟩ := hv.reads ownerText id
  rw [typed, hactions, mapM_decisions, Wires.costs.read_write]
  simp only [Option.bind_eq_bind, Option.bind_some, hdetails, hresult]
  rw [validatePlan, dif_pos hvalid]
  exact ⟨_, rfl, rfl⟩

/-! ## Runs of the plan store -/

variable {T : Type}

def OfPlanStore : Call → Prop
  | .createPlan _ | .confirmPlan _ _ _ | .markExecuting _ _ | .finishPlan _ _ _ => True
  | _ => False

/-- What a session of the plan store may commit for a call. -/
structure StoreWrites (call : Call) (ws : Writes) : Prop where
  updates : ∀ u ∈ ws.plans, StoreUpdate u.2
  created : ∀ id row, ws.newPlan = some (id, row) →
    ∃ row₀, call = .createPlan row₀ ∧ row.creation = row₀.creation ∧ RowValid row

def storing (T : Type) (call : Call) : Monitor (sig T) (Option (PlanId × ActionPlan)) where
  init := none
  next m
    | .commit ws, .ok _ => ws.newPlan.or m
    | _, _ => m
  ok _
    | .commit ws => OfPlanStore call → StoreWrites call ws
    | _ => True

/-- A plan id is returned for the plan that was created. -/
def Stored (call : Call) (m : Option (PlanId × ActionPlan)) (r : Except Exc (Returned T)) : Prop :=
  ∀ p, OfPlanStore call → r = .ok (.planId p) → ∃ row, m = some (p, row)

section Watched

variable {call : Call} {α : Type} {f : Frame}

def Leaves (call : Call) (Φ : α → Frame → Prop) (m : Option (PlanId × ActionPlan))
    (r : Except Exc α) (f : Frame) : Prop :=
  m = none ∧ ∀ x, r = .ok x → StoreWrites call f.writes ∧ Φ x f

theorem transaction_storing {body : Tx T α} {Φ : α → Frame → Prop} {wrap : α → Returned T}
    (hb : body.wp (storing T call) (Leaves call Φ) none {})
    (hwrap : ∀ x p f, Φ x f → wrap x = .planId p → ∃ row, f.newPlan = some (p, row)) :
    (returning wrap (transaction body)).wp (storing T call) (fun m r _ => Stored call m r) none
      () := by
  unfold returning
  refine Coro.wp_seq (R := fun m r _ => ∀ x p, r = .ok x → wrap x = .planId p →
    ∃ row, m = some (p, row)) (wp_transaction hb ?_ ?_) ?_ ?_
  · rintro m x f ⟨rfl, hf⟩
    obtain ⟨hws, hx⟩ := hf x rfl
    refine ⟨fun _ => hws, fun r _ => ?_⟩
    cases r with
    | ok _ =>
      intro y p hy hp
      cases hy
      obtain ⟨row, hrow⟩ := hwrap x p f hx hp
      exact ⟨row, by simp [storing, Frame.writes, hrow]⟩
    | error e =>
      refine ⟨trivial, fun r' _ => ?_⟩
      cases r' <;> (intro y p hy; cases hy)
  · rintro m e f ⟨rfl, -⟩
    refine ⟨trivial, fun r' _ => ?_⟩
    cases r' <;> (intro y p hy; cases hy)
  · intro m x _ hx p _ hp
    exact hx x p rfl (Except.ok.inj hp)
  · intro m e _ _ p _ hp
    cases hp

theorem leaves_error {Φ : α → Frame → Prop} {e : Exc} : Leaves call Φ none (.error e) f :=
  ⟨rfl, fun _ hx => by cases hx⟩

theorem storing_next {o : Op T} {r : Except Exc o.Val} {m : Option (PlanId × ActionPlan)}
    (ho : ∀ ws, o ≠ .commit ws) : (storing T call).next m o r = m := by
  cases o <;> first | rfl | exact absurd rfl (ho _)

theorem storing_ok {o : Op T} {m : Option (PlanId × ActionPlan)} (ho : ∀ ws, o ≠ .commit ws) :
    (storing T call).ok m o := by
  cases o <;> first | exact trivial | exact absurd rfl (ho _)

theorem await_storing {o : Op T} {g : o.Val → Tx T α} {Φ : α → Frame → Prop}
    (ho : ∀ ws, o ≠ .commit ws)
    (hk : ∀ x, (g x).wp (storing T call) (Leaves call Φ) none f) :
    (await o >>= g).wp (storing T call) (Leaves call Φ) none f := by
  rw [Coro.wp_bind, wp_await]
  refine ⟨storing_ok ho, fun r _ => ?_⟩
  rw [storing_next ho]
  cases r with
  | ok x => exact hk x
  | error e => exact leaves_error

theorem check_storing {p : Prop} [Decidable p] {e : Exc} {g : Unit → Tx T α}
    {Φ : α → Frame → Prop}
    (hk : ¬ p → (g ()).wp (storing T call) (Leaves call Φ) none f) :
    (raiseIf p e >>= g).wp (storing T call) (Leaves call Φ) none f := by
  rw [Coro.wp_bind, wp_raiseIf]
  exact ⟨fun _ => leaves_error, hk⟩

theorem create_storing {row : ActionPlan} :
    (PlanStore.create row : Tx T PlanId).wp (storing T (.createPlan row))
      (Leaves (.createPlan row) fun id f => ∃ row, f.newPlan = some (id, row)) none {} := by
  unfold PlanStore.create
  refine await_storing (by simp) fun id => ?_
  rw [Coro.wp_bind, wp_modifyFrame, Coro.chain_ok]
  refine await_storing (by simp) fun _ => ⟨rfl, fun x hx => ?_⟩
  cases hx
  refine ⟨⟨by simp [Frame.writes], fun id' row' h => ?_⟩, _, rfl⟩
  cases h
  exact ⟨row, rfl, rfl, by simp, fun h => (by cases h), fun _ h => (by cases h)⟩

/-- What an operation on a loaded plan leaves: one update of that plan. -/
theorem update_storing {planId : PlanId} {u : PlanUpdate} (hu : StoreUpdate u)
    (hplans : f.plans = []) (hnew : f.newPlan = none) :
    StoreWrites call { f with plan := f.plan.map u.apply, plans := f.plans ++ [(planId, u)] }.writes
    := by
  refine ⟨fun v hv => ?_, fun id row h => ?_⟩
  · have hv : v ∈ f.plans ++ [(planId, u)] := hv
    rw [hplans, List.nil_append, List.mem_singleton] at hv
    rw [hv]
    exact hu
  · have h : f.newPlan = some (id, row) := h
    rw [hnew] at h
    cases h

theorem loadForUpdate_storing {planId : PlanId} {accountId : Option AccountId}
    {g : ActionPlan → Tx T α} {Φ : α → Frame → Prop}
    (hk : ∀ plan f, f.plans = [] → f.newPlan = none →
      (g plan).wp (storing T call) (Leaves call Φ) none f) :
    (PlanStore.loadForUpdate planId accountId >>= g).wp (storing T call) (Leaves call Φ) none {} := by
  unfold PlanStore.loadForUpdate
  rw [Coro.wp_bind, Coro.wp_bind, wp_await]
  refine ⟨storing_ok (by simp), fun r _ => ?_⟩
  rw [storing_next (by simp)]
  cases r with
  | error e => exact leaves_error
  | ok row =>
    cases row with
    | none => exact leaves_error
    | some row => exact hk _ _ rfl rfl

theorem confirm_storing {planId : PlanId} {accountId : AccountId} {actor : Actor} :
    (PlanStore.confirm planId accountId actor : Tx T ActionPlan).wp (storing T call)
      (Leaves call fun _ _ => True) none {} := by
  unfold PlanStore.confirm
  refine loadForUpdate_storing fun row f hplans hnew => ?_
  refine check_storing fun _ => ?_
  refine await_storing (o := .clock) (by simp) fun now => ?_
  refine check_storing fun _ => ?_
  refine await_storing (o := .clock) (by simp) fun at_ => ?_
  unfold PlanStore.update
  rw [Coro.wp_bind, wp_modifyFrame, Coro.chain_ok]
  refine await_storing (by simp) fun _ => ⟨rfl, fun x _ => ⟨?_, trivial⟩⟩
  exact update_storing trivial hplans hnew

theorem markExecuting_storing {planId : PlanId} {expectedState : PlanState} :
    (PlanStore.markExecuting planId expectedState : Tx T Unit).wp (storing T call)
      (Leaves call fun _ _ => True) none {} := by
  unfold PlanStore.markExecuting
  refine check_storing fun _ => ?_
  refine loadForUpdate_storing fun row f hplans hnew => ?_
  refine check_storing fun _ => ?_
  refine await_storing (o := .clock) (by simp) fun now => ?_
  refine check_storing fun _ => ?_
  unfold PlanStore.update
  rw [Coro.wp_bind, wp_modifyFrame, Coro.chain_ok, wp_await]
  refine ⟨trivial, fun r _ => ⟨rfl, fun x _ => ⟨?_, trivial⟩⟩⟩
  exact update_storing trivial hplans hnew

theorem finish_storing {planId : PlanId} {status : PlanState} {result : List (String × Json)} :
    (PlanStore.finish planId status result : Tx T Unit).wp (storing T call)
      (Leaves call fun _ _ => True) none {} := by
  unfold PlanStore.finish
  refine check_storing fun hterminal => ?_
  refine loadForUpdate_storing fun row f hplans hnew => ?_
  refine check_storing fun _ => ?_
  refine await_storing (o := .clock) (by simp) fun now => ?_
  unfold PlanStore.update
  rw [Coro.wp_bind, wp_modifyFrame, Coro.chain_ok, wp_await]
  have hupdate : StoreUpdate (.finished status (PlanStore.safeResult result) now) :=
    ⟨by simpa using hterminal, result, rfl⟩
  refine ⟨trivial, fun r _ => ⟨rfl, fun x _ => ⟨?_, trivial⟩⟩⟩
  exact update_storing hupdate hplans hnew

theorem wp_unwatched {β : Type} (hcall : ¬ OfPlanStore call) {p : Proc (sig T) β}
    {Q : Option (PlanId × ActionPlan) → β → Prop} {m : Option (PlanId × ActionPlan)}
    (hQ : ∀ m x, Q m x) : p.wp (storing T call) Q m := by
  induction p generalizing m with
  | ret x => exact hQ m x
  | call o k ih =>
    refine ⟨?_, fun r _ => ih r⟩
    cases o <;> first | exact trivial | exact fun h => absurd h hcall

theorem watched_storing {P : Ports} :
    Reachable.Watched (machine T P) (storing T) Stored where
  prog call := by
    refine Coro.wp_toProc.mpr ?_
    by_cases hcall : OfPlanStore call
    · cases call with
      | createPlan row =>
        exact transaction_storing create_storing fun x p f hx hp => by
          cases hp
          exact hx
      | confirmPlan planId a actor =>
        exact transaction_storing confirm_storing fun x p f _ hp => by cases hp
      | markExecuting planId expectedState =>
        exact transaction_storing markExecuting_storing fun x p f _ hp => by cases hp
      | finishPlan planId status result =>
        exact transaction_storing finish_storing fun x p f _ hp => by cases hp
      | _ => exact hcall.elim
    · exact wp_unwatched hcall fun m x p hp => absurd hp hcall
  ans _ _ _ _ _ _ _ _ := trivial

end Watched

section Runs

variable {P : Ports} {c c' : Config (machine T P)} {t : TaskId} {U : Task (machine T P)}

def createdBy (U : Task (machine T P)) : Option (PlanId × ActionPlan) :=
  (storing T U.call).after U.hist

/-- The row of a plan that a call created from `row₀`. -/
def Persisted (w : World) (p : PlanId) (row₀ : ActionPlan) : Prop :=
  ∃ row, w.plans.get p = some row ∧ row.creation = row₀.creation ∧ RowValid row

/-- The plans that the calls of the store have created are there and valid. -/
def StoredRows (c : Config (machine T P)) : Prop :=
  ∀ t U p row, c.task t = some U → createdBy U = some (p, row) →
    ∃ row₀, U.call = .createPlan row₀ ∧ Persisted c.world p row₀

theorem foldl_updates {us : List (PlanId × PlanUpdate)} (hus : ∀ u ∈ us, StoreUpdate u.2)
    {plans : Table PlanId ActionPlan} {p : PlanId} {row : ActionPlan}
    (hget : plans.get p = some row) (hrow : RowValid row) :
    ∃ row', (us.foldl World.updatePlan plans).get p = some row' ∧
      row'.creation = row.creation ∧ RowValid row' := by
  induction us generalizing plans row with
  | nil => exact ⟨row, hget, rfl, hrow⟩
  | cons u us ih =>
    rw [List.foldl_cons]
    have ih := fun {plans : Table PlanId ActionPlan} {row : ActionPlan} =>
      @ih (fun v hv => hus v (List.mem_cons_of_mem _ hv)) plans row
    have hstep := World.get_updatePlan plans u p
    by_cases hp : p = u.1
    · rw [if_pos hp, ← hp, hget, Option.map_some] at hstep
      obtain ⟨row', hrow', hc, hv⟩ := ih hstep (hrow.apply (hus u List.mem_cons_self))
      exact ⟨row', hrow', hc.trans (PlanUpdate.apply_creation _ _), hv⟩
    · rw [if_neg hp, hget] at hstep
      exact ih hstep hrow

/-- A commit of the plan store keeps the plans that are there. -/
theorem Persisted.commit {w : World} {ws : Writes} {p : PlanId} {row₀ : ActionPlan}
    (h : Persisted w p row₀) (hws : ∀ u ∈ ws.plans, StoreUpdate u.2)
    (hnew : ∀ row, ws.newPlan = some (p, row) → w.plans.get p = none) :
    Persisted ((w.apply ws).release t) p row₀ := by
  obtain ⟨row, hget, hc, hv⟩ := h
  obtain ⟨row', hget', hc', hv'⟩ := foldl_updates hws hget hv
  rcases World.get_store (ws.plans.foldl World.updatePlan w.plans) ws.newPlan p with
    ⟨hsame, -⟩ | ⟨new, hrow, -⟩
  · exact ⟨row', hsame.trans hget', hc'.trans hc, hv'⟩
  · rw [hnew new hrow] at hget
    cases hget

theorem createdBy_advance {o : Op T} {r : Except Exc o.Val}
    {p : Proc (sig T) (Except Exc (Returned T))} :
    createdBy (U.advance o r p) = (storing T U.call).next (createdBy U) o r := rfl

/-- One finished await keeps what was created, and a commit persists what it creates. -/
theorem StoredRows.exec {w : World} (hw : w.Sound) (hr : Reachable (.start w) c)
    (hcalls : ∀ t U, c.task t = some U → OfPlanStore U.call) (hs : StoredRows c) {o : Op T}
    {k : Except Exc o.Val → Proc (sig T) (Except Exc (Returned T))} {r : Except Exc o.Val}
    {w' : World} (ht : c.task t = some U) (ha : U.alive = true) (hp : U.prog = .call o k)
    (hperform : World.Perform t c.world o r w') :
    StoredRows ({ c with world := w' }.setTask t (U.advance o r (k r))) := by
  -- the plans of every task are kept, and what this task creates is persisted
  have hsplit : (∀ u V p row₀, c.task u = some V → createdBy V = some (p, row₀) →
        ∃ row₀, V.call = .createPlan row₀ ∧ Persisted w' p row₀) ∧
      ∀ p row, createdBy (U.advance o r (k r)) = some (p, row) →
        createdBy U = some (p, row) ∨
          ∃ row₀, U.call = .createPlan row₀ ∧ Persisted w' p row₀ := by
    by_cases hcommit : ∃ ws, o = .commit ws
    · obtain ⟨ws, rfl⟩ := hcommit
      have hstore : StoreWrites U.call ws :=
        Reachable.Follows.allowed (Reachable.follows watched_storing hr t U ht) hp (hcalls t U ht)
      have hfresh : ∀ p row, ws.newPlan = some (p, row) → c.world.plans.get p = none := by
        intro p row hrow
        have hok : (seen U).CommitOk U.call ws := allowed hr ht hp
        exact (((safe_of_reachable hw hr).matches_ t U ht ha).fresh p (hok.2.2 p row hrow)).2.2
      have hkeep : ∀ u V p row₀, c.task u = some V → createdBy V = some (p, row₀) →
          ∃ row₀, V.call = .createPlan row₀ ∧
            Persisted ((c.world.apply ws).release t) p row₀ := by
        intro u V p row hV hcreated
        obtain ⟨row₀, hcall, hpersisted⟩ := hs u V p row hV hcreated
        exact ⟨row₀, hcall, hpersisted.commit hstore.updates fun row => hfresh p row⟩
      rcases hperform.effect_or with ⟨reply, h⟩ | ⟨-, rfl, rfl | ⟨reply, r', h⟩⟩
      · cases h
        refine ⟨hkeep, fun p row hcreated => ?_⟩
        rw [createdBy_advance] at hcreated
        cases hnew : ws.newPlan with
        | none =>
          simp only [storing, hnew, Option.none_or] at hcreated
          exact .inl hcreated
        | some new =>
          simp only [storing, hnew, Option.some_or] at hcreated
          cases hcreated
          obtain ⟨row₀, hcall, hc, hv⟩ := hstore.created p row hnew
          refine .inr ⟨row₀, hcall, row, ?_, hc, hv⟩
          show (World.store _ ws.newPlan).get p = some row
          rw [hnew]
          exact Table.get_set_self ..
      · exact ⟨hs, fun p row hcreated => .inl hcreated⟩
      · cases h
        exact ⟨hkeep, fun p row hcreated => .inl hcreated⟩
    · have hne : ∀ ws, o ≠ .commit ws := fun ws ho => hcommit ⟨ws, ho⟩
      have hrows : w'.plans = c.world.plans := by
        rcases hperform.rows with ⟨ws, ho, -⟩ | hsame
        · exact absurd ho (hne ws)
        · exact hsame.plans
      refine ⟨fun u V p row hV hcreated => ?_, fun p row hcreated => ?_⟩
      · obtain ⟨row₀, hcall, hpersisted⟩ := hs u V p row hV hcreated
        refine ⟨row₀, hcall, ?_⟩
        rw [Persisted, hrows]
        exact hpersisted
      · rw [createdBy_advance, storing_next hne] at hcreated
        exact .inl hcreated
  intro u V p row hV hcreated
  rw [Config.setTask_task] at hV
  split at hV
  · cases hV
    rcases hsplit.2 p row hcreated with hold | hnew
    · exact hsplit.1 t U p row ht hold
    · exact hnew
  · exact hsplit.1 u V p row hV hcreated

theorem storedRows {w : World} (hw : w.Sound) (hr : Reachable (.start w) c)
    (hcalls : ∀ t U, c.task t = some U → OfPlanStore U.call) : StoredRows c := by
  refine Reachable.invariant hr
    (fun c => (∀ t U, c.task t = some U → OfPlanStore U.call) → StoredRows c) ?_ ?_ hcalls
  · intro _ t U p row ht
    cases ht
  · intro c c' hr ih hst hcalls'
    have hcalls : ∀ t U, c.task t = some U → OfPlanStore U.call := by
      intro t U ht
      obtain ⟨U', ht', hcall⟩ := task_stays hst ht
      exact hcall ▸ hcalls' t U' ht'
    have hs := ih hcalls
    cases hst with
    | spawn t call ht =>
      intro u V p row hV hcreated
      rw [Config.setTask_task] at hV
      split at hV
      · cases hV
        cases hcreated
      · exact hs u V p row hV hcreated
    | exec t r ht ha hp hw' => exact hs.exec hw hr hcalls ht ha hp hw'
    | @crash t U ht ha =>
      intro u V p row hV hcreated
      rw [Config.setTask_task] at hV
      split at hV
      · cases hV
        exact hs t U p row ht hcreated
      · exact hs u V p row hV hcreated
    | env h =>
      intro u V p row hV hcreated
      obtain ⟨row₀, hcall, hpersisted⟩ := hs u V p row hV hcreated
      refine ⟨row₀, hcall, ?_⟩
      cases h <;> exact hpersisted

/-- A plan survives its JSON form, and every plan that the store created from a draft loads again,
with what the draft said, after any operations of the store. -/
theorem typed_plans_survive (ownerText : Nat → String) :
    (∀ (D : Type) (C : Codec D) (freshId : PlanId) (p : TypedActionPlan D),
      TypedActionPlan.fromJson C freshId (p.toJson C) = some p) ∧
    ∀ (w : World) (c : Config (machine T P)), w.Sound → Reachable (.start w) c →
      (∀ t U, c.task t = some U → OfPlanStore U.call) →
        ∀ t U (draft : ActionPlanDraft Time) p, c.task t = some U →
          U.call = .createPlan draft.row → U.prog = .ret (.ok (.planId p)) →
            ∃ row plan, c.world.plans.get p = some row ∧ typed ownerText p row = some plan ∧
              plan.decisions = draft.decisions ∧ plan.estimatedCosts = draft.estimatedCosts ∧
                plan.family = draft.declaredFamily := by
  refine ⟨fun D C freshId p => TypedActionPlan.fromJson_toJson p freshId, ?_⟩
  intro w c hw hr hcalls t U draft p ht hcall hprog
  have hpost := (Reachable.follows watched_storing hr t U ht).wp
  rw [hprog] at hpost
  obtain ⟨row', hcreated⟩ := hpost p (hcalls t U ht) rfl
  obtain ⟨row₀, hcall', row, hget, hc, hv⟩ := storedRows hw hr hcalls t U p row' ht hcreated
  rw [hcall] at hcall'
  cases hcall'
  obtain ⟨plan, htyped, hdetails⟩ := typed_of_valid hc hv
  have hdecisions : plan.decisions = draft.decisions := congrArg PlanDetails.decisions hdetails
  refine ⟨row, plan, hget, htyped, hdecisions, congrArg PlanDetails.estimatedCosts hdetails, ?_⟩
  have hhead : plan.decisions.head plan.decisions_ne ∈ draft.decisions :=
    hdecisions ▸ List.head_mem plan.decisions_ne
  exact draft.declared _ hhead

end Runs

def collectDecision : Decision where
  family := .idle
  reason := ⟨"idle_threshold_reached", isReason_threshold_reached⟩
  state := .selected
  action := some .idleCollect
  selected_action _ := rfl
  action_family a h := by
    cases h
    rfl

def sampleDraft : ActionPlanDraft Time where
  accountId := 7
  stateFingerprint :=
    "pgfp:v1:0000000000000000000000000000000000000000000000000000000000000000"
  policyVersion := 1
  decisions := [collectDecision]
  estimatedCosts := {}
  risk := .low
  expiresAt := 300
  confirmationRequired := true
  declaredFamily := .idle
  fingerprint_pattern := by decide +kernel
  policyVersion_ge := by decide
  decisions_ne := by simp
  one_family d hd e he := by
    rw [List.mem_singleton.mp hd, List.mem_singleton.mp he]
  declared d hd := by
    rw [List.mem_singleton.mp hd]
    rfl

/-- A plan is created, confirmed, marked and finished with a result that has to be cut. -/
def storeRun : Config (machine Unit samplePorts) :=
  let c := run (.start {}) 0 (.createPlan sampleDraft.row) friendlyGame 10
  let c := run c 1 (.confirmPlan 0 7 operator) friendlyGame 10
  let c := run c 2 (.markExecuting 0 .confirmed) friendlyGame 10
  run c 3 (.finishPlan 0 .executed [("status", .str "ok"), ("drop", .arr [])]) friendlyGame 10

theorem reachable_storeRun : Reachable (.start {}) storeRun :=
  (reachable_run ..).trans ((reachable_run ..).trans ((reachable_run ..).trans (reachable_run ..)))

theorem calls_storeRun : ∀ t U, storeRun.task t = some U → OfPlanStore U.call :=
  calls_of_run trivial (calls_of_run trivial (calls_of_run trivial (calls_of_run trivial
    fun _ _ h => by cases h)))

/-- A confirmed plan that was executed under a lease, with its result. -/
def executedPlan : TypedActionPlan UtcDatetime where
  accountId := 7
  stateFingerprint := sampleDraft.stateFingerprint
  policyVersion := 1
  decisions := [collectDecision]
  estimatedCosts := {}
  risk := .low
  expiresAt := ⟨⟨2026, 8, 17, 12, 5, 0, 0⟩, by decide⟩
  confirmationRequired := true
  fingerprint_pattern := sampleDraft.fingerprint_pattern
  policyVersion_ge := by decide
  decisions_ne := sampleDraft.decisions_ne
  one_family := sampleDraft.one_family
  id := 0x12345678123456781234567812345678
  confirmedAt := some ⟨⟨2026, 8, 17, 12, 1, 0, 0⟩, by decide⟩
  confirmedBy := some "mcp:operator"
  executionState := .executed
  executedAt := some ⟨⟨2026, 8, 17, 12, 2, 30, 250⟩, by decide⟩
  executionResult := some [("status", .str "ok"), ("reconciled", .bool false), ("seconds", .int 3600)]
  executionOwner := some "owner-1"
  executionStartedAt := some ⟨⟨2026, 8, 17, 12, 2, 0, 0⟩, by decide⟩
  executionLeaseExpiresAt := some ⟨⟨2026, 8, 17, 12, 7, 0, 0⟩, by decide⟩
  executionAttemptCount := 1
  valid := by decide

theorem typed_plans_survive_on_run :
    TypedActionPlan.fromJson jsonCodec 0 (executedPlan.toJson jsonCodec) = some executedPlan ∧
      ∃ row plan, storeRun.world.plans.get 0 = some row ∧ row.executionState = .executed ∧
        typed (fun n => toString n) 0 row = some plan ∧ plan.family = .idle := by
  have hsurvive := typed_plans_survive (T := Unit) (P := samplePorts) fun n => toString n
  refine ⟨hsurvive.1 UtcDatetime jsonCodec 0 executedPlan, ?_⟩
  obtain ⟨U, hU, hcall, hprog⟩ : ∃ U, storeRun.task 0 = some U ∧
      U.call = .createPlan sampleDraft.row ∧ U.prog = .ret (.ok (.planId 0)) := ⟨_, rfl, rfl, rfl⟩
  obtain ⟨row, plan, hget, htyped, -, -, hfamily⟩ :=
    hsurvive.2 {} storeRun World.sound_empty reachable_storeRun calls_storeRun 0 U sampleDraft 0 hU
      hcall hprog
  have hstate : (storeRun.world.plans.get 0).map (·.executionState) = some .executed := rfl
  rw [hget] at hstate
  exact ⟨row, plan, hget, Option.some.inj hstate, htyped, hfamily⟩

end Plans

end PlaceGame
