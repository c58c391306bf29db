import PlaceGame.Policy.Actions

/-!
# PlaceGame.Policy.TypedPlans

`TypedActionPlan` and `ActionPlanDraft` with their JSON forms. How UUIDs and datetimes are written as
text is up to the serialiser and is a parameter; `D` is the type of datetimes.
-/

namespace PlaceGame

namespace Plans

inductive DecisionState where
  | selected
  | skipped
  | blocked
  deriving DecidableEq, Repr

def DecisionState.text : DecisionState → String
  | .selected => "selected"
  | .skipped => "skipped"
  | .blocked => "blocked"

/-- `SelectedDecision`, `SkippedDecision` and `BlockedDecision`: they differ in the state, and only a
selected one has to have an action. -/
structure Decision where
  family : ActionFamily
  reason : Reason
  state : DecisionState
  action : Option RegisteredAction
  selected_action : state = .selected → action.isSome
  action_family : ∀ a, action = some a → a.family = family

namespace Wires

def action : Wire RegisteredAction where
  write := RegisteredAction.toJson
  read := RegisteredAction.fromJson
  read_write := RegisteredAction.fromJson_toJson

theorem toJson_ne_null (a : RegisteredAction) : action.write a ≠ .null := by
  intro h
  cases a <;> cases h

def nullableAction : Wire (Option RegisteredAction) := Wire.nullable action toJson_ne_null

def decisionState : Wire DecisionState :=
  Wire.literal [.selected, .skipped, .blocked] DecisionState.text
    (fun s => by cases s <;> decide) fun a b h => by
      cases a <;> cases b <;> first | rfl | exact absurd h (by decide)

end Wires

namespace Decision

def toJson (d : Decision) : Json :=
  .obj
    [("family", Wires.family.write d.family), ("reason", Wires.reason.write d.reason),
      ("state", Wires.decisionState.write d.state),
      ("action", Wires.nullableAction.write d.action)]

def validate (family : ActionFamily) (reason : Reason) (state : DecisionState)
    (action : Option RegisteredAction) : Option Decision :=
  if h : (state = .selected → action.isSome) ∧ (action.all fun a => a.family = family) = true then
    some
      { family, reason, state, action
        selected_action := h.1
        action_family := fun a ha => by simpa [ha] using h.2 }
  else none

/-- Validation of the union, discriminated by `state`; the action of a decision that is not selected
defaults to `None`. -/
def fromJson : Json → Option Decision
  | .obj fields =>
    if Wire.noExtra [["family"], ["reason"], ["state"], ["action"]] fields then do
      let family ← Wires.family.field ["family"] fields
      let reason ← Wires.reason.field ["reason"] fields
      let state ← Wires.decisionState.field ["state"] fields
      let action ← Wires.nullableAction.fieldD ["action"] none fields
      validate family reason state action
    else none
  | _ => none

theorem validate_self (d : Decision) :
    validate d.family d.reason d.state d.action = some d := by
  have hfamily : (d.action.all fun a => a.family = d.family) = true := by
    cases h : d.action with
    | none => rfl
    | some a => simp [d.action_family a h]
  rw [validate, dif_pos ⟨d.selected_action, hfamily⟩]

theorem fromJson_toJson (d : Decision) : fromJson (toJson d) = some d := by
  have hcheck := validate_self d
  simp [toJson, fromJson, Wire.noExtra, Wire.field, Wire.fieldD, Wire.field?, List.lookup_cons, List.lookup_nil, hcheck]

end Decision

/-! ## Costs, results and the other fields -/

namespace Wires

def decision : Wire Decision where
  write := Decision.toJson
  read := Decision.fromJson
  read_write := Decision.fromJson_toJson

def costsFields (c : EstimatedCosts) : List (String × Json) :=
  [("material", Wire.nat.write c.material), ("attempts", Wire.nat.write c.attempts),
    ("currency", Wire.nat.write c.currency)]

def readCosts (fields : List (String × Json)) : Option EstimatedCosts :=
  if Wire.noExtra [["material"], ["attempts"], ["currency"]] fields then do
    let material ← Wire.nat.fieldD ["material"] 0 fields
    let attempts ← Wire.nat.fieldD ["attempts"] 0 fields
    let currency ← Wire.nat.fieldD ["currency"] 0 fields
    return { material, attempts, currency }
  else none

def costs : Wire EstimatedCosts where
  write c := .obj (costsFields c)
  read
    | .obj fields => readCosts fields
    | _ => none
  read_write c := by
    simp [costsFields, readCosts, Wire.noExtra, Wire.fieldD, Wire.field?, List.lookup_cons, List.lookup_nil]

def risk : Wire RiskClass :=
  Wire.literal [.low, .medium, .high]
    (fun | .low => "low" | .medium => "medium" | .high => "high")
    (fun r => by cases r <;> decide) fun a b h => by
      cases a <;> cases b <;> first | rfl | exact absurd h (by decide)

def planState : Wire PlanState :=
  Wire.literal [.pending, .confirmed, .executing, .executed, .failed, .reconciliationRequired]
    (fun
      | .pending => "pending" | .confirmed => "confirmed" | .executing => "executing"
      | .executed => "executed" | .failed => "failed"
      | .reconciliationRequired => "reconciliation_required")
    (fun s => by cases s <;> decide) fun a b h => by
      cases a <;> cases b <;> first | rfl | exact absurd h (by decide)

end Wires

/-- `StrictStr | StrictBool | StrictInt`. -/
inductive ExecutionResultValue where
  | str (s : String)
  | bool (b : Bool)
  | int (i : Int)
  deriving DecidableEq, Repr

def ExecutionResultValue.toJson : ExecutionResultValue → Json
  | .str s => .str s
  | .bool b => .bool b
  | .int i => .int i

def ExecutionResultValue.fromJson : Json → Option ExecutionResultValue
  | .str s => some (.str s)
  | .bool b => some (.bool b)
  | .int i => some (.int i)
  | _ => none

abbrev ExecutionResult := List (String × ExecutionResultValue)

def valueBounded : ExecutionResultValue → Bool
  | .str s => decide (s.length ≤ 256)
  | _ => true

/-- The limits of `validate_plan`. -/
def resultBounded (result : ExecutionResult) : Bool :=
  decide (result.length ≤ 16) &&
    result.all fun e => decide (e.1.length ≤ 64) && valueBounded e.2

def readResultEntry (e : String × Json) : Option (String × ExecutionResultValue) :=
  (ExecutionResultValue.fromJson e.2).map fun v => (e.1, v)

namespace Wires

theorem readResultEntry_write (e : String × ExecutionResultValue) :
    readResultEntry (e.1, e.2.toJson) = some e := by
  obtain ⟨key, value⟩ := e
  cases value <;> rfl

def result : Wire ExecutionResult where
  write r := .obj (r.map fun e => (e.1, e.2.toJson))
  read
    | .obj fields => fields.mapM readResultEntry
    | _ => none
  read_write r := by
    induction r with
    | nil => rfl
    | cons e r ih =>
      have ih : (r.map fun e => (e.1, e.2.toJson)).mapM readResultEntry = some r := ih
      simp [readResultEntry_write, ih]

end Wires

def isHexDigit (c : Char) : Bool := c.isDigit || ('a' ≤ c && c ≤ 'f')

/-- `^pgfp:v1:[0-9a-f]{64}$`. -/
def isFingerprint (s : String) : Bool :=
  let chars := s.toList
  decide (chars.take 8 = "pgfp:v1:".toList) && decide (chars.length = 72) &&
    (chars.drop 8).all isHexDigit

/-- How identifiers and datetimes are written as text, and that what was written is read back. -/
structure Codec (D : Type) where
  uuidText : Nat → String
  parseUuid : String → Option Nat
  isoformat : D → String
  parseDatetime : String → Option D
  parse_uuidText : ∀ id, parseUuid (uuidText id) = some id
  parse_isoformat : ∀ d, parseDatetime (isoformat d) = some d

variable {D : Type}

structure PlanDetails (D : Type) where
  accountId : AccountId
  stateFingerprint : String
  policyVersion : Int
  decisions : List Decision
  estimatedCosts : EstimatedCosts
  risk : RiskClass
  expiresAt : D
  confirmationRequired : Bool
  fingerprint_pattern : isFingerprint stateFingerprint = true
  policyVersion_ge : 1 ≤ policyVersion
  decisions_ne : decisions ≠ []
  one_family : ∀ d ∈ decisions, ∀ e ∈ decisions, d.family = e.family

/-- `decisions[0].family`. -/
def PlanDetails.family (p : PlanDetails D) : ActionFamily := (p.decisions.head p.decisions_ne).family

structure Lifecycle (D : Type) where
  id : PlanId
  confirmedAt : Option D
  confirmedBy : Option String
  executionState : PlanState
  executedAt : Option D
  executionResult : Option ExecutionResult
  executionOwner : Option String
  executionStartedAt : Option D
  executionLeaseExpiresAt : Option D
  executionAttemptCount : Nat

/-- `validate_plan`. -/
def Lifecycle.Valid (l : Lifecycle D) : Prop :=
  (l.confirmedAt.isNone ↔ l.confirmedBy.isNone) ∧
    (l.executionState = .confirmed → l.confirmedAt.isSome) ∧
      (l.executionResult.all resultBounded) = true

instance (l : Lifecycle D) : Decidable l.Valid := inferInstanceAs (Decidable (_ ∧ _ ∧ _))

structure TypedActionPlan (D : Type) extends PlanDetails D, Lifecycle D where
  valid : toLifecycle.Valid

/-- `ActionPlanDraft`: the family is declared as well. -/
structure ActionPlanDraft (D : Type) extends PlanDetails D where
  declaredFamily : ActionFamily
  declared : ∀ d ∈ decisions, d.family = declaredFamily

/-! ## JSON forms -/

namespace Wires

def uuid (C : Codec D) : Wire Nat := Wire.str.via C.uuidText C.parseUuid C.parse_uuidText

def datetime (C : Codec D) : Wire D := Wire.str.via C.isoformat C.parseDatetime C.parse_isoformat

def nullableDatetime (C : Codec D) : Wire (Option D) :=
  Wire.nullable (datetime C) fun _ h => by cases h

def nullableStr : Wire (Option String) := Wire.nullable Wire.str str_ne_null

def nullableResult : Wire (Option ExecutionResult) := Wire.nullable result fun _ h => by cases h

end Wires

def OneFamily (decisions : List Decision) : Prop :=
  ∀ d ∈ decisions, ∀ e ∈ decisions, d.family = e.family

instance (decisions : List Decision) : Decidable (OneFamily decisions) :=
  inferInstanceAs (Decidable (∀ d ∈ decisions, ∀ e ∈ decisions, d.family = e.family))

/-- The checks of `_PlanDetails`. -/
def validateDetails (accountId : AccountId) (stateFingerprint : String) (policyVersion : Int)
    (decisions : List Decision) (estimatedCosts : EstimatedCosts) (risk : RiskClass) (expiresAt : D)
    (confirmationRequired : Bool) : Option (PlanDetails D) :=
  if h : isFingerprint stateFingerprint = true ∧ 1 ≤ policyVersion ∧ decisions.length ≠ 0 ∧
      OneFamily decisions then
    some
      { accountId, stateFingerprint, policyVersion, decisions, estimatedCosts, risk, expiresAt,
        confirmationRequired
        fingerprint_pattern := h.1
        policyVersion_ge := h.2.1
        decisions_ne := fun hnil => h.2.2.1 (by rw [hnil]; rfl)
        one_family := h.2.2.2 }
  else none

def validatePlan (details : PlanDetails D) (lifecycle : Lifecycle D) : Option (TypedActionPlan D) :=
  if h : lifecycle.Valid then some { details, lifecycle with valid := h } else none

theorem validateDetails_self (p : PlanDetails D) :
    validateDetails p.accountId p.stateFingerprint p.policyVersion p.decisions p.estimatedCosts
      p.risk p.expiresAt p.confirmationRequired = some p := by
  rw [validateDetails, dif_pos ⟨p.fingerprint_pattern, p.policyVersion_ge,
    fun h => p.decisions_ne (List.length_eq_zero_iff.mp h), p.one_family⟩]

theorem validatePlan_self (p : TypedActionPlan D) :
    validatePlan p.toPlanDetails p.toLifecycle = some p := by
  rw [validatePlan, dif_pos p.valid]

namespace TypedActionPlan

def toJson (C : Codec D) (p : TypedActionPlan D) : Json :=
  .obj
    [("account_id", (Wires.uuid C).write p.accountId),
      ("state_fingerprint", .str p.stateFingerprint), ("policy_version", .int p.policyVersion),
      ("proposedActions", (Wire.list Wires.decision).write p.decisions),
      ("estimatedCosts", Wires.costs.write p.estimatedCosts), ("risk", Wires.risk.write p.risk),
      ("expires_at", (Wires.datetime C).write p.expiresAt),
      ("confirmation_required", .bool p.confirmationRequired), ("id", (Wires.uuid C).write p.id),
      ("confirmed_at", (Wires.nullableDatetime C).write p.confirmedAt),
      ("confirmed_by", Wires.nullableStr.write p.confirmedBy),
      ("execution_state", Wires.planState.write p.executionState),
      ("executed_at", (Wires.nullableDatetime C).write p.executedAt),
      ("execution_result", Wires.nullableResult.write p.executionResult),
      ("execution_owner", Wires.nullableStr.write p.executionOwner),
      ("execution_started_at", (Wires.nullableDatetime C).write p.executionStartedAt),
      ("execution_lease_expires_at", (Wires.nullableDatetime C).write p.executionLeaseExpiresAt),
      ("execution_attempt_count", Wire.nat.write p.executionAttemptCount)]

def fieldNames : List (List String) :=
  [["account_id"], ["state_fingerprint"], ["policy_version"], ["proposedActions", "decisions"],
    ["estimatedCosts", "estimated_costs"], ["risk"], ["expires_at"], ["confirmation_required"],
    ["id"], ["confirmed_at"], ["confirmed_by"], ["execution_state"], ["executed_at"],
    ["execution_result"], ["execution_owner"], ["execution_started_at"],
    ["execution_lease_expires_at"], ["execution_attempt_count"]]

def readDetails (C : Codec D) (fields : List (String × Json)) : Option (PlanDetails D) := do
  let accountId ← (Wires.uuid C).field ["account_id"] fields
  let stateFingerprint ← Wire.str.field ["state_fingerprint"] fields
  let policyVersion ← Wire.int.field ["policy_version"] fields
  let decisions ← (Wire.list Wires.decision).field ["proposedActions", "decisions"] fields
  let estimatedCosts ← Wires.costs.fieldD ["estimatedCosts", "estimated_costs"] {} fields
  let risk ← Wires.risk.field ["risk"] fields
  let expiresAt ← (Wires.datetime C).field ["expires_at"] fields
  let confirmationRequired ← Wire.bool.fieldD ["confirmation_required"] true fields
  validateDetails accountId stateFingerprint policyVersion decisions estimatedCosts risk expiresAt
    confirmationRequired

def readLifecycle (C : Codec D) (freshId : PlanId) (fields : List (String × Json)) :
    Option (Lifecycle D) := do
  let id ← (Wires.uuid C).fieldD ["id"] freshId fields
  let confirmedAt ← (Wires.nullableDatetime C).fieldD ["confirmed_at"] none fields
  let confirmedBy ← Wires.nullableStr.fieldD ["confirmed_by"] none fields
  let executionState ← Wires.planState.fieldD ["execution_state"] .pending fields
  let executedAt ← (Wires.nullableDatetime C).fieldD ["executed_at"] none fields
  let executionResult ← Wires.nullableResult.fieldD ["execution_result"] none fields
  let executionOwner ← Wires.nullableStr.fieldD ["execution_owner"] none fields
  let executionStartedAt ← (Wires.nullableDatetime C).fieldD ["execution_started_at"] none fields
  let executionLeaseExpiresAt ←
    (Wires.nullableDatetime C).fieldD ["execution_lease_expires_at"] none fields
  let executionAttemptCount ← Wire.nat.fieldD ["execution_attempt_count"] 0 fields
  return {
    id := id, confirmedAt, confirmedBy, executionState, executedAt, executionResult,
    executionOwner, executionStartedAt, executionLeaseExpiresAt, executionAttemptCount }

/-- `from_json`; a plan without an id gets `freshId`. -/
def fromJson (C : Codec D) (freshId : PlanId) : Json → Option (TypedActionPlan D)
  | .obj fields =>
    if Wire.noExtra fieldNames fields then do
      let details ← readDetails C fields
      let lifecycle ← readLifecycle C freshId fields
      validatePlan details lifecycle
    else none
  | _ => none

variable {C : Codec D}

/-- The entries of `to_json`. -/
def fields (C : Codec D) (p : TypedActionPlan D) : List (String × Json) :=
  match toJson C p with
  | .obj fields => fields
  | _ => []

theorem toJson_eq (p : TypedActionPlan D) : toJson C p = .obj (fields C p) := rfl

theorem readDetails_fields (p : TypedActionPlan D) :
    readDetails C (fields C p) = some p.toPlanDetails := by
  have hcheck := validateDetails_self p.toPlanDetails
  simp [readDetails, fields, toJson, Wire.field, Wire.fieldD, Wire.field?, List.lookup_cons, List.lookup_nil, Wire.str,
    Wire.int, Wire.bool, hcheck]

theorem readLifecycle_fields (p : TypedActionPlan D) (freshId : PlanId) :
    readLifecycle C freshId (fields C p) = some p.toLifecycle := by
  simp [readLifecycle, fields, toJson, Wire.fieldD, Wire.field?, List.lookup_cons, List.lookup_nil]

theorem noExtra_fields (p : TypedActionPlan D) : Wire.noExtra fieldNames (fields C p) = true := by
  simp [Wire.noExtra, fieldNames, fields, toJson, List.lookup_cons, List.lookup_nil]

theorem fromJson_toJson (p : TypedActionPlan D) (freshId : PlanId) :
    fromJson C freshId (toJson C p) = some p := by
  rw [toJson_eq, fromJson, if_pos (noExtra_fields p), readDetails_fields, readLifecycle_fields]
  exact validatePlan_self p

end TypedActionPlan

end Plans

end PlaceGame
