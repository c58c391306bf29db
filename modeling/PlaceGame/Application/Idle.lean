import PlaceGame.Accounts.Service
import PlaceGame.Policy.Canonical
import PlaceGame.Policy.Plans

/-!
# PlaceGame.Application.Idle

The idle flow: previewing a collection as a plan and executing that plan.

An execution holds the session guard of its account, commits an `executing` claim before it asks the
game for anything, collects under the account lock, and finishes the claim in a transaction of its
own. A claim that was left behind is only reconciled, never sent again.
-/

namespace PlaceGame

open Coop

variable {T : Type} (P : Ports)

def requireIdentifier {σ : Type} (value : String) : Coro (sig T) σ Unit :=
  raiseIf (isIdentifier value = false)
    (.valueError "identifier must be an ASCII identifier up to 128 characters")

def auditActor {σ : Type} (actor : Actor) : Coro (sig T) σ (String × String) := do
  requireIdentifier actor.kind.text
  requireIdentifier actor.actorId
  raiseIf (128 < actor.value.length) (.valueError "actor identifier is too long")
  return (actor.value, actor.kind.text)

inductive Decision where
  | collect
  | wait
  deriving DecidableEq, Repr

def Decision.text : Decision → String
  | .collect => "collect"
  | .wait => "wait"

/-- What a preview persists of a plan that is worth executing. -/
structure ActionPlanDraft where
  accountId : AccountId
  stateFingerprint : String
  policyVersion : Nat
  proposedActions : List Json
  estimatedCosts : EstimatedCosts
  risk : RiskClass
  expiresAt : Time
  confirmationRequired : Bool

namespace IdlePlanner

def threshold (policy : AccountPolicy) (idle : IdleSummary) : Nat :=
  let configured := policy.idleThresholdMinutes * 60
  match idle.capacitySeconds with
  | none => configured
  | some capacity => min configured capacity

def decision (idle : IdleSummary) (policy : AccountPolicy) : Decision :=
  if threshold policy idle ≤ idle.accumulatedSeconds then .collect else .wait

def fingerprint (idle : IdleSummary) (policy : AccountPolicy) : String :=
  canonicalFingerprint P "idle"
    (.obj
      [("capacitySeconds", .ofNat? (idle.capacitySeconds.map (·.val))),
        ("eligible", .bool (decision idle policy = .collect))])

def idleCollectAction : Json := .obj [("family", .str "idle"), ("kind", .str "idle_collect")]

/-- The JSON of the one selected decision of an idle plan. -/
def selectedDecision : Json :=
  .obj
    [("family", .str "idle"), ("reason", .str "idle_threshold_reached"),
      ("state", .str "selected"), ("action", idleCollectAction)]

def draft (accountId : AccountId) (idle : IdleSummary) (policy : VersionedPolicy) (now : Time) :
    Option ActionPlanDraft :=
  if decision idle policy.toAccountPolicy ≠ .collect then none
  else
    some
      { accountId := accountId
        stateFingerprint := fingerprint P idle policy.toAccountPolicy
        policyVersion := policy.version
        proposedActions := [selectedDecision]
        estimatedCosts := { material := 0, attempts := 0, currency := 0 }
        risk := .low
        expiresAt := now + Time.minutes 5
        confirmationRequired := false }

end IdlePlanner

namespace IdlePreviewStore

def row (draft : ActionPlanDraft) : ActionPlan where
  accountId := draft.accountId
  stateFingerprint := draft.stateFingerprint
  policyVersion := draft.policyVersion
  proposedActions := draft.proposedActions
  estimatedCosts := draft.estimatedCosts
  risk := draft.risk
  expiresAt := draft.expiresAt
  confirmationRequired := draft.confirmationRequired
  executionState := .pending

def insertPlan : Option ActionPlanDraft → Tx T (Option PlanId)
  | some draft => do
    let id ← await .uuid
    modifyFrame fun f => { f with newPlan := some (id, row draft) }
    await .flush
    return some id
  | none => return none

/-- The transaction of `save`: the plan and the audit of the preview. -/
def saveRows (draft : Option ActionPlanDraft) (accountId : AccountId) (actor source : String)
    (correlationId : String) (preview : Json) : Tx T (Option PlanId) := do
  let planId ← insertPlan draft
  addAudit
    { actor := actor
      source := source
      accountId := some accountId
      planId := planId
      action := "idle.preview"
      result := some (redact (redact preview))
      correlationId := some correlationId }
  return planId

/-- `save`; `accountId` is the one that the preview document names. -/
def save (draft : Option ActionPlanDraft) (accountId : AccountId) (actor : Actor)
    (correlationId : String) (preview : Json) : Action T (Option PlanId) := do
  requireIdentifier correlationId
  let (actorValue, source) ← auditActor actor
  transaction (saveRows draft accountId actorValue source correlationId preview)

end IdlePreviewStore

structure IdlePreview where
  accountId : AccountId
  planId : Option PlanId
  decision : Decision
  accumulatedSeconds : Nat
  capacitySeconds : Option ℕ+
  thresholdSeconds : Nat
  expiresAt : Option Time
  reason : String
  correlationId : String

namespace IdlePlanUseCase

def reason : Decision → String
  | .collect => "idle_threshold_reached"
  | .wait => "idle_threshold_not_reached"

def previewDocument (accountId : AccountId) (idle : IdleSummary) (policy : AccountPolicy) : Json :=
  let decision := IdlePlanner.decision idle policy
  .obj
    [("decision", .str decision.text),
      ("accumulatedSeconds", .int idle.accumulatedSeconds),
      ("capacitySeconds", .ofNat? (idle.capacitySeconds.map (·.val))),
      ("thresholdSeconds", .int (IdlePlanner.threshold policy idle)),
      ("reason", .str (reason decision)),
      ("accountId", .str (toString accountId))]

/-- The code of `preview` under the account lock. -/
def draftLocked (accountId : AccountId) (locked : AccountService.LockedAccount) :
    Tx T (IdleSummary × AccountPolicy × Option ActionPlanDraft) := do
  let idle ← await (.idleSummary accountId locked.api)
  let now ← clock
  return (idle, locked.policy.toAccountPolicy,
    IdlePlanner.draft P accountId idle locked.policy now)

def preview (accountId : AccountId) (actor : Actor) (correlationId : String) :
    Action T IdlePreview := do
  requireIdentifier correlationId
  let (idle, policy, draft) ←
    AccountService.locked P accountId actor (draftLocked P accountId)
  let planId ← IdlePreviewStore.save draft accountId actor correlationId
    (previewDocument accountId idle policy)
  let decision := IdlePlanner.decision idle policy
  return {
    accountId := accountId
    planId := planId
    decision := decision
    accumulatedSeconds := idle.accumulatedSeconds
    capacitySeconds := idle.capacitySeconds
    thresholdSeconds := IdlePlanner.threshold policy idle
    expiresAt := draft.map (·.expiresAt)
    reason := reason decision
    correlationId := correlationId }

end IdlePlanUseCase

/-- `_Claim`; the plan keeps the attributes it had when the claim was committed. -/
structure Claim where
  owner : Nat
  planId : PlanId
  plan : ActionPlan
  recovery : Bool

namespace IdleExecutionClaims

def lease : Time := Time.minutes 2

/-- `decision.get("action") == {"family": "idle", "kind": "idle_collect"}`. -/
def isIdleCollectAction : Option Json → Bool
  | some (.obj fields) =>
    fields.length == 2 && Json.isStr "idle" (fields.lookup "family") &&
      Json.isStr "idle_collect" (fields.lookup "kind")
  | _ => false

def isIdleCollect : List Json → Bool
  | [.obj fields] =>
    Json.isStr "idle" (fields.lookup "family") && Json.isStr "selected" (fields.lookup "state") &&
      isIdleCollectAction (fields.lookup "action")
  | _ => false

/-- What `_validate_fresh` lets pass. -/
def validFresh (plan : ActionPlan) (now : Time) : Bool :=
  plan.executionState.fresh && decide (now < plan.expiresAt) && plan.risk == .low &&
    !plan.confirmationRequired && isIdleCollect plan.proposedActions

def auditClaim (actor source : String) (accountId : AccountId) (planId : PlanId)
    (correlationId : String) (text : String) : Tx T Unit :=
  addAudit
    { actor := actor
      source := source
      accountId := some accountId
      planId := some planId
      action := "idle.execute.claim"
      result := some (redact (status text))
      correlationId := some correlationId }

/-- The transaction of `claim`. -/
def claimRow (accountId : AccountId) (planId : PlanId) (owner : Nat) (now : Time)
    (actor source : String) (correlationId : String) (recovery : Bool) : Tx T Claim := do
  let plan ← PlanStore.loadForUpdate planId (some accountId)
  if plan.executionState = .executing then
    raiseIf (plan.executionLeaseExpiresAt.any (fun lease => now < lease) = true) .planInProgress
    raiseIf (recovery = false) .planInProgress
    let u : PlanUpdate := .recovered owner now (now + lease)
    PlanStore.update planId u
    auditClaim actor source accountId planId correlationId "recovery"
    return ⟨owner, planId, u.apply plan, true⟩
  else
    raiseIf (validFresh plan now = false) .planPreconditionFailed
    let u : PlanUpdate := .claimed owner now (now + lease) (plan.executionAttemptCount + 1)
    PlanStore.update planId u
    auditClaim actor source accountId planId correlationId "claimed"
    return ⟨owner, planId, u.apply plan, false⟩

def claim (accountId : AccountId) (planId : PlanId) (actor : Actor) (correlationId : String)
    (recovery : Bool) : Action T Claim := do
  requireIdentifier correlationId
  let owner ← await .uuid
  let now ← clock
  let (actorValue, source) ← auditActor actor
  transaction (claimRow accountId planId owner now actorValue source correlationId recovery)

def owned {σ : Type} (accountId : AccountId) (planId : PlanId) (owner : Nat) :
    Coro (sig T) σ Bool := do
  match ← await (.selectPlan planId) with
  | none => return false
  | some plan =>
    return plan.accountId == accountId && plan.executionState == .executing &&
      plan.executionOwner == some owner

/-- The transaction of `finish`. -/
def finishRow (claim : Claim) (state : PlanState) (actor source : String) (correlationId : String)
    (result : Json) : Tx T Unit := do
  let plan ← PlanStore.loadForUpdate claim.planId none
  raiseIf (plan.executionState ≠ .executing ∨ plan.executionOwner ≠ some claim.owner)
    .planPreconditionFailed
  let now ← clock
  PlanStore.update claim.planId (.claimFinished claim.owner state (redact result) now)
  addAudit
    { actor := actor
      source := source
      accountId := some plan.accountId
      planId := some claim.planId
      action := "idle.execute.finish"
      result := some (redact (redact result))
      correlationId := some correlationId }

def finish (claim : Claim) (state : PlanState) (actor : Actor) (correlationId : String)
    (result : Json) : Action T Unit := do
  let (actorValue, source) ← auditActor actor
  transaction (finishRow claim state actorValue source correlationId result)

end IdleExecutionClaims

inductive ExecutionStatus where
  | executed
  | reconciled
  deriving DecidableEq, Repr

structure IdleExecution where
  accountId : AccountId
  planId : PlanId
  status : ExecutionStatus
  applied : Bool
  reconciled : Bool
  collected : Bool
  correlationId : String

namespace IdleExecuteUseCase

/-- The outcome that `_send_once` computes under the account lock. -/
inductive Outcome where
  | preconditionFailed
  | executed
  | reconciled
  | reconciliationRequired
  deriving DecidableEq, Repr

/-- The summary read after a collection that raised. -/
def outcomeAfterError (accountId : AccountId) (claim : Claim)
    (locked : AccountService.LockedAccount) : Tx T Outcome := do
  match ← attempt (await (.idleSummary accountId locked.api)) with
  | .error .cancelled => raise .cancelled
  | .error _ => return .reconciliationRequired
  | .ok current =>
    if locked.policy.version = claim.plan.policyVersion ∧
        IdlePlanner.decision current locked.policy.toAccountPolicy = .wait then
      return .reconciled
    else return .reconciliationRequired

def collect (accountId : AccountId) (claim : Claim) (locked : AccountService.LockedAccount)
    (before : IdleSummary) : Tx T Outcome := do
  match ← attempt (do
      let response ← await (.idleCollect accountId claim.planId locked.api)
      let after ← await (.idleSummary accountId locked.api)
      pure (response, after)) with
  | .error .cancelled => raise .cancelled
  | .error _ => outcomeAfterError accountId claim locked
  | .ok (collected, after) =>
    if collected = false ∨ before.accumulatedSeconds ≤ after.accumulatedSeconds then
      return .reconciliationRequired
    else return .executed

/-- The code of `_send_once` under the account lock. -/
def sendLocked (accountId : AccountId) (claim : Claim) (locked : AccountService.LockedAccount) :
    Tx T Outcome := do
  let before ← await (.idleSummary accountId locked.api)
  let owned ← IdleExecutionClaims.owned accountId claim.planId claim.owner
  if owned = false ∨ locked.policy.version ≠ claim.plan.policyVersion ∨
      IdlePlanner.fingerprint P before locked.policy.toAccountPolicy ≠
        claim.plan.stateFingerprint then
    return .preconditionFailed
  else collect accountId claim locked before

def executedResult (reconciled : Bool) : Json :=
  .obj [("status", .str "executed"), ("reconciled", .bool reconciled), ("collected", .bool true)]

def requireReconciliation (claim : Claim) (actor : Actor) (correlationId : String) :
    Action T IdleExecution := do
  IdleExecutionClaims.finish claim .reconciliationRequired actor correlationId
    (status "reconciliation_required")
  raise .idleReconciliationRequired

/-- The part of `_send_once` after the account lock. -/
def settle (accountId : AccountId) (claim : Claim) (actor : Actor) (correlationId : String) :
    Outcome → Action T IdleExecution
  | .preconditionFailed => do
    IdleExecutionClaims.finish claim .failed actor correlationId (status "precondition_failed")
    raise .planPreconditionFailed
  | .reconciliationRequired => requireReconciliation claim actor correlationId
  | .reconciled => do
    IdleExecutionClaims.finish claim .executed actor correlationId (executedResult true)
    return ⟨accountId, claim.planId, .reconciled, true, true, true, correlationId⟩
  | .executed => do
    IdleExecutionClaims.finish claim .executed actor correlationId (executedResult false)
    return ⟨accountId, claim.planId, .executed, true, false, true, correlationId⟩

def sendOnce (accountId : AccountId) (claim : Claim) (actor : Actor) (correlationId : String) :
    Action T IdleExecution := do
  let outcome ← AccountService.locked P accountId actor (sendLocked P accountId claim)
  settle accountId claim actor correlationId outcome

/-- The code of `_recover` under the account lock. -/
def proven (accountId : AccountId) (claim : Claim) (locked : AccountService.LockedAccount) :
    Tx T Bool := do
  let current ← await (.idleSummary accountId locked.api)
  return locked.policy.version = claim.plan.policyVersion ∧
    IdlePlanner.decision current locked.policy.toAccountPolicy = .wait

def recover (accountId : AccountId) (claim : Claim) (actor : Actor) (correlationId : String) :
    Action T IdleExecution := do
  if ← AccountService.locked P accountId actor (proven accountId claim) then
    IdleExecutionClaims.finish claim .executed actor correlationId (executedResult true)
    return ⟨accountId, claim.planId, .reconciled, false, true, true, correlationId⟩
  else requireReconciliation claim actor correlationId

/-- What `execute` does under the guard. -/
def executeGuarded (accountId : AccountId) (planId : PlanId) (actor : Actor)
    (correlationId : String) (recovery : Bool) : Action T IdleExecution := do
  let claim ← IdleExecutionClaims.claim accountId planId actor correlationId recovery
  if claim.recovery then recover P accountId claim actor correlationId
  else sendOnce P accountId claim actor correlationId

def execute (accountId : AccountId) (planId : PlanId) (actor : Actor) (correlationId : String)
    (recovery : Bool) : Action T IdleExecution := do
  requireIdentifier correlationId
  raiseIf ((← await (.tryExecutionGuard accountId)) = false) .planInProgress
  Coro.andFinally (executeGuarded P accountId planId actor correlationId recovery)
    (await (.executionUnlock accountId))

end IdleExecuteUseCase

end PlaceGame
