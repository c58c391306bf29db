import PlaceGame.Contracts
import PlaceGame.Policy.Documents

/-!
# PlaceGame.Models

The rows of `models.py` that the account, plan and idle flows read and write. A secret column is
kept as the text that its setter sealed: sealing and opening are inverse for the row and column they
belong to, and nothing else reads the frames.
-/

namespace PlaceGame

inductive AuthMode where
  | credentials
  | tokenOnly
  deriving DecidableEq, Repr

structure GameAccount where
  gameAccountId : Option String := none
  label : String := ""
  gameUsername : Option String := none
  authMode : AuthMode := .credentials
  password : Option String := none
  sessionToken : Option String := none
  sessionExpiresAt : Option Time := none
  enabled : Bool := true
  pausedReason : Option String := none
  policyVersion : Nat := 1
  lastSuccessAt : Option Time := none
  lastErrorAt : Option Time := none
  authFailureCount : Nat := 0
  authFailureWindowStartedAt : Option Time := none
  deriving DecidableEq, Repr

/-- A row of `account_policies` with its JSON document. -/
structure PolicyRow where
  policy : Json
  policyVersion : Nat

inductive PlanState where
  | pending
  | confirmed
  | executing
  | executed
  | failed
  | reconciliationRequired
  deriving DecidableEq, Repr

namespace PlanState

/-- `execution_state in {"pending", "confirmed"}`. -/
def fresh : PlanState → Bool
  | .pending | .confirmed => true
  | _ => false

/-- `execution_state in {"executed", "failed", "reconciliation_required"}`. -/
def terminal : PlanState → Bool
  | .executed | .failed | .reconciliationRequired => true
  | _ => false

end PlanState

inductive RiskClass where
  | low
  | medium
  | high
  deriving DecidableEq, Repr

structure EstimatedCosts where
  material : Nat := 0
  attempts : Nat := 0
  currency : Nat := 0
  deriving DecidableEq, Repr

structure ActionPlan where
  accountId : AccountId
  stateFingerprint : String
  policyVersion : Nat
  proposedActions : List Json
  estimatedCosts : EstimatedCosts := {}
  risk : RiskClass
  expiresAt : Time
  confirmationRequired : Bool := true
  confirmedAt : Option Time := none
  confirmedBy : Option String := none
  executionState : PlanState := .pending
  executedAt : Option Time := none
  executionResult : Option Json := none
  executionOwner : Option Nat := none
  executionStartedAt : Option Time := none
  executionLeaseExpiresAt : Option Time := none
  executionAttemptCount : Nat := 0

/-- The columns that a plan gets when it is inserted, and that no writer sets again. -/
structure PlanCreation where
  accountId : AccountId
  stateFingerprint : String
  policyVersion : Nat
  proposedActions : List Json
  estimatedCosts : EstimatedCosts
  risk : RiskClass
  expiresAt : Time
  confirmationRequired : Bool

def ActionPlan.creation (plan : ActionPlan) : PlanCreation where
  accountId := plan.accountId
  stateFingerprint := plan.stateFingerprint
  policyVersion := plan.policyVersion
  proposedActions := plan.proposedActions
  estimatedCosts := plan.estimatedCosts
  risk := plan.risk
  expiresAt := plan.expiresAt
  confirmationRequired := plan.confirmationRequired

structure Job where
  accountId : AccountId
  kind : String
  schedule : String
  timezone : String
  enabled : Bool := true
  nextRunAt : Option Time := none
  misfirePolicy : String
  createdAt : Time

structure AccountSnapshotRow where
  accountId : AccountId
  sanitizedState : Json
  stateFingerprint : String
  fetchedAt : Time
  expiresAt : Time

structure AuditEvent where
  actor : String
  source : String
  accountId : Option AccountId := none
  planId : Option PlanId := none
  action : String
  result : Option Json := none
  before : Option Json := none
  after : Option Json := none
  correlationId : Option String := none

/-- The columns that one writer of a plan sets in its UPDATE. Each is named after that writer. -/
inductive PlanUpdate where
  /-- `IdleExecutionClaims.claim` on an abandoned claim. -/
  | recovered (owner : Nat) (startedAt leaseExpiresAt : Time)
  /-- `IdleExecutionClaims.claim` on a fresh plan. -/
  | claimed (owner : Nat) (startedAt leaseExpiresAt : Time) (attemptCount : Nat)
  /-- `IdleExecutionClaims.finish`, presented with the owner of a claim. -/
  | claimFinished (owner : Nat) (state : PlanState) (result : Json) (at_ : Time)
  /-- `PostgresPlanStore.confirm`. -/
  | confirmed (at_ : Time) (by_ : String)
  /-- `PostgresPlanStore.mark_executing`. -/
  | markedExecuting
  /-- `PostgresPlanStore.finish`. -/
  | finished (state : PlanState) (result : Json) (at_ : Time)

namespace PlanUpdate

def apply : PlanUpdate → ActionPlan → ActionPlan
  | .recovered owner startedAt leaseExpiresAt, plan =>
    { plan with
      executionOwner := some owner
      executionStartedAt := some startedAt
      executionLeaseExpiresAt := some leaseExpiresAt }
  | .claimed owner startedAt leaseExpiresAt attemptCount, plan =>
    { plan with
      executionState := .executing
      executionOwner := some owner
      executionStartedAt := some startedAt
      executionLeaseExpiresAt := some leaseExpiresAt
      executionAttemptCount := attemptCount }
  | .claimFinished _ state result at_, plan =>
    { plan with executionState := state, executionResult := some result, executedAt := some at_ }
  | .confirmed at_ by_, plan =>
    { plan with executionState := .confirmed, confirmedAt := some at_, confirmedBy := some by_ }
  | .markedExecuting, plan => { plan with executionState := .executing }
  | .finished state result at_, plan =>
    { plan with executionState := state, executionResult := some result, executedAt := some at_ }

/-- No writer touches what a plan was created with. -/
theorem apply_creation (u : PlanUpdate) (plan : ActionPlan) :
    (u.apply plan).creation = plan.creation := by
  cases u <;> rfl

end PlanUpdate

end PlaceGame
