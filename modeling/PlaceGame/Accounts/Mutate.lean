import PlaceGame.Accounts.Service
import PlaceGame.Policy.Plans

/-!
# PlaceGame.Accounts.Mutate

`AccountService.mutate`: one transaction around at most three attempts. An attempt checks the
account, its session, the policy and the plan, then runs the operation and accounts for its outcome.
`prepare` is the part before the send, `send` the part from `send_started = True` on.
-/

namespace PlaceGame

open Coop

variable {T : Type} (P : Ports)

structure MutationOutcome (T : Type) where
  applied : Bool
  reconciled : Bool
  result : Option T

/-- The arguments of one call. The resolver and the verifier may be left out; what they answer is up
to the effects `stateFingerprint` and `verify`. -/
structure MutateArgs where
  accountId : AccountId
  actor : Actor
  planId : Option PlanId := none
  hasFingerprint : Bool := false
  hasVerify : Bool := false

namespace Mutate

/-- How the loop was left by `break`. -/
inductive LoopEnd (T : Type) where
  | cancelled
  | outcome (o : MutationOutcome T)
  | exhausted

variable (args : MutateArgs)

def auditMutate (accountId : Option AccountId) (planId : Option PlanId) (result : Json) :
    Tx T Unit :=
  audit args.actor accountId "account.mutate" result none none planId

def finishValidated (status : PlanState) (result : List (String × Json)) : Tx T Unit := do
  let f ← frame
  match f.validatedPlanId with
  | some planId => PlanStore.finish planId status result
  | none => return ()

/-- `_check_plan` for a plan that was loaded and belongs to the account. -/
def checkPlan (plan : ActionPlan) (policyVersion : Nat) : Tx T Unit := do
  let now ← clock
  raiseIf
    (plan.expiresAt ≤ now ∨ plan.executionState.fresh = false ∨
      (plan.confirmationRequired = true ∧ plan.confirmedAt = none) ∨
      plan.policyVersion ≠ policyVersion)
    .planPreconditionFailed

def validFingerprint (plan : ActionPlan) : Option String → Bool
  | none => false
  | some fingerprint =>
    decide (1 ≤ fingerprint.length) && decide (fingerprint.length ≤ 128) &&
      fingerprint == plan.stateFingerprint

def preparePlan (planId : PlanId) (policy : VersionedPolicy) (api : GameApi) : Tx T Unit := do
  match ← await (.getPlan planId) with
  | none => raise .planPreconditionFailed
  | some candidate =>
    modifyFrame fun f => { f with plan := some candidate }
    raiseIf (candidate.accountId ≠ args.accountId) .planPreconditionFailed
    modifyFrame fun f => { f with validatedPlanId := some planId }
    checkPlan candidate policy.version
    raiseIf (args.hasFingerprint = false) .planPreconditionFailed
    let resolved ← await (.stateFingerprint planId api)
    raiseIf (validFingerprint candidate resolved = false) .planPreconditionFailed

def prepare : Tx T GameApi := do
  modifyFrame fun f => { f with sendStarted := false, validatedPlanId := none, plan := none }
  requireForUpdate args.accountId
  modifyFrame fun f => { f with validatedAccountId := some args.accountId }
  let r ← record
  requireMutable r
  let resolution ← ensureLocked P args.accountId args.actor
  match resolution.api with
  | none => raise .authenticationRequired
  | some (api, _) =>
    let _ ← saveSnapshot P args.accountId resolution true
    let policy ← await (.policyGet args.accountId)
    match args.planId with
    | none => return api
    | some planId =>
      preparePlan args planId policy api
      return api

/-- The handlers of `asyncio.CancelledError` after the send. -/
def cancelledAfterSend : Tx T (LoopEnd T) := do
  finishValidated .reconciliationRequired [("status", .str "cancelled")]
  let f ← frame
  auditMutate args f.validatedAccountId f.validatedPlanId
    (.obj [("status", .str "cancelled"), ("outcome", .str "ambiguous")])
  return .cancelled

def succeed (reconciled : Bool) (value : Option T) : Tx T (LoopEnd T) := do
  let now ← clock
  modifyRecord (·.succeed now)
  finishValidated .executed [("status", .str "succeeded"), ("reconciled", .bool reconciled)]
  let f ← frame
  auditMutate args (some args.accountId) f.validatedPlanId
    (.obj [("status", .str "succeeded"), ("reconciled", .bool reconciled)])
  return .outcome ⟨true, reconciled, value⟩

/-- The handler of `AmbiguousMutation`. -/
def reconcileAmbiguous (api : GameApi) : Tx T (LoopEnd T) := do
  raiseIf (args.hasVerify = false) .reconciliationRequired
  match ← attempt (do
      let _ ← await (.bootstrap api)
      await (.verify api none)) with
  | .error .cancelled => cancelledAfterSend args
  | .error (.gameSchemaMismatch operation) => raise (.gameSchemaMismatch operation)
  | .error _ => raise .reconciliationRequired
  | .ok verified =>
    raiseIf (verified = false) .reconciliationRequired
    succeed args true none

def verifySent (api : GameApi) (value : T) : Tx T (LoopEnd T) := do
  match ← attempt (await (.verify api (some value))) with
  | .error .cancelled => cancelledAfterSend args
  | .error (.gameSchemaMismatch operation) => raise (.gameSchemaMismatch operation)
  | .error _ => raise .reconciliationRequired
  | .ok verified =>
    raiseIf (verified = false) .reconciliationRequired
    succeed args false (some value)

/-- What follows an operation that returned. -/
def confirmSent (api : GameApi) (value : T) : Tx T (LoopEnd T) := do
  match ← attempt (await (.bootstrap api)) with
  | .error .cancelled => cancelledAfterSend args
  | .error (.gameSchemaMismatch operation) => raise (.gameSchemaMismatch operation)
  | .error e => if e.isGameError then raise .reconciliationRequired else raise e
  | .ok _ =>
    if args.hasVerify then verifySent args api value
    else succeed args false (some value)

/-- The send and its handlers; `none` asks for the next attempt, of which `left` remain. -/
def send (left : Nat) (api : GameApi) : Tx T (Option (LoopEnd T)) := do
  modifyFrame fun f => { f with sendStarted := true }
  match ← attempt (await (.operation args.accountId args.planId api)) with
  | .error .cancelled =>
    let e ← cancelledAfterSend args
    return some e
  | .error (.gameConflict code) =>
    raiseIf (left = 0) (.gameConflict code)
    let _ ← await (.bootstrap api)
    await .sleep
    return none
  | .error (.ambiguousMutation _) =>
    let e ← reconcileAmbiguous args api
    return some e
  | .error .sessionRejected =>
    finishValidated .failed [("status", .str "rejected")]
    raise .authenticationRequired
  | .error e => raise e
  | .ok value =>
    let e ← confirmSent args api value
    return some e

/-- `for attempt in range(3)`. -/
def attempts : Nat → Tx T (LoopEnd T)
  | 0 => return .exhausted
  | left + 1 => do
    let api ← prepare P args
    match ← send args left api with
    | some e => return e
    | none => attempts left

/-- The terminal state that the handler gives to the validated plan, if any. -/
def terminalFor (exc : Exc) (sendStarted : Bool) : Option PlanState :=
  if exc = .planPreconditionFailed ∨ exc.isGameConflict = true then some .failed
  else if sendStarted then some .reconciliationRequired
  else none

def pendingFor (exc : Exc) : Exc :=
  if exc.isAccountError || exc.isGameError then exc else .reconciliationRequired

/-- What the handler of `Exception` does with the plan. -/
def terminalise (exc pending : Exc) : Tx T Unit := do
  let f ← frame
  match f.validatedPlanId, terminalFor exc f.sendStarted with
  | some planId, some terminal =>
    if f.plan.all (fun candidate => !candidate.executionState.terminal) then
      PlanStore.finish planId terminal
        (if terminal = .failed then
          [("status", .str "failed"), ("error", .str pending.typeName)]
        else [("status", .str "ambiguous")])
    else return ()
  | _, _ => return ()

/-- The handler of `Exception` around the loop. -/
def handle (exc : Exc) : Tx T Exc := do
  let pending := pendingFor exc
  terminalise exc pending
  let f ← frame
  auditMutate args f.validatedAccountId f.validatedPlanId
    (.obj [("status", .str "failed"), ("error", .str pending.typeName)])
  return pending

/-- The body of the transaction: how the loop ended, or the pending error. -/
def body : Tx T (Except Exc (LoopEnd T)) := do
  await (.accountLock args.accountId)
  match ← attempt (attempts P args 3) with
  | .ok e => return .ok e
  | .error exc =>
    if exc.isException then
      let pending ← handle args exc
      return .error pending
    else raise exc

end Mutate

open Mutate in
/-- `AccountService.mutate`. -/
def AccountService.mutate (args : MutateArgs) : Action T (MutationOutcome T) := do
  match ← transaction (body P args) with
  | .ok .cancelled => raise .cancelled
  | .error pending => raise pending
  | .ok (.outcome o) => return o
  | .ok .exhausted => raise .assertionError

end PlaceGame
