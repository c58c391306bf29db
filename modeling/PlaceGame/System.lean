import PlaceGame.Accounts.Mutate
import PlaceGame.Application.Idle
import PlaceGame.Application.Status
import PlaceGame.Policy.Store

/-!
# PlaceGame.System

The whole program as a system of calls: every entry point of the account service, the policy
service, the plan store, the idle use cases and the status query may be called any number of times,
with any arguments, by any number of processes, and interleaves with the others at every await.

The plan store works in a session of its caller; here each of its operations has a transaction to
itself.
-/

namespace PlaceGame

open Coop

inductive Call where
  | addCredentials (label username password : String) (actor : Actor)
  | addTokenOnly (label sessionToken : String) (actor : Actor)
  | updateLabel (accountId : AccountId) (label : String) (actor : Actor)
  | updateCredentials (accountId : AccountId) (username : Option String) (password : String)
      (actor : Actor)
  | updateTokenOnly (accountId : AccountId) (sessionToken : String) (actor : Actor)
  | enable (accountId : AccountId) (actor : Actor)
  | disable (accountId : AccountId) (actor : Actor)
  | pause (accountId : AccountId) (reason : String) (actor : Actor)
  | resume (accountId : AccountId) (actor : Actor)
  | disableDrainRemove (accountId : AccountId) (actor : Actor)
  | ensureSession (accountId : AccountId) (actor : Actor)
  | locked (accountId : AccountId) (actor : Actor)
  | snapshot (accountId : AccountId) (actor : Actor)
  | mutate (args : MutateArgs)
  | savePolicy (accountId : AccountId) (policy : AccountPolicy) (expectedVersion : Int)
      (actor : Actor)
  | accountStatus (accountId : AccountId) (actor : Actor)
  | preview (accountId : AccountId) (actor : Actor) (correlationId : String)
  | execute (accountId : AccountId) (planId : PlanId) (actor : Actor) (correlationId : String)
      (recovery : Bool)
  | createPlan (row : ActionPlan)
  | confirmPlan (planId : PlanId) (accountId : AccountId) (actor : Actor)
  | markExecuting (planId : PlanId) (expectedState : PlanState)
  | finishPlan (planId : PlanId) (status : PlanState) (result : List (String × Json))

/-- What a call returns. -/
inductive Returned (T : Type) where
  | unit
  | account (account : ManagedAccount)
  | receipt (receipt : AccountService.RemovalReceipt)
  | session (state : SessionState)
  | snapshot (snapshot : AccountSnapshot)
  | mutation (outcome : MutationOutcome T)
  | policy (policy : VersionedPolicy)
  | status (status : AccountStatus)
  | preview (preview : IdlePreview)
  | execution (execution : IdleExecution)
  | planId (planId : PlanId)
  | plan (plan : ActionPlan)

variable {T : Type} (P : Ports)

def returning {α : Type} (wrap : α → Returned T) (c : Action T α) : Action T (Returned T) := do
  let a ← c
  return wrap a

namespace Call

def run : Call → Action T (Returned T)
  | .addCredentials label username password actor =>
    returning .account (AccountService.addCredentials P label username password actor)
  | .addTokenOnly label sessionToken actor =>
    returning .account (AccountService.addTokenOnly P label sessionToken actor)
  | .updateLabel a label actor => returning .account (AccountService.updateLabel a label actor)
  | .updateCredentials a username password actor =>
    returning .account (AccountService.updateCredentials P a username password actor)
  | .updateTokenOnly a sessionToken actor =>
    returning .account (AccountService.updateTokenOnly P a sessionToken actor)
  | .enable a actor => returning (fun _ => .unit) (AccountService.enable a actor)
  | .disable a actor => returning (fun _ => .unit) (AccountService.disable a actor)
  | .pause a reason actor => returning (fun _ => .unit) (AccountService.pause a reason actor)
  | .resume a actor => returning (fun _ => .unit) (AccountService.resume a actor)
  | .disableDrainRemove a actor => returning .receipt (AccountService.disableDrainRemove a actor)
  | .ensureSession a actor => returning .session (AccountService.ensureSession P a actor)
  | .locked a actor => returning (fun _ => .unit) (AccountService.lockedContext P a actor)
  | .snapshot a actor => returning .snapshot (AccountService.snapshot P a actor)
  | .mutate args => returning .mutation (AccountService.mutate P args)
  | .savePolicy a policy expectedVersion actor =>
    returning .policy (PolicyService.save a policy expectedVersion actor)
  | .accountStatus a actor => returning .status (AccountStatusQuery.get P a actor)
  | .preview a actor correlationId =>
    returning .preview (IdlePlanUseCase.preview P a actor correlationId)
  | .execute a planId actor correlationId recovery =>
    returning .execution (IdleExecuteUseCase.execute P a planId actor correlationId recovery)
  | .createPlan row => returning .planId (transaction (PlanStore.create row))
  | .confirmPlan planId a actor =>
    returning .plan (transaction (PlanStore.confirm planId a actor))
  | .markExecuting planId expectedState =>
    returning (fun _ => .unit) (transaction (PlanStore.markExecuting planId expectedState))
  | .finishPlan planId status result =>
    returning (fun _ => .unit) (transaction (PlanStore.finish planId status result))

end Call

abbrev machine (T : Type) (P : Ports) : Machine (sig T) World where
  Call := Call
  Res := Except Exc (Returned T)
  prog call := Coro.toProc () (call.run P)
  perform t w o r w' := World.Perform t w o r w'
  crash := World.crash
  env := World.Env

end PlaceGame
