import PlaceGame.Accounts.Record

/-!
# PlaceGame.Policy.Plans

`PostgresPlanStore`: the operations run in the session of their caller. A plan object that the
session already holds keeps its attributes when the row is selected again, also `FOR UPDATE`: the
check is then made on what the session loaded earlier.
-/

namespace PlaceGame

open Coop

variable {T : Type}

namespace PlanStore

/-- The attributes that the session sees after selecting the row for update. -/
def loadForUpdate (planId : PlanId) (accountId : Option AccountId) : Tx T ActionPlan := do
  match ← await (.planForUpdate planId accountId) with
  | none => raise .planPreconditionFailed
  | some row =>
    let f ← frame
    let plan := f.plan.getD row
    modifyFrame fun f => { f with plan := some plan }
    return plan

def update (planId : PlanId) (u : PlanUpdate) : Tx T Unit :=
  modifyFrame fun f => { f with plan := f.plan.map u.apply, plans := f.plans ++ [(planId, u)] }

/-- `confirmed_by`: characters outside the identifier alphabet become underscores. -/
def confirmedBy (actor : Actor) : String :=
  let actorId := actor.actorId.toList.map fun c => if isIdentifierChar c then c else '_'
  String.ofList ((actor.kind.text.toList ++ ':' :: actorId).take 128)

/-- `create`: `row` is the validated draft in state `pending`. -/
def create (row : ActionPlan) : Tx T PlanId := do
  let id ← await .uuid
  modifyFrame fun f =>
    { f with
      newPlan := some (id,
        { row with
          executionState := .pending
          confirmedAt := none
          confirmedBy := none
          executedAt := none
          executionResult := none
          executionOwner := none
          executionStartedAt := none
          executionLeaseExpiresAt := none
          executionAttemptCount := 0 }) }
  await .flush
  return id

def confirm (planId : PlanId) (accountId : AccountId) (actor : Actor) : Tx T ActionPlan := do
  let row ← loadForUpdate planId (some accountId)
  raiseIf (row.executionState ≠ .pending) .planPreconditionFailed
  let now ← clock
  raiseIf (row.expiresAt ≤ now) .planPreconditionFailed
  let at_ ← clock
  update planId (.confirmed at_ (confirmedBy actor))
  await .flush
  return (PlanUpdate.confirmed at_ (confirmedBy actor)).apply row

def markExecuting (planId : PlanId) (expectedState : PlanState) : Tx T Unit := do
  raiseIf (expectedState.fresh = false) .planPreconditionFailed
  let row ← loadForUpdate planId none
  raiseIf (row.executionState ≠ expectedState) .planPreconditionFailed
  let now ← clock
  raiseIf (row.expiresAt ≤ now ∨ (expectedState = .pending ∧ row.confirmationRequired = true))
    .planPreconditionFailed
  update planId .markedExecuting
  await .flush

/-- The entry of a result that `finish` keeps: strings are cut, other scalars copied. -/
def safeEntry : String × Json → Option (String × Json)
  | (key, .str s) => some (String.ofList (key.toList.take 64), .str (String.ofList (s.toList.take 256)))
  | (key, .bool b) => some (String.ofList (key.toList.take 64), .bool b)
  | (key, .int i) => some (String.ofList (key.toList.take 64), .int i)
  | _ => none

/-- `safe[key] = value`, in the order of insertion. -/
def insertEntry (safe : List (String × Json)) (e : String × Json) : List (String × Json) :=
  if safe.any (·.1 == e.1) then safe.map fun old => if old.1 == e.1 then e else old
  else safe ++ [e]

def safeResult (result : List (String × Json)) : Json :=
  .obj (result.foldl (fun safe e =>
    match safeEntry e with
    | some e' => if safe.length < 16 then insertEntry safe e' else safe
    | none => safe) [])

def finish (planId : PlanId) (status : PlanState) (result : List (String × Json)) : Tx T Unit := do
  raiseIf (status.terminal = false) .planPreconditionFailed
  let row ← loadForUpdate planId none
  raiseIf (row.executionState.terminal = true) .planPreconditionFailed
  let now ← clock
  update planId (.finished status (safeResult result) now)
  await .flush

end PlanStore

end PlaceGame
