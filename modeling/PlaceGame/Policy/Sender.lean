import PlaceGame.Accounts.Peaceful
import PlaceGame.Accounts.PreSend

/-!
# PlaceGame.Policy.Sender

The monitor of the requests that are sent on behalf of a plan.

`Sender` remembers what a call has looked at before it sends: `mutate` the plan that it read in the
attempt, `execute` the row if it has just looked at it. `Sender.ok` says that nothing is sent for a plan
that was not open then, that an operation is repeated after a conflict only, and that a `mutate` whose
operation ended in anything else commits a terminal state of its plan.
-/

namespace PlaceGame

open Coop

structure Sender where
  seen : Local := {}
  looked : Option (PlanId × ActionPlan) := none
  tries : Nat := 0
  /-- It ended in something else than a conflict. -/
  posted : Bool := false
  /-- The state of the plan that the commit after it has recorded. -/
  settled : Option PlanState := none

def Call.Executes (p : PlanId) : Call → Prop
  | .execute _ q _ _ _ => q = p
  | _ => False

namespace Sender

variable {T : Type}

/-- The operation has ended: a conflict leaves the way open for the next attempt. -/
def conflict : Except Exc T → Bool
  | .error e => e.isGameConflict
  | .ok _ => false

/-- The state that `PostgresPlanStore.finish` records. -/
def finalOf : List (PlanId × PlanUpdate) → Option PlanState
  | [(_, .finished state _ _)] => some state
  | _ => none

def note (m : Sender) : (o : Op T) → Except Exc o.Val → Sender
  | .operation _ _ _, r => { m with tries := m.tries + 1, posted := !conflict r }
  | .commit ws, .ok _ => { m with settled := if m.posted then finalOf ws.plans else m.settled }
  | _, _ => m

def found : (o : Op T) → Except Exc o.Val → Option (PlanId × ActionPlan)
  | .selectPlan p, .ok (some plan) => some (p, plan)
  | _, _ => none

def next (m : Sender) (o : Op T) (r : Except Exc o.Val) : Sender :=
  { m.note o r with seen := m.seen.next o r, looked := found o r }

/-- In the open attempt the call has read this plan of the account that it holds. -/
structure Read (m : Sender) (a : AccountId) (p : PlanId) (plan : ActionPlan) : Prop where
  read : m.seen.plan = some (p, plan)
  account : plan.accountId = a
  row : ∃ r, m.seen.row = some (a, r)

/-- The operation of a `mutate` may be invoked. -/
structure MayOperate (m : Sender) (a : AccountId) (q : Option PlanId) (args : MutateArgs) :
    Prop where
  account : args.accountId = a
  planId : args.planId = q
  tries : m.tries < 3
  unposted : m.posted = false
  unsettled : m.settled = none
  fresh : ∀ p, q = some p → ∃ plan, m.Read a p plan ∧ plan.executionState.fresh = true

/-- The plan part of what a `mutate` commits: nothing, or one terminal state of the plan, which it has
read as open; not nothing once the operation has ended in something else than a conflict. -/
structure Settles (m : Sender) (args : MutateArgs) (p : PlanId) (ws : Writes) : Prop where
  plans : ws.plans = [] ∨ ∃ state result at_, ws.plans = [(p, .finished state result at_)] ∧
    state.terminal = true ∧ ∃ plan, m.Read args.accountId p plan ∧
      plan.executionState.terminal = false
  posted : m.posted = true → ws.plans ≠ []

def ok (call : Call) (m : Sender) : Op T → Prop
  | .operation a q _ => ∃ args, call = .mutate args ∧ m.MayOperate a q args
  | .idleCollect a p _ => call.Executes p ∧
    ∃ plan, m.looked = some (p, plan) ∧ plan.accountId = a ∧ plan.executionState = .executing
  | .accountForUpdate _ | .getPlan _ => m.posted = false
  | .commit ws => ∀ args p, call = .mutate args → args.planId = some p → m.Settles args p ws
  | _ => True

/-- How a planned `mutate` ends and what it has recorded about its plan. -/
def Post (m : Sender) (r : Except Exc (Returned T)) : Call → Prop
  | .mutate args => args.planId.isSome = true →
    (∀ x, r = .ok x → m.settled = some .executed) ∧
      ∀ e, r = .error e → m.settled ≠ some .executed ∧
        (e = .reconciliationRequired ∨ e = .cancelled → m.settled ≠ some .failed)
  | _ => True

end Sender

def sender (T : Type) (call : Call) : Monitor (sig T) Sender where
  init := {}
  next := Sender.next
  ok := Sender.ok call
  ans _ o r := o.stored = true → ∀ e, r = .error e → e = .cancelled

end PlaceGame
