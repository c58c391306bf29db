import PlaceGame.Accounts.Quiet
import PlaceGame.Accounts.Watch

/-!
# PlaceGame.Policy.Ledger

The monitor of plans.

`Ledger` is what a call has learnt about plans from its own awaits: the plan row it has locked, the
claim it has committed under the execution guard, and the idle summaries it has read since.
`Ledger.ok` says which writes to a plan these readings entitle it to, and when it may ask for a
collection.
-/

namespace PlaceGame

open Coop

/-- A committed claim: the row as the claim left it. -/
structure Claimed where
  planId : PlanId
  owner : Nat
  plan : ActionPlan
  recovery : Bool

/-- What a call holds beyond its transactions. -/
structure Tenure where
  drawn : Option Nat := none
  guard : Option AccountId := none
  claim : Option Claimed := none
  /-- A commit that finishes the claim was tried, and what one that was answered recorded. -/
  closing : Bool := false
  finished : Option (PlanState × Json) := none
  sent : Bool := false

structure Ledger extends Tenure where
  now : Option Time := none
  locked : Option (PlanId × ActionPlan) := none
  /-- The last two summaries since the claim, and the last policy. -/
  idle : Option (AccountId × IdleSummary) := none
  previous : Option (AccountId × IdleSummary) := none
  policy : Option (AccountId × VersionedPolicy) := none

/-- The calls that finish a plan without a claim. -/
def Call.Finishes (p : PlanId) : Call → Prop
  | .mutate args => args.planId = some p
  | .finishPlan q _ _ => q = p
  | _ => False

namespace Ledger

/-- The claim that a committed update makes. -/
def claimOf (m : Ledger) : List (PlanId × PlanUpdate) → Option Claimed
  | [(p, .claimed owner startedAt lease attempts)] =>
    m.locked.map fun row =>
      ⟨p, owner, (PlanUpdate.claimed owner startedAt lease attempts).apply row.2, false⟩
  | [(p, .recovered owner startedAt lease)] =>
    m.locked.map fun row =>
      ⟨p, owner, (PlanUpdate.recovered owner startedAt lease).apply row.2, true⟩
  | _ => none

/-- What a committed update of the claimant records. -/
def finishOf : List (PlanId × PlanUpdate) → Option (PlanState × Json)
  | [(_, .claimFinished _ state result _)] => some (state, result)
  | _ => none

def ended (m : Ledger) (us : List (PlanId × PlanUpdate)) : Ledger :=
  { m with locked := none, closing := m.closing || (finishOf us).isSome }

def committed (m : Ledger) (us : List (PlanId × PlanUpdate)) : Ledger :=
  match m.claimOf us with
  | some claim =>
    { m.ended us with claim := some claim, idle := none, previous := none, policy := none }
  | none => { m.ended us with finished := (finishOf us).or m.finished }

def next {T : Type} (m : Ledger) : (o : Op T) → Except Exc o.Val → Ledger
  | .clock, .ok now => { m with now := some now }
  | .uuid, .ok id => { m with drawn := some id }
  | .tryExecutionGuard a, .ok true => { m with guard := some a }
  | .executionUnlock _, _ => { m with guard := none }
  | .planForUpdate p _, .ok (some plan) => { m with locked := some (p, plan) }
  | .policyGet a, .ok policy => { m with policy := some (a, policy) }
  | .idleSummary a _, .ok idle => { m with idle := some (a, idle), previous := m.idle }
  | .idleCollect _ _ _, _ => { m with sent := true }
  | .commit ws, .ok _ => m.committed ws.plans
  | .commit ws, .error _ => m.ended ws.plans
  | .rollback, _ => { m with locked := none }
  | _, _ => m

/-- The last summary of the plan's account is below the one before. -/
def Fell (m : Ledger) (claim : Claimed) : Prop :=
  ∃ before after, m.previous = some (claim.plan.accountId, before) ∧
    m.idle = some (claim.plan.accountId, after) ∧
    after.accumulatedSeconds < before.accumulatedSeconds

/-- The plan's account waits according to the last summary, under the policy version of the plan. -/
def Waits (m : Ledger) (claim : Claimed) : Prop :=
  ∃ idle policy, m.idle = some (claim.plan.accountId, idle) ∧
    m.policy = some (claim.plan.accountId, policy) ∧
    policy.version = claim.plan.policyVersion ∧
    IdlePlanner.decision idle policy.toAccountPolicy = .wait

/-- What the claimant takes for a proof of the collection, and how it records it. -/
inductive Proof (m : Ledger) (claim : Claimed) : Json → Prop where
  | fell (fresh : claim.recovery = false) (fell : m.Fell claim) :
    Proof m claim (redact (IdleExecuteUseCase.executedResult false))
  | waits (waits : m.Waits claim) :
    Proof m claim (redact (IdleExecuteUseCase.executedResult true))

/-- Under the guard of the plan's account, the call may claim the plan for an identifier it drew. -/
structure MayClaim (m : Ledger) (plan : ActionPlan) (owner : Nat) (startedAt lease : Time) :
    Prop where
  claim : m.claim = none
  guard : m.guard = some plan.accountId
  drawn : m.drawn = some owner
  now : m.now = some startedAt
  lease : lease = startedAt + IdleExecutionClaims.lease
  unsent : m.sent = false
  closing : m.closing = false

/-- The claimant may finish its claim once: as executed with a proof, and as failed if it has asked
for nothing. -/
structure MayFinish (m : Ledger) (p : PlanId) (owner : Nat) (state : PlanState) (result : Json)
    (claim : Claimed) : Prop where
  held : m.claim = some claim
  planId : claim.planId = p
  owner : claim.owner = owner
  guard : m.guard = some claim.plan.accountId
  closing : m.closing = false
  terminal : state.terminal = true
  proof : state = .executed → m.Proof claim result
  failed : claim.recovery = false → (state = .failed ↔ m.sent = false)

/-- The single update of a plan row that was locked as `plan`. -/
def Single (m : Ledger) (call : Call) (p : PlanId) (plan : ActionPlan) : PlanUpdate → Prop
  | .claimed owner startedAt lease attempts =>
    m.MayClaim plan owner startedAt lease ∧
      IdleExecutionClaims.validFresh plan startedAt = true ∧
      attempts = plan.executionAttemptCount + 1
  | .recovered owner startedAt lease =>
    m.MayClaim plan owner startedAt lease ∧ plan.executionState = .executing ∧
      plan.executionLeaseExpiresAt.any (fun lease => startedAt < lease) = false
  | .claimFinished owner state result _ =>
    plan.executionState = .executing ∧ plan.executionOwner = some owner ∧
      ∃ claim, m.MayFinish p owner state result claim
  | .confirmed _ _ => plan.executionState = .pending
  | .markedExecuting => plan.executionState = .confirmed ∨
    (plan.executionState = .pending ∧ plan.confirmationRequired = false)
  | .finished state _ _ => plan.executionState.terminal = false ∧ state.terminal = true ∧
    ∃ result, call = .finishPlan p state result

/-- `PostgresPlanStore.finish`, whatever its caller has read. -/
def Finished : PlanUpdate → Prop
  | .finished state _ _ => state.terminal = true
  | _ => False

/-- The plan updates of a commit: none, a single one that the readings allow, or terminal states that
`mutate` gives to its plan. -/
inductive Updates (m : Ledger) (call : Call) : List (PlanId × PlanUpdate) → Prop where
  | none : Updates m call []
  | single {p : PlanId} {u : PlanUpdate} {plan : ActionPlan} (locked : m.locked = some (p, plan))
      (ok : m.Single call p plan u) : Updates m call [(p, u)]
  | mutated {p : PlanId} {us : List (PlanId × PlanUpdate)} {plan : ActionPlan} {args : MutateArgs}
      (locked : m.locked = some (p, plan)) (names : call = .mutate args)
      (planId : args.planId = some p) (ok : ∀ e ∈ us, e.1 = p ∧ Finished e.2) : Updates m call us

def Drafts (P : Ports) (m : Ledger) (plan : ActionPlan) : Call → Prop
  | .preview a _ _ => ∃ idle policy now draft, m.idle = some (a, idle) ∧
    m.policy = some (a, policy) ∧ IdlePlanner.draft P a idle policy now = some draft ∧
    plan = IdlePreviewStore.row draft
  | .createPlan _ => True
  | _ => False

/-- The plan part of a commit. -/
structure CommitOk (P : Ports) (m : Ledger) (call : Call) (ws : Writes) : Prop where
  updates : m.Updates call ws.plans
  newPlan : ∀ id plan, ws.newPlan = some (id, plan) →
    ws.plans = [] ∧ plan.executionState = .pending ∧ m.Drafts P plan call

/-- The last summary and the last policy of the account give the version and the fingerprint of the
plan. -/
def Projected (P : Ports) (m : Ledger) (a : AccountId) (plan : ActionPlan) : Prop :=
  ∃ idle policy, m.idle = some (a, idle) ∧ m.policy = some (a, policy) ∧
    policy.version = plan.policyVersion ∧
    IdlePlanner.fingerprint P idle policy.toAccountPolicy = plan.stateFingerprint

/-- A fresh claim entitles to one collection. -/
structure MaySend (m : Ledger) (a : AccountId) (p : PlanId) (claim : Claimed) : Prop where
  held : m.claim = some claim
  planId : claim.planId = p
  account : claim.plan.accountId = a
  fresh : claim.recovery = false
  guard : m.guard = some a
  closing : m.closing = false
  unsent : m.sent = false

def ok {T : Type} (P : Ports) (call : Call) (m : Ledger) : Op T → Prop
  | .commit ws => m.CommitOk P call ws
  | .idleCollect a p _ => ∃ claim, m.MaySend a p claim ∧ m.Projected P a claim.plan
  | .tryExecutionGuard _ => m.claim = none
  | _ => True

def Post {T : Type} (m : Ledger) (r : Except Exc (Returned T)) : Call → Prop
  | .execute _ p _ _ _ => ∀ x, r = .ok x → ∃ e claim, x = .execution e ∧ m.claim = some claim ∧
    claim.planId = p ∧ e.applied = !claim.recovery ∧
    m.finished = some (.executed, redact (IdleExecuteUseCase.executedResult e.reconciled))
  | _ => True

end Ledger

def ledger (T : Type) (P : Ports) (call : Call) : Monitor (sig T) Ledger where
  init := {}
  next := Ledger.next
  ok := Ledger.ok P call
  ans _ := Local.Answers

end PlaceGame
