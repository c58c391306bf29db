import PlaceGame.Accounts.Mutations
import PlaceGame.Accounts.Watch
import PlaceGame.Steps

/-!
# PlaceGame.Accounts.Scope

The monitor of what a call may write.

A call works on one account, or enrols a new one. `Scope` remembers which plans and jobs it has read
as belonging to an account; `Scope.CommitOk` lets it write its account, the policy that it was asked
to save, and what it has read to belong to its account.
-/

namespace PlaceGame

open Coop

variable {T : Type}

namespace Call

/-- The account that a call is made for. An enrolment has none yet, and two operations of the plan
store only name a plan. -/
def accountId : Call → Option AccountId
  | .addCredentials _ _ _ _ | .addTokenOnly _ _ _ => none
  | .updateLabel a _ _ | .updateCredentials a _ _ _ | .updateTokenOnly a _ _ | .enable a _
  | .disable a _ | .pause a _ _ | .resume a _ | .disableDrainRemove a _ | .ensureSession a _
  | .locked a _ | .snapshot a _ => some a
  | .mutate args => some args.accountId
  | .savePolicy a _ _ _ | .accountStatus a _ | .preview a _ _ | .execute a _ _ _ _ => some a
  | .createPlan row => some row.accountId
  | .confirmPlan _ a _ => some a
  | .markExecuting _ _ | .finishPlan _ _ _ => none

/-- The operations of the plan store that take a plan of any account. -/
def ByPlan : Call → Prop
  | .markExecuting _ _ | .finishPlan _ _ _ => True
  | _ => False

end Call

structure Scope where
  seen : Local := {}
  /-- The plans that the call has read, with their account. -/
  plans : List (PlanId × AccountId) := []
  /-- The jobs that it has read for an account. -/
  jobs : List (JobId × AccountId) := []
  /-- A commit of a policy was tried, and one was answered. -/
  tried : Bool := false
  saved : Bool := false

namespace Scope

def read (m : Scope) : (o : Op T) → Except Exc o.Val → Scope
  | .getPlan p, .ok (some plan) => { m with plans := (p, plan.accountId) :: m.plans }
  | .planForUpdate p _, .ok (some plan) => { m with plans := (p, plan.accountId) :: m.plans }
  | .enabledJobs a, .ok ids => { m with jobs := ids.map (·, a) ++ m.jobs }
  | .commit ws, .ok _ =>
    { m with tried := m.tried || ws.policy.isSome, saved := m.saved || ws.policy.isSome }
  | .commit ws, .error _ => { m with tried := m.tried || ws.policy.isSome }
  | _, _ => m

def next (m : Scope) (o : Op T) (r : Except Exc o.Val) : Scope :=
  { m.read o r with seen := m.seen.next o r }

/-- The policy that the call was asked to save, for the version that it expects. -/
def Saves (call : Call) (a : AccountId) (r₀ r : GameAccount) (write : Option (AccountId × PolicyRow)) :
    Prop :=
  ∃ policy expectedVersion actor, call = .savePolicy a policy expectedVersion actor ∧
    expectedVersion = r₀.policyVersion ∧ r.policyVersion = r₀.policyVersion + 1 ∧
    write = some (a, ⟨policy.modelDump, r₀.policyVersion + 1⟩)

/-- The account row of a commit. -/
inductive AccountOk (m : Scope) (call : Call) (write : Option (AccountId × PolicyRow))
    (a : AccountId) (r : GameAccount) : Prop where
  | kept {r₀ : GameAccount} (account : call.accountId = some a) (row : m.seen.row = some (a, r₀))
      (version : r.policyVersion = r₀.policyVersion) (policy : write = none)
  | saves {r₀ : GameAccount} (account : call.accountId = some a) (row : m.seen.row = some (a, r₀))
      (saves : Saves call a r₀ r write)
  | enrols (account : call.accountId = none) (fresh : m.seen.fresh = some a)
      (version : r.policyVersion = 1) (policy : write = none)

structure CommitOk (m : Scope) (call : Call) (ws : Writes) : Prop where
  account : ∀ a r, ws.account = some (a, r) → m.AccountOk call ws.policy a r
  policy : ws.account = none → ws.policy = none
  plans : ∀ e ∈ ws.plans, call.ByPlan ∨ ∃ a, call.accountId = some a ∧ (e.1, a) ∈ m.plans
  newPlan : ∀ id plan, ws.newPlan = some (id, plan) → call.accountId = some plan.accountId
  jobs : ∀ id ∈ ws.disabledJobs, ∃ a, call.accountId = some a ∧ (id, a) ∈ m.jobs
  snapshots : ∀ row ∈ ws.snapshots, call.accountId = some row.accountId

def ok (call : Call) (m : Scope) : Op T → Prop
  | .commit ws => m.CommitOk call ws
  | _ => True

/-- The database does not refuse these. -/
def Steady : Op T → Prop
  | .accountLock _ | .accountForUpdate _ | .policyForUpdate _ | .flush | .commit _ | .rollback => True
  | _ => False

def Answers (o : Op T) (r : Except Exc o.Val) : Prop :=
  Local.Answers o r ∧ (Steady o → ∀ e, r = .error e → e = .cancelled)

/-- What a finished call says about the policy that it was asked to save. -/
def Post (m : Scope) (r : Except Exc (Returned T)) : Call → Prop
  | .savePolicy _ policy expectedVersion _ =>
    (∀ x, r = .ok x → m.saved = true ∧ ∃ v : VersionedPolicy, x = .policy v ∧
      v.toAccountPolicy = policy ∧ (v.version : Int) = expectedVersion + 1) ∧
    (r = .error .policyConflict ∨ r = .error .policyUnavailable → m.tried = false)
  | _ => True

end Scope

def scope (T : Type) (call : Call) : Monitor (sig T) Scope where
  init := {}
  next := Scope.next
  ok := Scope.ok call
  ans _ := Scope.Answers

namespace Scope

variable {call : Call} {m : Scope}

@[simp] theorem scope_next (o : Op T) (r : Except Exc o.Val) :
    (scope T call).next m o r = m.next o r := rfl

@[simp] theorem scope_ok (o : Op T) : (scope T call).ok m o ↔ m.ok call o := Iff.rfl

@[simp] theorem scope_ans (o : Op T) (r : Except Exc o.Val) :
    (scope T call).ans m o r ↔ Scope.Answers o r := Iff.rfl

@[simp] theorem next_seen (o : Op T) (r : Except Exc o.Val) : (m.next o r).seen = m.seen.next o r :=
  rfl

theorem plans_subset (o : Op T) (r : Except Exc o.Val) : m.plans ⊆ (m.next o r).plans := by
  show m.plans ⊆ (m.read o r).plans
  unfold read
  split <;> simp

theorem jobs_subset (o : Op T) (r : Except Exc o.Val) : m.jobs ⊆ (m.next o r).jobs := by
  show m.jobs ⊆ (m.read o r).jobs
  unfold read
  split <;> simp

theorem next_tried {o : Op T} (he : o.ends = false) (r : Except Exc o.Val) :
    (m.next o r).tried = m.tried := by
  show (m.read o r).tried = m.tried
  unfold read
  split <;> simp_all [Op.ends]

end Scope

namespace Local

theorem next_row {m : Local} {o : Op T} (hl : ∀ a, o ≠ .accountForUpdate a) (he : o.ends = false)
    (r : Except Exc o.Val) : (m.next o r).row = m.row := by
  unfold next
  split <;> simp_all [Op.ends]

theorem next_fresh {m : Local} {o : Op T} (hu : o ≠ .uuid) (he : o.ends = false)
    (r : Except Exc o.Val) : (m.next o r).fresh = m.fresh := by
  unfold next
  split <;> simp_all [Op.ends]

end Local

end PlaceGame
