import PlaceGame.Accounts.Edits
import PlaceGame.Rules
import PlaceGame.System

/-!
# PlaceGame.Accounts.Watch

The monitor of account safety.

`Local` is what a call has learnt from its own awaits: the account row it holds, what the game
answered to which token, and what it read of policy, plan and game in the current attempt. `Local.ok`
says which awaits these readings entitle it to: which row it may commit, which api it may hand out,
and when it may start a mutating request.
-/

namespace PlaceGame

open Coop

structure Local where
  /-- The account row as it was when the transaction locked it. -/
  row : Option (AccountId × GameAccount) := none
  /-- Every bootstrap of the call, with the identity it returned. -/
  boots : List (GameApi × String) := []
  /-- The identity that the transaction has flushed. -/
  flushed : Option (AccountId × String) := none
  fresh : Option Nat := none
  policy : Option (AccountId × VersionedPolicy) := none
  plan : Option (PlanId × ActionPlan) := none
  /-- The plan row that was locked last, with the time read before. -/
  planRow : Option (PlanId × ActionPlan × Option Time) := none
  now : Option Time := none
  fingerprint : Option (PlanId × String) := none
  idle : Option (AccountId × IdleSummary) := none
  committed : List (AccountId × GameAccount) := []

/-- The api that an await hands to the game or to a callback. Bootstrapping and logging in is how an
api is checked in the first place. -/
def Op.handed {T : Type} : Op T → Option GameApi
  | .idleSummary _ api | .idleCollect _ _ api | .stateFingerprint _ api | .operation _ _ api
  | .verify api _ | .lockedBody _ api => some api
  | _ => none

/-- A pause whose reason reads like the marker of a finished removal. -/
def Call.FalseTombstone : Call → Prop
  | .pause _ reason _ => pyStrip reason = "removed"
  | _ => False

namespace Local

def closed (m : Local) : Local :=
  { boots := m.boots, planRow := m.planRow, now := m.now, committed := m.committed }

/-- The row that the transaction holds after it selected the account: the first one it saw. -/
def lockedRow (m : Local) (a : AccountId) (r : GameAccount) : AccountId × GameAccount :=
  match m.row with
  | some (a', r') => if a' = a then (a', r') else (a, r)
  | none => (a, r)

def next {T : Type} (m : Local) : (o : Op T) → Except Exc o.Val → Local
  | .clock, .ok now => { m with now := some now }
  | .uuid, .ok id => { m with fresh := some id }
  | .accountForUpdate a, .ok (some r) =>
    { m with
      row := some (m.lockedRow a r)
      policy := none, plan := none, now := none, fingerprint := none, idle := none }
  | .flushIdentity a g, .ok true => { m with flushed := some (a, g) }
  | .policyGet a, .ok v => { m with policy := some (a, v) }
  | .getPlan p, .ok (some plan) => { m with plan := some (p, plan) }
  | .planForUpdate p _, .ok (some plan) => { m with planRow := some (p, plan, m.now) }
  | .bootstrap api, .ok g => { m with boots := (api, g) :: m.boots }
  | .idleSummary a _, .ok idle => { m with idle := some (a, idle) }
  | .stateFingerprint p _, .ok (some fingerprint) => { m with fingerprint := some (p, fingerprint) }
  | .commit ws, .ok _ => { m.closed with committed := ws.account.toList ++ m.committed }
  | .commit _, .error _ => m.closed
  | .rollback, _ => m.closed
  | _, _ => m

def identity (m : Local) (a : AccountId) (r₀ : GameAccount) : Option String :=
  r₀.gameAccountId.or (m.flushed.bind fun f => if f.1 = a then some f.2 else none)

/-- The api was bootstrapped in this call to the identity of the account that is locked. -/
def Bootstrapped (m : Local) (a : AccountId) (api : GameApi) : Prop :=
  ∃ r₀ g, m.row = some (a, r₀) ∧ (api, g) ∈ m.boots ∧ m.identity a r₀ = some g

/-- The locked account may be worked on. -/
def Admitted (m : Local) (a : AccountId) : Prop :=
  ∃ r₀, m.row = some (a, r₀) ∧ r₀.enabled = true ∧ r₀.pausedReason = none

/-- The checks of a planned `mutate`, on what the current attempt read. -/
def Planned (m : Local) (a : AccountId) (p : PlanId) : Prop :=
  ∃ policy plan now fingerprint, m.policy = some (a, policy) ∧ m.plan = some (p, plan) ∧
    plan.accountId = a ∧ plan.policyVersion = policy.version ∧
    m.now = some now ∧ now < plan.expiresAt ∧
    (plan.confirmationRequired = true → plan.confirmedAt.isSome = true) ∧
    m.fingerprint = some (p, fingerprint) ∧ fingerprint = plan.stateFingerprint

/-- The checks of an idle execution, on what it read when it claimed the plan and now. -/
def Collects (P : Ports) (m : Local) (a : AccountId) (p : PlanId) : Prop :=
  ∃ policy plan now idle, m.policy = some (a, policy) ∧ m.planRow = some (p, plan, some now) ∧
    plan.accountId = a ∧ IdleExecutionClaims.validFresh plan now = true ∧
    plan.policyVersion = policy.version ∧ m.idle = some (a, idle) ∧
    IdlePlanner.fingerprint P idle policy.toAccountPolicy = plan.stateFingerprint

/-- The row that a call may leave behind when it found `r₀`. -/
def Change (call : Call) (a : AccountId) (r₀ r : GameAccount) : Prop :=
  match call with
  | .disableDrainRemove a' _ =>
    a = a' ∧ ((r₀.Removed ∧ r = r₀) ∨ (¬ r₀.Removed ∧ r = r₀.beginRemoval) ∨ r = r₀.wipe)
  | call => GameAccount.Evolves call.FalseTombstone r₀ r

/-- The token column of the committed row: as it was, emptied, or a token whose bootstrap in this
call returned the row's identity. -/
def TokenWrite (m : Local) (write : Option (Option String)) (old : Option String)
    (r : GameAccount) : Prop :=
  (write = none ∧ r.sessionToken = old) ∨ (write = some none ∧ r.sessionToken = none) ∨
    ∃ token g, write = some (some token) ∧ r.sessionToken = some token ∧
      (⟨some token⟩, g) ∈ m.boots ∧ r.gameAccountId = some g

/-- A new row: never seen before, neither paused nor without identity. -/
structure Enrolled (m : Local) (a : AccountId) (r : GameAccount) : Prop where
  fresh : m.fresh = some a
  active : r.pausedReason = none
  coherent : r.Coherent
  identity : ∃ g, m.flushed = some (a, g) ∧ r.gameAccountId = some g

def CommitOk (m : Local) (call : Call) (ws : Writes) : Prop :=
  (∀ a r, ws.account = some (a, r) →
    (∃ r₀, m.row = some (a, r₀) ∧ r.gameAccountId = m.identity a r₀ ∧ Change call a r₀ r ∧
      m.TokenWrite ws.sessionToken r₀.sessionToken r) ∨
    (m.Enrolled a r ∧ m.TokenWrite ws.sessionToken none r)) ∧
  (ws.account = none → ws.sessionToken = none) ∧
  ∀ id plan, ws.newPlan = some (id, plan) → m.fresh = some id

def ok {T : Type} (P : Ports) (call : Call) (m : Local) : Op T → Prop
  | .commit ws => m.CommitOk call ws
  | .operation a p api => m.Bootstrapped a api ∧ m.Admitted a ∧ ∀ q, p = some q → m.Planned a q
  | .idleCollect a p api => m.Bootstrapped a api ∧ m.Admitted a ∧ m.Collects P a p
  | .lockedBody a api | .idleSummary a api => m.Bootstrapped a api
  | o => ∀ api, o.handed = some api → ∃ a, m.Bootstrapped a api

/-- A plan selected for an account belongs to it. -/
def Answers {T : Type} : (o : Op T) → Except Exc o.Val → Prop
  | .planForUpdate _ (some a), .ok (some plan) => plan.accountId = a
  | _, _ => True

theorem answers_error {T : Type} (o : Op T) (e : Exc) : Answers o (.error e) := by
  unfold Answers
  split <;> simp_all

end Local

theorem effect_answers {T : Type} {t : TaskId} {w w' : World} {o : Op T} {reply r : Except Exc o.Val}
    (h : World.effect t w o reply = some (r, w')) : Local.Answers o r := by
  cases o with
  | planForUpdate p a =>
    cases a with
    | none => exact trivial
    | some a =>
      simp only [World.effect] at h
      cases hplan : w.plans.get p with
      | none =>
        rw [hplan] at h
        cases h
        exact trivial
      | some plan =>
        rw [hplan] at h
        by_cases ha : a = plan.accountId
        · simp only [ha, Option.any_some, ne_eq, not_true_eq_false, decide_false,
            Bool.false_eq_true, if_false] at h
          split at h
          · cases h
            exact ha.symm
          · cases h
        · simp only [Option.any_some, ne_eq, ha, not_false_eq_true, decide_true, if_true] at h
          cases h
          exact trivial
  | _ => exact trivial

theorem perform_answers {T : Type} {t : TaskId} {w w' : World} {o : Op T} {r : Except Exc o.Val}
    (h : World.Perform t w o r w') : Local.Answers o r := by
  cases h with
  | done h => exact effect_answers h
  | cancelled _ => exact Local.answers_error o _
  | cancelledLate _ _ => exact Local.answers_error o _

def watch (T : Type) (P : Ports) (call : Call) : Monitor (sig T) Local where
  init := {}
  next := Local.next
  ok := Local.ok P call
  ans _ := Local.Answers

namespace Local

variable {T : Type} {P : Ports} {call : Call} {m : Local}

@[simp] theorem watch_next (o : Op T) (r : Except Exc o.Val) :
    (watch T P call).next m o r = m.next o r := rfl

@[simp] theorem watch_ok (o : Op T) : (watch T P call).ok m o ↔ m.ok P call o := Iff.rfl

@[simp] theorem watch_ans (o : Op T) (r : Except Exc o.Val) :
    (watch T P call).ans m o r ↔ Answers o r := Iff.rfl

structure Closed (m : Local) : Prop where
  row : m.row = none
  flushed : m.flushed = none

theorem closed_closed (m : Local) : m.closed.Closed := ⟨rfl, rfl⟩

end Local

end PlaceGame
