import PlaceGame.Policy.PlanRows
import PlaceGame.Scripts

/-!
# PlaceGame.Policy.Lifecycle

The lifecycle of a plan over all runs.

`PlanState.Moves` is the lifecycle by itself: a plan is confirmed, executed and ended, in this
order, and nothing leads back. Every change of a row is such a move and keeps what the row has
recorded, so the rows of any run only advance.
-/

namespace PlaceGame

open Coop

variable {T : Type}

namespace PlanState

inductive Moves : PlanState → PlanState → Prop where
  | confirm : Moves .pending .confirmed
  | start {s : PlanState} (fresh : s.fresh = true) : Moves s .executing
  | again : Moves .executing .executing
  | finish {s s' : PlanState} (terminal : s'.terminal = true) : Moves s s'

def rank : PlanState → Nat
  | .pending => 0
  | .confirmed => 1
  | .executing => 2
  | .executed | .failed | .reconciliationRequired => 3

theorem rank_terminal {s : PlanState} : s.terminal = true ↔ s.rank = 3 := by
  cases s <;> simp [terminal, rank]

theorem rank_fresh {s : PlanState} : s.fresh = true ↔ s.rank ≤ 1 := by
  cases s <;> simp [fresh, rank]

theorem rank_le (s : PlanState) : s.rank ≤ 3 := by
  cases s <;> simp [rank]

theorem Moves.advances {s s' : PlanState} (h : Moves s s') : s.rank ≤ s'.rank := by
  cases h with
  | confirm => simp [rank]
  | start hfresh =>
    have := rank_fresh.mp hfresh
    show s.rank ≤ 2
    omega
  | again => exact le_rfl
  | finish hterminal =>
    have := rank_terminal.mp hterminal
    have := rank_le s
    omega

end PlanState

/-- What a row keeps for good: the columns of its creation, how far it has come, and that it was
confirmed or claimed. -/
structure ActionPlan.Advances (plan plan' : ActionPlan) : Prop where
  creation : plan'.creation = plan.creation
  moves : plan.executionState.rank ≤ plan'.executionState.rank
  attempts : plan.executionAttemptCount ≤ plan'.executionAttemptCount
  confirmedAt : plan.confirmedAt.isSome = true → plan'.confirmedAt.isSome = true
  confirmedBy : plan.confirmedBy.isSome = true → plan'.confirmedBy.isSome = true
  owner : plan.executionOwner.isSome = true → plan'.executionOwner.isSome = true

namespace ActionPlan

theorem Advances.refl (plan : ActionPlan) : plan.Advances plan :=
  ⟨rfl, le_rfl, le_rfl, id, id, id⟩

theorem Advances.trans {plan plan' plan'' : ActionPlan} (h : plan.Advances plan')
    (h' : plan'.Advances plan'') : plan.Advances plan'' where
  creation := h'.creation.trans h.creation
  moves := h.moves.trans h'.moves
  attempts := h.attempts.trans h'.attempts
  confirmedAt := h'.confirmedAt ∘ h.confirmedAt
  confirmedBy := h'.confirmedBy ∘ h.confirmedBy
  owner := h'.owner ∘ h.owner

theorem Ends.advances {plan plan' : ActionPlan} (h : plan.Ends plan') : plan.Advances plan' := by
  obtain ⟨state, result, at_, hterminal, rfl⟩ := h
  exact ⟨rfl, (PlanState.Moves.finish hterminal).advances, le_rfl, id, id, id⟩

end ActionPlan

section Changes

variable {P : Ports} {m : Ledger} {call : Call} {ws : Writes} {p : PlanId}

/-- A single update is a move of the lifecycle. -/
theorem Ledger.Single.moves {plan : ActionPlan} {u : PlanUpdate} (h : m.Single call p plan u) :
    PlanState.Moves plan.executionState (u.apply plan).executionState := by
  cases u with
  | recovered owner startedAt lease =>
    have hstate : plan.executionState = .executing := h.2.1
    show PlanState.Moves plan.executionState plan.executionState
    rw [hstate]
    exact .again
  | claimed owner startedAt lease attempts =>
    have hvalid := h.2.1
    unfold IdleExecutionClaims.validFresh at hvalid
    simp only [Bool.and_eq_true] at hvalid
    exact .start hvalid.1.1.1.1
  | claimFinished owner state result at_ =>
    obtain ⟨claim, hmay⟩ := h.2.2
    exact .finish hmay.terminal
  | confirmed at_ by_ =>
    have hstate : plan.executionState = .pending := h
    rw [hstate]
    exact .confirm
  | markedExecuting =>
    rcases h with hstate | ⟨hstate, -⟩
    · exact .start (by rw [hstate]; rfl)
    · exact .start (by rw [hstate]; rfl)
  | finished state result at_ => exact .finish h.2.1

theorem Ledger.Single.advances {plan : ActionPlan} {u : PlanUpdate} (h : m.Single call p plan u) :
    plan.Advances (u.apply plan) where
  creation := PlanUpdate.apply_creation u plan
  moves := h.moves.advances
  attempts := by
    cases u with
    | claimed owner startedAt lease attempts =>
      show plan.executionAttemptCount ≤ attempts
      rw [h.2.2]
      omega
    | _ => exact le_rfl
  confirmedAt := by cases u <;> first | exact id | exact fun _ => rfl
  confirmedBy := by cases u <;> first | exact id | exact fun _ => rfl
  owner := by cases u <;> first | exact id | exact fun _ => rfl

theorem PlanChange.advances {plan plan' : ActionPlan}
    (h : PlanChange P m call ws p (some plan) plan') : plan.Advances plan' := by
  cases h with
  | updated _ _ hsingle => exact Ledger.Single.advances hsingle
  | mutated _ _ _ hends => exact hends.advances

theorem PlanChange.of_terminal {plan plan' : ActionPlan}
    (h : PlanChange P m call ws p (some plan) plan') (ht : plan.executionState.terminal = true) :
    ∃ args, call = .mutate args ∧ args.planId = some p := by
  cases h with
  | mutated hnames hplanId _ _ => exact ⟨_, hnames, hplanId⟩
  | @updated _ u _ _ hsingle =>
    exfalso
    have hrank := PlanState.rank_terminal.mp ht
    cases u with
    | claimed owner startedAt lease attempts =>
      have hvalid := hsingle.2.1
      unfold IdleExecutionClaims.validFresh at hvalid
      simp only [Bool.and_eq_true] at hvalid
      have := PlanState.rank_fresh.mp hvalid.1.1.1.1
      omega
    | recovered owner startedAt lease => rw [hsingle.2.1] at ht; cases ht
    | claimFinished owner state result at_ => rw [hsingle.1] at ht; cases ht
    | confirmed at_ by_ =>
      rw [show plan.executionState = .pending from hsingle] at ht
      cases ht
    | markedExecuting => rcases hsingle with h | ⟨h, -⟩ <;> rw [h] at ht <;> cases ht
    | finished state result at_ => rw [hsingle.1] at ht; cases ht

end Changes

section Runs

variable {P : Ports} {c c' : Config (machine T P)} {w : World} {p : PlanId} {plan : ActionPlan}

/-- No call of `mutate` names the plan. -/
def Unmutated (p : PlanId) (c : Config (machine T P)) : Prop :=
  ∀ t U args, c.task t = some U → U.call = .mutate args → args.planId ≠ some p

theorem Unmutated.before (h : Unmutated p c') (hst : Step c c') : Unmutated p c := by
  intro t U args hU hcall
  obtain ⟨U', hU', hsame⟩ := task_stays hst hU
  exact h t U' args hU' (hsame.trans hcall)

/-- One step: the row advances, and a terminal one stays unless `mutate` names it. -/
theorem plan_advances_step (hw : w.Sound) (h : Reachable (.start w) c) (hst : Step c c')
    (hp : c.world.plans.get p = some plan) :
    ∃ plan', c'.world.plans.get p = some plan' ∧ plan.Advances plan' ∧
      (plan.executionState.terminal = true → Unmutated p c → plan' = plan) := by
  rcases plan_step hw h hst p with hsame | ⟨plan', t, U, ws, hget, hedit⟩
  · exact ⟨plan, hsame.trans hp, .refl plan, fun _ _ => rfl⟩
  · have hchange := hedit.change
    rw [hp] at hchange
    refine ⟨plan', hget, hchange.advances, fun hterminal hun => ?_⟩
    obtain ⟨args, hcall, hnames⟩ := hchange.of_terminal hterminal
    exact absurd hnames (hun t U args hedit.commit.task hcall)

/-- Whatever runs, a plan keeps what it was created with, only advances in its lifecycle, and is
never confirmed or claimed away; once it has ended, only a `mutate` of this very plan can write it
again, and then with another terminal state. -/
theorem plans_only_advance (hw : w.Sound) (h : Reachable (.start w) c) (hrun : Reachable c c')
    (hp : c.world.plans.get p = some plan) :
    ∃ plan', c'.world.plans.get p = some plan' ∧ plan.Advances plan' ∧
      (plan.executionState.terminal = true → Unmutated p c' → plan' = plan) := by
  induction hrun with
  | refl => exact ⟨plan, hp, .refl plan, fun _ _ => rfl⟩
  | @tail c₁ c₂ hrun hst ih =>
    obtain ⟨plan₁, hp₁, hadv₁, hkept₁⟩ := ih
    obtain ⟨plan₂, hp₂, hadv₂, hkept₂⟩ := plan_advances_step hw (h.trans hrun) hst hp₁
    refine ⟨plan₂, hp₂, hadv₁.trans hadv₂, fun hterminal hun => ?_⟩
    have heq := hkept₁ hterminal (hun.before hst)
    subst heq
    exact hkept₂ hterminal (hun.before hst)

end Runs

section Example

def idlePlan : ActionPlan where
  accountId := 0
  stateFingerprint := IdlePlanner.fingerprint samplePorts ⟨50000, none⟩ defaultPolicy.toAccountPolicy
  policyVersion := 1
  proposedActions := [IdlePlanner.selectedDecision]
  risk := .low
  expiresAt := 300
  confirmationRequired := false

def idleWorld : World where
  accounts := Table.set {} 0 storedAccount
  plans := Table.set {} 1 idlePlan
  nextId := 2
  validSeconds _ := 50000

theorem sound_idleWorld : idleWorld.Sound := by
  have haccount : ∀ {a r}, idleWorld.accounts.get a = some r → a = 0 := by
    intro a r hget
    by_contra hne
    rw [show idleWorld.accounts.get a = _ from Table.get_set_ne {} storedAccount hne] at hget
    cases hget
  refine ⟨fun a r hget => ?_, fun q plan hget => ?_, fun a b r r' g ha hb _ _ => ?_,
    fun _ _ _ hf => (by cases hf), fun _ _ _ _ _ hf => (by cases hf)⟩
  · rw [haccount hget]
    decide
  · by_cases hq : q = 1
    · rw [hq]
      decide
    · rw [show idleWorld.plans.get q = _ from Table.get_set_ne {} idlePlan hq] at hget
      cases hget
  · rw [haccount ha, haccount hb]

def requestedRun : Config (machine Unit samplePorts) :=
  run (.start idleWorld) 0 (.execute 0 1 operator "c1" false) friendlyGame 16

def appliedRun : Config (machine Unit samplePorts) :=
  { requestedRun with
    world := { requestedRun.world with
      validSeconds := Function.update requestedRun.world.validSeconds 0 10
      collections := Function.update requestedRun.world.collections 0
        (requestedRun.world.collections 0 + 1) } }

def executedRun : Config (machine Unit samplePorts) :=
  appliedRun.drive World.effect 0 friendlyGame 10

theorem reachable_requestedRun : Reachable (.start idleWorld) requestedRun := reachable_run ..

theorem reachable_executedRun : Reachable (.start idleWorld) executedRun :=
  (reachable_requestedRun.tail (.env (.collect 0 10))).trans (reachable_drive honest_effect ..)

theorem executedRun_advances : ∃ plan', executedRun.world.plans.get 1 = some plan' ∧
    idlePlan.Advances plan' ∧
    (idlePlan.executionState.terminal = true → Unmutated 1 executedRun → plan' = idlePlan) :=
  plans_only_advance sound_idleWorld .refl reachable_executedRun rfl

end Example

end PlaceGame
