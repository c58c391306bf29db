import PlaceGame.Accounts.Entries
import PlaceGame.System

/-!
# PlaceGame.Accounts.Peaceful

Two calls send requests that change something in the game: `mutate` and `execute`. All others are
peaceful. That is a fact about what they ask for, so it is proved once, for the monitor that
remembers nothing, and holds for every other one.
-/

namespace PlaceGame

open Coop

variable {T α β μ : Type}

/-- Anything but a request that changes something in the game. -/
def Op.Peaceful : Op T → Prop
  | .operation _ _ _ | .idleCollect _ _ _ => False
  | _ => True

theorem Op.Free.peaceful {o : Op T} (h : o.Free) : o.Peaceful := by
  cases o <;> first | exact h.elim | exact trivial

/-- The calls that send such requests. -/
def Call.Sends : Call → Prop
  | .mutate _ | .execute _ _ _ _ _ => True
  | _ => False

namespace Peaceful

/-- The part of a program is peaceful. -/
abbrev In {σ : Type} (c : Coro (sig T) σ α) : Prop :=
  Stable (asks (S := sig T) Op.Peaceful) (fun _ _ => True) c

theorem await {σ : Type} {o : Op T} (ho : o.Peaceful) :
    In (PlaceGame.await o : Coro (sig T) σ o.Val) :=
  Stable.await fun _ _ _ => ⟨ho, fun _ _ => trivial⟩

theorem modify {g : Frame → Frame} : In (modifyFrame g : Tx T Unit) :=
  stable_modifyFrame fun _ _ _ => trivial

theorem sessions : Sessions (asks (S := sig T) Op.Peaceful) (fun _ _ => True) (fun _ => True) where
  begins _ _ := trivial
  inside _ _ _ ho _ := ⟨Op.Free.peaceful ho, fun _ _ => trivial⟩
  between _ _ ho _ := ⟨Op.Free.peaceful ho, fun _ _ => trivial⟩
  commits _ _ _ := ⟨trivial, fun _ _ => trivial⟩
  abandons _ _ _ := ⟨trivial, fun _ _ => trivial⟩
  rolls _ _ := ⟨trivial, fun _ _ => trivial⟩

theorem accountSessions (a : AccountId) :
    AccountSessions (asks (S := sig T) Op.Peaceful) a (fun _ _ => True) (fun _ => True) where
  toSessions := sessions
  tame := ⟨fun _ _ h => h, fun _ _ _ _ _ _ _ => trivial, fun _ _ _ _ _ => trivial,
    fun _ _ _ _ _ _ => trivial, fun _ _ _ _ _ => trivial, fun _ _ _ _ _ => trivial⟩
  locks _ _ _ := ⟨trivial, fun _ _ => trivial⟩

section Sessions

open AccountService

variable {a : AccountId} (actor : Actor)

theorem enrols : Enrols (T := T) (asks (S := sig T) Op.Peaceful) (fun _ _ => True) actor := by
  intro record token identity action _ _
  unfold enroll
  refine Stable.bind (await trivial) fun _ => Stable.bind (await trivial) fun _ => ?_
  refine Stable.ite _ (Stable.bind modify fun _ => Stable.pure _) ?_
  refine Stable.bind (await trivial) fun existing => ?_
  split
  · exact Stable.bind modify fun _ => Stable.pure _
  · refine Stable.bind (await trivial) fun id => ?_
    dsimp only
    refine Stable.bind modify fun _ => Stable.bind (await trivial) fun _ => ?_
    exact Stable.ite _ (Stable.bind modify fun _ => Stable.pure _) (Stable.raise _)

theorem drainRemoval : In (AccountService.drainRemoval a actor : Tx T RemovalReceipt) := by
  have hs : AccountSessions (asks (S := sig T) Op.Peaceful) a _ _ := accountSessions a
  unfold AccountService.drainRemoval
  refine Stable.bind hs.lockAccount fun _ => Stable.bind (await trivial) fun ids => ?_
  refine Stable.bind modify fun _ => ?_
  refine Stable.bind (hs.quiet (Plain.writeToken none fun _ => rfl)) fun _ => ?_
  exact Stable.bind modify fun _ => Stable.bind (await trivial) fun _ => Stable.pure _

theorem saveLocked (policy : AccountPolicy) (expectedVersion : Int) :
    In (PolicyService.saveLocked a policy expectedVersion actor :
      Tx T PolicyService.SaveResult) := by
  unfold PolicyService.saveLocked
  refine Stable.bind (await trivial) fun _ => Stable.bind (await trivial) fun found => ?_
  split
  · exact Stable.pure _
  · refine Stable.bind modify fun _ => Stable.bind (await trivial) fun policyRow => ?_
    split
    · exact Stable.pure _
    · refine Stable.ite _ (Stable.bind modify fun _ => Stable.pure _) ?_
      refine Stable.bind modify fun _ => Stable.bind modify fun _ => ?_
      exact Stable.bind (await trivial) fun _ => Stable.bind modify fun _ => Stable.pure _

end Sessions

section Plans

theorem loadForUpdate (p : PlanId) (a : Option AccountId) :
    In (PlanStore.loadForUpdate p a : Tx T ActionPlan) := by
  unfold PlanStore.loadForUpdate
  refine Stable.bind (await trivial) fun found => ?_
  split
  · exact Stable.raise _
  · exact Stable.bind stable_frame fun _ => Stable.bind modify fun _ => Stable.pure _

theorem create (row : ActionPlan) : In (PlanStore.create row : Tx T PlanId) := by
  unfold PlanStore.create
  exact Stable.bind (await trivial) fun _ => Stable.bind modify fun _ =>
    Stable.bind (await trivial) fun _ => Stable.pure _

theorem confirm (p : PlanId) (a : AccountId) (actor : Actor) :
    In (PlanStore.confirm p a actor : Tx T ActionPlan) := by
  unfold PlanStore.confirm
  refine Stable.bind (loadForUpdate p _) fun plan => Stable.bind (Stable.raiseIf _ _) fun _ => ?_
  refine Stable.bind (await trivial) fun now => Stable.bind (Stable.raiseIf _ _) fun _ => ?_
  exact Stable.bind (await trivial) fun _ => Stable.bind modify fun _ =>
    Stable.bind (await trivial) fun _ => Stable.pure _

theorem markExecuting (p : PlanId) (expected : PlanState) :
    In (PlanStore.markExecuting p expected : Tx T Unit) := by
  unfold PlanStore.markExecuting
  refine Stable.bind (Stable.raiseIf _ _) fun _ => Stable.bind (loadForUpdate p _) fun plan => ?_
  refine Stable.bind (Stable.raiseIf _ _) fun _ => Stable.bind (await trivial) fun now => ?_
  exact Stable.bind (Stable.raiseIf _ _) fun _ => Stable.bind modify fun _ => await trivial

theorem finish (p : PlanId) (status : PlanState) (result : List (String × Json)) :
    In (PlanStore.finish p status result : Tx T Unit) := by
  unfold PlanStore.finish
  refine Stable.bind (Stable.raiseIf _ _) fun _ => Stable.bind (loadForUpdate p _) fun plan => ?_
  refine Stable.bind (Stable.raiseIf _ _) fun _ => Stable.bind (await trivial) fun now => ?_
  exact Stable.bind modify fun _ => await trivial

theorem saveRows (draft : Option ActionPlanDraft) (a : AccountId) (actor source : String)
    (correlationId : String) (preview : Json) :
    In (IdlePreviewStore.saveRows draft a actor source correlationId preview :
      Tx T (Option PlanId)) := by
  unfold IdlePreviewStore.saveRows IdlePreviewStore.insertPlan
  refine Stable.bind ?_ fun planId => Stable.bind modify fun _ => Stable.pure _
  cases draft with
  | none => exact Stable.pure _
  | some d =>
    exact Stable.bind (await trivial) fun _ => Stable.bind modify fun _ =>
      Stable.bind (await trivial) fun _ => Stable.pure _

theorem auditActor (actor : Actor) : In (PlaceGame.auditActor actor : Action T (String × String)) :=
  Stable.bind (Stable.raiseIf _ _) fun _ => Stable.bind (Stable.raiseIf _ _) fun _ =>
    Stable.bind (Stable.raiseIf _ _) fun _ => Stable.pure _

theorem update (p : PlanId) (u : PlanUpdate) : In (PlanStore.update p u : Tx T Unit) := by
  unfold PlanStore.update
  exact modify

theorem claimRow (a : AccountId) (p : PlanId) (owner : Nat) (now : Time)
    (actor source correlationId : String) (recovery : Bool) :
    In (IdleExecutionClaims.claimRow a p owner now actor source correlationId recovery :
      Tx T Claim) := by
  unfold IdleExecutionClaims.claimRow
  refine Stable.bind (loadForUpdate p _) fun plan => Stable.ite _ ?_ ?_
  · exact Stable.bind (Stable.raiseIf _ _) fun _ => Stable.bind (Stable.raiseIf _ _) fun _ =>
      Stable.bind (update p _) fun _ => Stable.bind modify fun _ => Stable.pure _
  · exact Stable.bind (Stable.raiseIf _ _) fun _ => Stable.bind (update p _) fun _ =>
      Stable.bind modify fun _ => Stable.pure _

theorem claimFinish (claim : Claim) (state : PlanState) (actor : Actor) (correlationId : String)
    (result : Json) :
    In (IdleExecutionClaims.finish claim state actor correlationId result : Action T Unit) := by
  unfold IdleExecutionClaims.finish
  refine Stable.bind (auditActor actor) fun source => sessions.transaction ?_
  unfold IdleExecutionClaims.finishRow
  refine Stable.bind (loadForUpdate _ _) fun plan => Stable.bind (Stable.raiseIf _ _) fun _ => ?_
  exact Stable.bind (await trivial) fun _ => Stable.bind (update _ _) fun _ => modify

theorem requireReconciliation (claim : Claim) (actor : Actor) (correlationId : String) :
    In (IdleExecuteUseCase.requireReconciliation claim actor correlationId :
      Action T IdleExecution) :=
  Stable.bind (claimFinish _ _ _ _ _) fun _ => Stable.raise _

theorem settle (a : AccountId) (claim : Claim) (actor : Actor) (correlationId : String)
    (outcome : IdleExecuteUseCase.Outcome) :
    In (IdleExecuteUseCase.settle a claim actor correlationId outcome :
      Action T IdleExecution) := by
  cases outcome with
  | preconditionFailed => exact Stable.bind (claimFinish _ _ _ _ _) fun _ => Stable.raise _
  | reconciliationRequired => exact requireReconciliation _ _ _
  | reconciled => exact Stable.bind (claimFinish _ _ _ _ _) fun _ => Stable.pure _
  | executed => exact Stable.bind (claimFinish _ _ _ _ _) fun _ => Stable.pure _

variable (P : Ports)

theorem recover (a : AccountId) (claim : Claim) (actor : Actor) (correlationId : String) :
    In (IdleExecuteUseCase.recover P a claim actor correlationId : Action T IdleExecution) := by
  unfold IdleExecuteUseCase.recover
  refine Stable.bind (locked_stable P actor (accountSessions a) fun locked => ?_) fun found => ?_
  · unfold IdleExecuteUseCase.proven
    exact Stable.bind (await trivial) fun _ => Stable.pure _
  · exact Stable.ite _ (Stable.bind (claimFinish _ _ _ _ _) fun _ => Stable.pure _)
      (requireReconciliation _ _ _)

theorem preview (a : AccountId) (actor : Actor) (correlationId : String) :
    In (IdlePlanUseCase.preview P a actor correlationId : Action T IdlePreview) := by
  unfold IdlePlanUseCase.preview
  refine Stable.bind (Stable.raiseIf _ _) fun _ => ?_
  refine Stable.bind (locked_stable P actor (accountSessions a) fun locked => ?_) fun found => ?_
  · unfold IdlePlanUseCase.draftLocked
    exact Stable.bind (await trivial) fun _ => Stable.bind (await trivial) fun _ => Stable.pure _
  · refine Stable.bind ?_ fun _ => Stable.pure _
    unfold IdlePreviewStore.save
    refine Stable.bind (Stable.raiseIf _ _) fun _ => ?_
    refine Stable.bind (auditActor actor) fun _ => ?_
    exact sessions.transaction (saveRows _ _ _ _ _ _)

end Plans

theorem returning {wrap : α → Returned T} {c : Action T α} (h : In c) :
    In (PlaceGame.returning wrap c) :=
  Stable.bind h fun _ => Stable.pure _

/-- A call that is no `mutate` and no `execute` sends nothing. -/
theorem run (P : Ports) {call : Call} (h : ¬ call.Sends) :
    In (call.run P : Action T (Returned T)) := by
  cases call with
  | addCredentials => exact returning (addCredentials_stable P _ sessions (enrols _) _ _ _)
  | addTokenOnly => exact returning (addTokenOnly_stable P _ sessions (enrols _) _ _)
  | updateLabel => exact returning (updateLabel_stable _ (accountSessions _) _)
  | updateCredentials => exact returning (updateCredentials_stable P _ (accountSessions _) _ _)
  | updateTokenOnly => exact returning (updateTokenOnly_stable P _ (accountSessions _) _)
  | enable => exact returning (setLifecycle_stable _ (accountSessions _) _ _ (by decide))
  | disable => exact returning (setLifecycle_stable _ (accountSessions _) _ _ (by decide))
  | pause => exact returning (pause_stable _ (accountSessions _) _)
  | resume => exact returning (resume_stable _ (accountSessions _))
  | disableDrainRemove =>
    exact returning (disableDrainRemove_stable _ (accountSessions _) (drainRemoval _))
  | ensureSession => exact returning (ensureSession_stable P _ (accountSessions _))
  | locked => exact returning (lockedContext_stable P _ (accountSessions _))
  | snapshot => exact returning (snapshot_stable P _ (accountSessions _))
  | mutate args => exact absurd trivial h
  | savePolicy =>
    exact returning (savePolicy_stable _ (accountSessions _) _ _ (saveLocked _ _ _))
  | accountStatus => exact returning (accountStatus_stable P _ (accountSessions _))
  | preview => exact returning (preview P _ _ _)
  | execute => exact absurd trivial h
  | createPlan row => exact returning (sessions.transaction (create row))
  | confirmPlan => exact returning (sessions.transaction (confirm _ _ _))
  | markExecuting => exact returning (sessions.transaction (markExecuting _ _))
  | finishPlan => exact returning (sessions.transaction (finish _ _ _))

end Peaceful

end PlaceGame
