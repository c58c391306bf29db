import PlaceGame.Policy.Verdicts

/-!
# PlaceGame.Policy.Confirmation

A plan that requires a confirmation is not acted on without one.

`confirm` is the only writer of `confirmed_at`, and every way to act on a plan looks at it: a claim
takes no plan that requires a confirmation, `mark_executing` starts a confirmed one, and `mutate`
checks what it has read. `PostgresPlanStore.finish` alone looks at nothing, so a direct call of it
can record an unconfirmed plan as executed.
-/

namespace PlaceGame

open Coop

variable {T : Type}

namespace ActionPlan

def Consented (plan : ActionPlan) : Prop :=
  plan.confirmationRequired = true →
    plan.confirmedAt.isSome = true ∧ plan.confirmedBy.isSome = true

/-- What a row that is not executed says about its confirmation. -/
structure Agreed (plan : ActionPlan) : Prop where
  signed : plan.confirmedAt.isSome = true → plan.confirmedBy.isSome = true
  begun : plan.executionState = .confirmed ∨ plan.executionState = .executing → plan.Consented

theorem Consented.advances {plan plan' : ActionPlan} (h : plan.Consented)
    (ha : plan.Advances plan') : plan'.Consented := by
  intro hr
  have hsame := congrArg PlanCreation.confirmationRequired ha.creation
  obtain ⟨hat, hby⟩ := h (hsame.symm.trans hr)
  exact ⟨ha.confirmedAt hat, ha.confirmedBy hby⟩

end ActionPlan

/-! ## What a call writes about confirmations -/

/-- A new plan is unconfirmed, and `mutate` records its plan as executed after an operation only. The
state says whether the call has invoked one. -/
def confirming (T : Type) (call : Call) : Monitor (sig T) Bool where
  init := false
  next m o _ :=
    match o with
    | .operation _ _ _ => true
    | _ => m
  ok m o :=
    match call, o with
    | .createPlan _, .commit ws => ∀ id plan, ws.newPlan = some (id, plan) → plan.confirmedAt = none
    | .mutate _, .commit ws => m = true ∨ Sender.finalOf ws.plans ≠ some .executed
    | _, _ => True

namespace Confirming

variable {P : Ports} {args : MutateArgs} {σ α : Type} {m : Bool} {f : Frame}

/-- Induction on the program: after an operation there is nothing left to check. -/
theorem late (p : Proc (sig T) α) :
    p.wp (confirming T (.mutate args)) (fun m _ => m = true) true := by
  induction p with
  | ret a => rfl
  | call o k ih =>
    have hnext : ∀ r, (confirming T (.mutate args)).next true o r = true := by
      intro r
      cases o <;> rfl
    refine ⟨?_, fun r _ => ?_⟩
    · cases o <;> first | exact trivial | exact .inl rfl
    · rw [hnext]
      exact ih r

/-- What the session of a `mutate` holds before its operation. -/
def Unsent (m : Bool) (f : Frame) : Prop := m = true ∨ f.plans = []

/-- What a `mutate` may commit. -/
def Commits (m : Bool) (f : Frame) : Prop := m = true ∨ Sender.finalOf f.plans ≠ some .executed

theorem Unsent.commits (h : Unsent m f) : Commits m f := by
  rcases h with h | h
  · exact .inl h
  · rw [Commits, h]
    exact .inr fun hnone => (by cases hnone)

theorem after (c : Coro (sig T) σ α) {s : σ} (h : m = true) :
    c.wp (confirming T (.mutate args)) (fun m _ _ => m = true) m s := by
  rw [h]
  exact late (c s)

abbrev Early (c : Tx T α) (args : MutateArgs) : Prop :=
  Stable (confirming T (.mutate args)) Unsent c

theorem early_await {o : Op T} (ho : ∀ ws, o ≠ .commit ws) : Early (await o : Tx T o.Val) args := by
  refine Stable.await fun m f h => ⟨?_, fun r _ => ?_⟩
  · cases o with
    | commit ws => exact absurd rfl (ho ws)
    | _ => exact trivial
  · rcases h with h | h
    · rw [h]
      left
      cases o <;> rfl
    · exact .inr h

theorem early_plain {c : Tx T α} (hc : Plain args.accountId Op.Quiet c) : Early c args := by
  refine Coro.Keeps.of_only (hc _ (Frame.SamePlans.tame args.accountId)) ?_ ?_
  · intro m f o ho h
    have hawait : Early (await o : Tx T o.Val) args := early_await fun ws hcommit => by
      subst hcommit
      exact ho
    exact hawait m f h
  · rintro m f f' hs (h | h)
    · exact .inl h
    · exact .inr (hs.plans.trans h)

theorem early_modify {g : Frame → Frame} (hg : ∀ f, (g f).plans = f.plans) :
    Early (modifyFrame g : Tx T Unit) args := by
  refine stable_modifyFrame fun m f h => ?_
  rcases h with h | h
  · exact .inl h
  · exact .inr ((hg f).trans h)

theorem requireForUpdate_early (a : AccountId) : Early (requireForUpdate a : Tx T Unit) args := by
  unfold requireForUpdate
  refine Stable.bind (early_await fun _ h => by cases h) fun found => ?_
  split
  · exact Stable.raise _
  · refine early_modify fun f => ?_
    split <;> rfl

theorem requireMutable_early (r : GameAccount) : Early (requireMutable r : Tx T Unit) args :=
  Stable.bind (Stable.bind (Stable.raiseIf _ _) fun _ => Stable.raiseIf _ _) fun _ =>
    Stable.bind (Stable.raiseIf _ _) fun _ => Stable.raiseIf _ _

open Mutate

theorem preparePlan_early (p : PlanId) (policy : VersionedPolicy) (api : GameApi) :
    Early (preparePlan args p policy api : Tx T Unit) args := by
  unfold preparePlan checkPlan
  refine Stable.bind (early_await fun _ h => by cases h) fun found => ?_
  split
  · exact Stable.raise _
  · refine Stable.bind (early_modify fun _ => rfl) fun _ => ?_
    refine Stable.bind (Stable.raiseIf _ _) fun _ => ?_
    refine Stable.bind (early_modify fun _ => rfl) fun _ => Stable.bind ?_ fun _ => ?_
    · exact Stable.bind (early_await fun _ h => by cases h) fun _ => Stable.raiseIf _ _
    · exact Stable.bind (Stable.raiseIf _ _) fun _ =>
        Stable.bind (early_await fun _ h => by cases h) fun _ => Stable.raiseIf _ _

theorem prepare_early : Early (prepare P args : Tx T GameApi) args := by
  unfold prepare
  refine Stable.bind (early_modify fun _ => rfl) fun _ => ?_
  refine Stable.bind (requireForUpdate_early _) fun _ => ?_
  refine Stable.bind (early_modify fun _ => rfl) fun _ => Stable.bind stable_record fun r => ?_
  refine Stable.bind (requireMutable_early r) fun _ => ?_
  refine Stable.bind (early_plain (ensureLocked_plain P _ _)) fun resolution => ?_
  split
  · exact Stable.raise _
  · refine Stable.bind (early_plain (saveSnapshot_plain P _ _ _)) fun _ => ?_
    refine Stable.bind (early_await fun _ h => by cases h) fun policy => ?_
    split
    · exact Stable.pure _
    · exact Stable.bind (preparePlan_early _ _ _) fun _ => Stable.pure _

/-- The operation is invoked first: what follows needs no look. -/
theorem send_early (left : Nat) (api : GameApi) :
    Early (send args left api : Tx T (Option (LoopEnd T))) args := by
  unfold send
  refine Stable.bind (early_modify fun _ => rfl) fun _ => fun m f _ => ?_
  rw [Coro.wp_bind, wp_attempt, wp_await]
  refine ⟨trivial, fun r _ => ?_⟩
  rw [Coro.chain_ok]
  exact Coro.wp_mono (after _ rfl) fun _ _ _ h => Or.inl h

theorem attempts_early (left : Nat) :
    Early (attempts P args left : Tx T (LoopEnd T)) args := by
  induction left with
  | zero => exact Stable.pure _
  | succ left ih =>
    unfold attempts
    refine Stable.bind prepare_early fun api => Stable.bind (send_early left api) fun e => ?_
    split
    · exact Stable.pure _
    · exact ih

theorem finish_commits {p : PlanId} {state : PlanState} (hs : state ≠ .executed)
    (result : List (String × Json)) (h : Unsent m f) :
    (PlanStore.finish p state result : Tx T Unit).wp (confirming T (.mutate args))
      (fun m _ f => Commits m f) m f := by
  have hload : Early (PlanStore.loadForUpdate p none : Tx T ActionPlan) args := by
    unfold PlanStore.loadForUpdate
    refine Stable.bind (early_await fun _ h => by cases h) fun found => ?_
    split
    · exact Stable.raise _
    · exact Stable.bind stable_frame fun _ =>
        Stable.bind (early_modify fun _ => rfl) fun _ => Stable.pure _
  have hclock : Early (clock : Tx T Time) args := early_await fun _ h => by cases h
  unfold PlanStore.finish
  refine (checks_raiseIf _ _).seq (fun _ => h.commits) fun _ _ => ?_
  refine Coro.wp_seq (hload m f h) ?_ fun _ _ _ h => h.commits
  intro m₁ row f₁ h₁
  refine (checks_raiseIf _ _).seq (fun _ => h₁.commits) fun _ _ => ?_
  refine Coro.wp_seq (hclock m₁ f₁ h₁) ?_ fun _ _ _ h => h.commits
  rintro m₂ now f₂ (h₂ | h₂)
  · exact Coro.wp_mono (after _ h₂) fun _ _ _ h => .inl h
  · unfold PlanStore.update
    rw [Coro.wp_bind, wp_modifyFrame, Coro.chain_ok, wp_await]
    refine ⟨trivial, fun r _ => .inr ?_⟩
    show Sender.finalOf (f₂.plans ++ [_]) ≠ _
    rw [h₂]
    exact fun hstate => hs (Option.some.inj hstate)

theorem terminalFor_ne_executed {e : Exc} {sent : Bool} {state : PlanState}
    (h : terminalFor e sent = some state) : state ≠ .executed := by
  unfold terminalFor at h
  split at h
  · cases h
    exact fun h => by cases h
  · split at h <;> cases h
    exact fun h => by cases h

theorem handle_commits (e : Exc) (h : Unsent m f) :
    (handle args e : Tx T Exc).wp (confirming T (.mutate args)) (fun m _ f => Commits m f) m f := by
  have hterminal : (terminalise e (pendingFor e) : Tx T Unit).wp (confirming T (.mutate args))
      (fun m _ f => Commits m f) m f := by
    unfold terminalise
    rw [Coro.wp_bind, wp_frame, Coro.chain_ok]
    split
    · rename_i hfor
      split
      · exact finish_commits (terminalFor_ne_executed hfor) _ h
      · exact h.commits
    · exact h.commits
  unfold handle auditMutate
  exact Coro.wp_seq hterminal (fun _ _ _ h => h) fun _ _ _ h => h

theorem body_commits :
    (body P args : Tx T (Except Exc (LoopEnd T))).wp (confirming T (.mutate args))
      (fun m _ f => Commits m f) false {} := by
  have hlock : Early (await (.accountLock args.accountId) : Tx T Unit) args :=
    early_await fun _ h => by cases h
  unfold body
  refine Coro.wp_seq (hlock false {} (.inr rfl)) ?_ fun _ _ _ h => h.commits
  intro m₁ _ f₁ h₁
  refine wp_try (attempts_early 3 m₁ f₁ h₁) ?_
  rintro m₂ (e | out) f₂ h₂
  · dsimp only
    split
    · exact Coro.wp_seq (handle_commits e h₂) (fun _ _ _ h => h) fun _ _ _ h => h
    · exact h₂.commits
  · exact h₂.commits

theorem mutate_confirms :
    (AccountService.mutate P args : Action T (MutationOutcome T)).wp (confirming T (.mutate args))
      (fun _ _ _ => True) false () := by
  have hrolls : ∀ (m : Bool) (e : Exc), RollsBack (σ := Unit) (confirming T (.mutate args))
      (fun _ (_ : Except Exc (Except Exc (LoopEnd T))) _ => True) m e () :=
    fun m e => ⟨trivial, fun r _ => by cases r <;> exact trivial⟩
  unfold AccountService.mutate
  refine Coro.wp_seq (R := fun _ _ _ => True) ?_ ?_ fun _ _ _ _ => trivial
  · refine wp_transaction body_commits (fun m out f h => ⟨h, fun r _ => ?_⟩)
      fun _ _ _ _ => hrolls _ _
    cases r with
    | ok _ => exact trivial
    | error e => exact hrolls _ _
  · intro m out s _
    split <;> exact trivial

theorem create_confirms (row : ActionPlan) :
    (transaction (PlanStore.create row) : Action T PlanId).wp (confirming T (.createPlan row))
      (fun _ _ _ => True) false () := by
  have hrolls : ∀ (m : Bool) (e : Exc), RollsBack (σ := Unit) (confirming T (.createPlan row))
      (fun _ (_ : Except Exc PlanId) _ => True) m e () :=
    fun m e => ⟨trivial, fun r _ => by cases r <;> exact trivial⟩
  have hbody : (PlanStore.create row : Tx T PlanId).wp (confirming T (.createPlan row))
      (fun _ _ f => ∀ id plan, f.newPlan = some (id, plan) → plan.confirmedAt = none) false {} := by
    unfold PlanStore.create
    rw [Coro.wp_bind, wp_await]
    refine ⟨trivial, fun r _ => ?_⟩
    cases r with
    | error e => exact fun _ _ h => by cases h
    | ok id =>
      rw [Coro.chain_ok, Coro.wp_bind, wp_modifyFrame, Coro.chain_ok, Coro.wp_bind, wp_await]
      refine ⟨trivial, fun r _ => ?_⟩
      cases r <;> exact fun _ _ h => by cases h; rfl
  refine wp_transaction hbody (fun m out f h => ⟨h, fun r _ => ?_⟩) fun _ _ _ _ => hrolls _ _
  cases r with
  | ok _ => exact trivial
  | error e => exact hrolls _ _

theorem watched (P : Ports) :
    Reachable.Watched (machine T P) (confirming T) (fun _ _ _ => True) where
  prog call := by
    refine Coro.wp_toProc.mpr ?_
    cases call with
    | mutate args =>
      exact Coro.wp_seq mutate_confirms (fun _ _ _ _ => trivial) fun _ _ _ _ => trivial
    | createPlan row =>
      exact Coro.wp_seq (create_confirms row) (fun _ _ _ _ => trivial) fun _ _ _ _ => trivial
    | _ => exact Proc.wp_of_lax (fun _ o => by cases o <;> exact trivial) _
  ans _ _ _ _ _ _ _ _ := trivial

end Confirming

section Updates

variable {m : Ledger} {call : Call} {p : PlanId} {plan plan' : ActionPlan} {u : PlanUpdate}

theorem Ledger.Single.agreed (h : m.Single call p plan u) (ha : plan.Agreed) :
    (u.apply plan).Agreed where
  signed := by
    cases u with
    | confirmed at_ by_ => exact fun _ => rfl
    | _ => exact ha.signed
  begun := by
    cases u with
    | recovered owner startedAt lease => exact ha.begun
    | claimed owner startedAt lease attempts =>
      have hvalid := h.2.1
      unfold IdleExecutionClaims.validFresh at hvalid
      simp only [Bool.and_eq_true, Bool.not_eq_true'] at hvalid
      intro _ hr
      have hr : plan.confirmationRequired = true := hr
      rw [hvalid.1.2] at hr
      cases hr
    | claimFinished owner state result at_ =>
      obtain ⟨claim, hmay⟩ := h.2.2
      have hterminal := hmay.terminal
      rintro (hs | hs)
      · rw [show state = _ from hs] at hterminal
        cases hterminal
      · rw [show state = _ from hs] at hterminal
        cases hterminal
    | confirmed at_ by_ => exact fun _ _ => ⟨rfl, rfl⟩
    | markedExecuting =>
      intro _ hr
      rcases h with hstate | ⟨-, hfree⟩
      · exact ha.begun (.inl hstate) hr
      · rw [show plan.confirmationRequired = true from hr] at hfree
        cases hfree
    | finished state result at_ =>
      have hterminal := h.2.1
      rintro (hs | hs)
      · rw [show state = _ from hs] at hterminal
        cases hterminal
      · rw [show state = _ from hs] at hterminal
        cases hterminal

/-- A single update that records the plan as executed ends a started one, or is a direct `finish`. -/
theorem Ledger.Single.executes (h : m.Single call p plan u) (ha : plan.Agreed)
    (he : (u.apply plan).executionState = .executed) :
    (u.apply plan).Consented ∨ ∃ result given at_,
      u = .finished .executed given at_ ∧ call = .finishPlan p .executed result := by
  cases u with
  | recovered owner startedAt lease =>
    have he : plan.executionState = .executed := he
    rw [h.2.1] at he
    cases he
  | claimFinished owner state result at_ => exact .inl (ha.begun (.inr h.1))
  | finished state result at_ =>
    obtain ⟨-, -, given, hcall⟩ := h
    obtain rfl : state = .executed := he
    exact .inr ⟨given, result, at_, rfl, hcall⟩
  | _ => cases he

theorem ActionPlan.Ends.agreed (h : plan.Ends plan') (ha : plan.Agreed) : plan'.Agreed := by
  obtain ⟨state, result, at_, hterminal, rfl⟩ := h
  refine ⟨ha.signed, ?_⟩
  rintro (hs | hs)
  · rw [show state = _ from hs] at hterminal
    cases hterminal
  · rw [show state = _ from hs] at hterminal
    cases hterminal

end Updates

/-! ## Over all runs -/

section Runs

variable {P : Ports} {c c' : Config (machine T P)} {t : TaskId} {U : Task (machine T P)}
variable {w : World} {p : PlanId} {plan plan' : ActionPlan}

/-- A plan in the reading of a task was in it before, or has just been read. -/
theorem plan_of_perform {m : Local} {w w' : World} {o : Op T} {r : Except Exc o.Val}
    (hw : World.Perform t w o r w') (h : (m.next o r).plan = some (p, plan)) :
    m.plan = some (p, plan) ∨ w.plans.get p = some plan := by
  cases r with
  | error e =>
    rcases next_error (m := m) (o := o) e with hn | hn
    · rw [hn] at h
      exact .inl h
    · rw [hn] at h
      cases h
  | ok v =>
    cases o with
    | getPlan q =>
      cases v with
      | none => exact .inl h
      | some found =>
        cases h
        exact .inr (Sender.got_plan hw rfl)
    | accountForUpdate a =>
      cases v with
      | none => exact .inl h
      | some row => cases h
    | flushIdentity a g => cases v <;> exact .inl h
    | planForUpdate q a => cases v <;> exact .inl h
    | stateFingerprint q api => cases v <;> exact .inl h
    | commit ws => cases h
    | rollback => cases h
    | _ => exact .inl h

/-- A plan that a task has read is still there, and has only advanced since. -/
theorem recalled (hw : w.Sound) (h : Reachable (.start w) c) (ht : c.task t = some U)
    (hp : (seen U).plan = some (p, plan)) :
    ∃ row, c.world.plans.get p = some row ∧ plan.Advances row := by
  refine Reachable.invariant h (fun c => ∀ t U, c.task t = some U →
    (seen U).plan = some (p, plan) → ∃ row, c.world.plans.get p = some row ∧ plan.Advances row)
    (fun _ _ ht => by cases ht) ?_ t U ht hp
  intro c c' hreach ih hst t U' ht' hp'
  have hkept : ∀ {row}, c.world.plans.get p = some row → plan.Advances row →
      ∃ row', c'.world.plans.get p = some row' ∧ plan.Advances row' := by
    intro row hrow hadvances
    obtain ⟨row', hrow', hmore, -⟩ := plan_advances_step hw hreach hst hrow
    exact ⟨row', hrow', hadvances.trans hmore⟩
  rcases hst.task_cases ht' with ⟨-, hnew⟩ |
    ⟨U, hU, hcall, ⟨hhist, -⟩ | ⟨o, k, r, -, -, hperform, rfl⟩⟩
  · rw [hnew] at hp'
    cases hp'
  · have hsame : seen U' = seen U := by
      unfold seen
      rw [hcall, hhist]
    obtain ⟨row, hrow, hadvances⟩ := ih t U hU (hsame ▸ hp')
    exact hkept hrow hadvances
  · rcases plan_of_perform hperform hp' with hread | hrow
    · obtain ⟨row, hrow, hadvances⟩ := ih t U hU hread
      exact hkept hrow hadvances
    · exact hkept hrow (.refl plan)

def invoked (U : Task (machine T P)) : Bool := (confirming T U.call).after U.hist

theorem confirms_allowed (h : Reachable (.start w) c) (ht : c.task t = some U) {o : Op T}
    {k : Except Exc o.Val → Proc (sig T) (Except Exc (Returned T))} (hp : U.prog = .call o k) :
    (confirming T U.call).ok (invoked U) o :=
  Reachable.Follows.allowed (Reachable.follows (Confirming.watched P) h t U ht) hp

theorem created_unconfirmed (h : Reachable (.start w) c) (ht : c.task t = some U) {ws : Writes}
    {k : Except Exc Unit → Proc (sig T) (Except Exc (Returned T))}
    (hp : U.prog = .call (.commit ws) k) (hnew : ws.newPlan = some (p, plan))
    (hd : (ledgerOf U).Drafts P plan U.call) : plan.confirmedAt = none := by
  have hok := confirms_allowed h ht hp
  generalize U.call = call at hok hd
  cases call with
  | createPlan row => exact hok p plan hnew
  | preview a actor correlationId =>
    obtain ⟨idle, policy, now, draft, -, -, -, rfl⟩ := hd
    rfl
  | _ => exact hd.elim

/-- A direct call of `PostgresPlanStore.finish` has recorded the plan as executed. -/
def FinishedDirectly (p : PlanId) (c : Config (machine T P)) : Prop :=
  ∃ t U result ws r, c.task t = some U ∧ U.call = .finishPlan p .executed result ∧
    (⟨.commit ws, r⟩ : Event (sig T)) ∈ U.hist ∧ Sender.finalOf ws.plans = some .executed

theorem FinishedDirectly.step (h : FinishedDirectly p c) (hst : Step c c') :
    FinishedDirectly p c' := by
  obtain ⟨t, U, result, ws, r, hU, hcall, hcommit, hfinal⟩ := h
  obtain ⟨U', hU', hsame, hhist⟩ := hst.keeps hU
  exact ⟨t, U', result, ws, r, hU', hsame.trans hcall, hhist hcommit, hfinal⟩

/-- What every row says about its confirmation, and what a `mutate` knows that has invoked its
operation. -/
structure Confirmations (c : Config (machine T P)) : Prop where
  agreed : ∀ p plan, c.world.plans.get p = some plan → plan.Agreed
  executed : ∀ p plan, c.world.plans.get p = some plan → plan.executionState = .executed →
    plan.Consented ∨ FinishedDirectly p c
  acted : ∀ t U args p, c.task t = some U → U.call = .mutate args → args.planId = some p →
    invoked U = true → ∃ plan, c.world.plans.get p = some plan ∧ plan.Consented

/-- The state that a `mutate` gives to its plan is the one that it commits. -/
theorem mutated_state (hw : w.Sound) (h : Reachable (.start w) c) (hst : Step c c') {ws : Writes}
    (hcommit : Committing c c' t U ws) {args : MutateArgs} (hcall : U.call = .mutate args)
    (hplan : args.planId = some p) (hp : c.world.plans.get p = some plan)
    (hp' : c'.world.plans.get p = some plan') :
    plan' = plan ∨ Sender.finalOf ws.plans = some plan'.executionState := by
  obtain ⟨r, q, hafter⟩ := hcommit.after
  obtain ⟨k, ha, hk, hperform⟩ := hst.finished hcommit.task hafter rfl
  have hsettles : (senderOf U).Settles args p ws :=
    sends_allowed h hcommit.task hk args p hcall hplan
  rcases hperform.rows with ⟨ws', heq, hworld⟩ | hrows
  · cases heq
    have hget : c'.world.plans.get p = (ws.plans.foldl World.updatePlan c.world.plans).get p := by
      rw [hworld]
      rcases World.get_store (ws.plans.foldl World.updatePlan c.world.plans) ws.newPlan p with
        ⟨hsame, -⟩ | ⟨new, hnew, -⟩
      · exact hsame
      · have hnone := insert_fresh hw h hcommit.task ha hk p new hnew
        rw [hp] at hnone
        cases hnone
    rw [hp'] at hget
    rcases hsettles.plans with hnil | ⟨state, result, at_, hwrites, -⟩
    · rw [hnil, List.foldl_nil, hp] at hget
      exact .inl (Option.some.inj hget)
    · rw [hwrites, List.foldl_cons, List.foldl_nil, World.get_updatePlan, if_pos rfl, hp] at hget
      right
      rw [hwrites, Option.some.inj hget]
      rfl
  · have hsame := congrArg (fun rows => Table.get rows p) hrows.plans
    left
    rw [hp', hp] at hsame
    exact Option.some.inj hsame

theorem Confirmations.row (hw : w.Sound) (h : Reachable (.start w) c) (hs : Confirmations c)
    (hst : Step c c') (hp' : c'.world.plans.get p = some plan') :
    plan'.Agreed ∧ (plan'.executionState = .executed →
      plan'.Consented ∨ FinishedDirectly p c') := by
  have hsame : c.world.plans.get p = some plan' →
      plan'.Agreed ∧ (plan'.executionState = .executed →
        plan'.Consented ∨ FinishedDirectly p c') := by
    intro hp
    refine ⟨hs.agreed p plan' hp, fun he => ?_⟩
    rcases hs.executed p plan' hp he with hconsented | hdirect
    · exact .inl hconsented
    · exact .inr (hdirect.step hst)
  rcases plan_step hw h hst p with hstill | ⟨plan₁, t, U, ws, hget, hedit⟩
  · exact hsame (hstill.symm.trans hp')
  rw [hp'] at hget
  cases hget
  have hchange := hedit.change
  obtain ⟨k, hk⟩ := hedit.commit.next
  obtain ⟨r, q, hafter⟩ := hedit.commit.after
  generalize hold : c.world.plans.get p = old at hchange
  cases hchange with
  | created hnew hpending hdrafts =>
    have hnone := created_unconfirmed h hedit.commit.task hk hnew hdrafts
    refine ⟨⟨fun hat => ?_, fun hstate => ?_⟩, fun he => ?_⟩
    · rw [hnone] at hat
      cases hat
    · rcases hstate with hstate | hstate <;> rw [hpending] at hstate <;> cases hstate
    · rw [hpending] at he
      cases he
  | updated hwrites hlocked hsingle =>
    have hagreed := hs.agreed p _ hold
    refine ⟨hsingle.agreed hagreed, fun he => ?_⟩
    rcases hsingle.executes hagreed he with
      hconsented | ⟨result, given, at_, rfl, hcall⟩
    · exact .inl hconsented
    · refine .inr ⟨t, _, result, ws, r, hafter, hcall, List.mem_cons_self, ?_⟩
      rw [hwrites]
      rfl
  | @mutated plan _ args hnames hplanId _ hends =>
    refine ⟨hends.agreed (hs.agreed p plan hold), fun he => ?_⟩
    rcases mutated_state hw h hst hedit.commit hnames hplanId hold hp' with rfl | hfinal
    · exact (hsame hold).2 he
    · have hok := confirms_allowed h hedit.commit.task hk
      rw [hnames] at hok
      rw [he] at hfinal
      rcases hok with hinvoked | hother
      · obtain ⟨row, hrow, hconsented⟩ := hs.acted t U args p hedit.commit.task hnames hplanId hinvoked
        rw [hold] at hrow
        cases hrow
        exact .inl (hconsented.advances hends.advances)
      · exact absurd hfinal hother

/-- A `mutate` that invokes its operation has read a plan that it may act on. -/
theorem consented_of_operation (hw : w.Sound) (h : Reachable (.start w) c) (hs : Confirmations c)
    (ht : c.task t = some U) {a : AccountId} {api : GameApi}
    {k : Except Exc T → Proc (sig T) (Except Exc (Returned T))}
    (hp : U.prog = .call (.operation a (some p) api) k) :
    ∃ plan, c.world.plans.get p = some plan ∧ plan.Consented := by
  have hok : (seen U).ok P U.call (.operation a (some p) api : Op T) := allowed h ht hp
  obtain ⟨-, -, hplanned⟩ := hok
  obtain ⟨policy, plan, now, fingerprint, -, hread, -, -, -, -, hconfirmed, -⟩ := hplanned p rfl
  obtain ⟨row, hrow, hadvances⟩ := recalled hw h ht hread
  refine ⟨row, hrow, fun hr => ?_⟩
  have hsame := congrArg PlanCreation.confirmationRequired hadvances.creation
  have hat := hadvances.confirmedAt (hconfirmed (hsame.symm.trans hr))
  exact ⟨hat, (hs.agreed p row hrow).signed hat⟩

theorem Confirmations.step (hw : w.Sound) (h : Reachable (.start w) c) (hs : Confirmations c)
    (hst : Step c c') : Confirmations c' where
  agreed p plan hp := (hs.row hw h hst hp).1
  executed p plan hp := (hs.row hw h hst hp).2
  acted t U' args p ht' hcall hplan hinvoked := by
    have hkept : (∃ plan, c.world.plans.get p = some plan ∧ plan.Consented) →
        ∃ plan, c'.world.plans.get p = some plan ∧ plan.Consented := by
      rintro ⟨plan, hp, hconsented⟩
      obtain ⟨plan', hp', hadvances, -⟩ := plan_advances_step hw h hst hp
      exact ⟨plan', hp', hconsented.advances hadvances⟩
    rcases hst.task_cases ht' with ⟨-, hnew⟩ | ⟨U, hU, hsame, ⟨hhist, -⟩ | ⟨o, k, r, -, hk, -, rfl⟩⟩
    · rw [hnew] at hinvoked
      cases hinvoked
    · have heq : invoked U' = invoked U := by
        unfold invoked
        rw [hsame, hhist]
      exact hkept (hs.acted t U args p hU (hsame ▸ hcall) hplan (heq ▸ hinvoked))
    · by_cases ho : ∃ a q api, o = .operation a q api
      · obtain ⟨a, q, api, rfl⟩ := ho
        obtain ⟨args', hargs, hmay⟩ := sends_allowed h hU hk
        rw [show U.call = .mutate args from hcall] at hargs
        cases hargs
        have hq : q = some p := hmay.planId.symm.trans hplan
        subst hq
        exact hkept (consented_of_operation hw h hs hU hk)
      · have hstill : invoked U = true := by
          have hnext : (confirming T U.call).next (invoked U) o r = true := hinvoked
          cases o with
          | operation a q api => exact absurd ⟨a, q, api, rfl⟩ ho
          | _ => exact hnext
        exact hkept (hs.acted t U args p hU hcall hplan hstill)

theorem confirmations_of_reachable (hw : w.Sound)
    (hs : ∀ p plan, w.plans.get p = some plan →
      plan.Agreed ∧ (plan.executionState = .executed → plan.Consented))
    (h : Reachable (.start w) c) : Confirmations c := by
  refine Reachable.invariant h Confirmations ?_ fun _ _ hr hs hst => hs.step hw hr hst
  exact ⟨fun p plan hp => (hs p plan hp).1, fun p plan hp he => .inl ((hs p plan hp).2 he),
    fun _ _ _ _ ht => by cases ht⟩

/-- A claim is made for a plan that requires no confirmation only. -/
theorem unrequired_of_collect (hw : w.Sound) (h : Reachable (.start w) c) (ht : c.task t = some U)
    (ha : U.alive = true) {a : AccountId} {api : GameApi}
    {k : Except Exc Bool → Proc (sig T) (Except Exc (Returned T))}
    (hk : U.prog = .call (.idleCollect a p api) k) (hp : c.world.plans.get p = some plan) :
    plan.confirmationRequired = false := by
  have hok : (seen U).ok P U.call (.idleCollect a p api : Op T) := allowed h ht hk
  obtain ⟨-, -, policy, row, now, idle, -, hread, -, hvalid, -⟩ := hok
  have hcreation := ((safe_of_reachable hw h).matches_ t U ht ha).planRow p row (some now) hread
  rw [hp] at hcreation
  unfold IdleExecutionClaims.validFresh at hvalid
  simp only [Bool.and_eq_true, Bool.not_eq_true'] at hvalid
  have hsame : plan.confirmationRequired = row.confirmationRequired :=
    congrArg PlanCreation.confirmationRequired (Option.some.inj hcreation)
  exact hsame.trans hvalid.1.2

/-- A plan that requires a confirmation has it when it is confirmed or executing, and when it is
executed, unless a direct `finish` has recorded that. No operation is under way for it without one,
and no collection at all. -/
theorem confirmation_kept (hw : w.Sound)
    (hs : ∀ p plan, w.plans.get p = some plan →
      plan.Agreed ∧ (plan.executionState = .executed → plan.Consented))
    (h : Reachable (.start w) c) (hp : c.world.plans.get p = some plan)
    (hr : plan.confirmationRequired = true) :
    (plan.executionState = .confirmed ∨ plan.executionState = .executing →
      plan.confirmedAt.isSome = true ∧ plan.confirmedBy.isSome = true) ∧
    (plan.executionState = .executed →
      (plan.confirmedAt.isSome = true ∧ plan.confirmedBy.isSome = true) ∨ FinishedDirectly p c) ∧
    ∀ t U a api, c.task t = some U → U.alive = true →
      (U.pending = some (.operation a (some p) api) →
        plan.confirmedAt.isSome = true ∧ plan.confirmedBy.isSome = true) ∧
      U.pending ≠ some (.idleCollect a p api) := by
  have hc := confirmations_of_reachable hw hs h
  refine ⟨fun hstate => (hc.agreed p plan hp).begun hstate hr, fun he => ?_, ?_⟩
  · rcases hc.executed p plan hp he with hconsented | hdirect
    · exact .inl (hconsented hr)
    · exact .inr hdirect
  · intro t U a api ht ha
    refine ⟨fun hpending => ?_, fun hpending => ?_⟩
    · obtain ⟨k, hk⟩ := Task.pending_eq hpending
      obtain ⟨row, hrow, hconsented⟩ := consented_of_operation hw h hc ht hk
      rw [hp] at hrow
      cases hrow
      exact hconsented hr
    · obtain ⟨k, hk⟩ := Task.pending_eq hpending
      have hfree := unrequired_of_collect hw h ht ha hk hp
      rw [hr] at hfree
      cases hfree

end Runs

section Example

/-- The planned account with a plan that has to be confirmed. -/
def requiredWorld : World :=
  { plannedWorld with
    plans := ⟨[(1,
      { accountId := 0
        stateFingerprint := "fp"
        policyVersion := 1
        proposedActions := []
        risk := .low
        expiresAt := Time.minutes 5 })]⟩ }

theorem sound_requiredWorld : requiredWorld.Sound where
  ids := sound_plannedWorld.ids
  planIds p plan h := by
    obtain rfl : p = 1 := by simpa [requiredWorld] using Table.mem_keys h
    decide
  unique := sound_plannedWorld.unique
  reserved := sound_plannedWorld.reserved
  once := sound_plannedWorld.once

theorem requiredWorld_unconfirmed (p : PlanId) (plan : ActionPlan)
    (h : requiredWorld.plans.get p = some plan) :
    plan.Agreed ∧ (plan.executionState = .executed → plan.Consented) := by
  obtain rfl : p = 1 := by simpa [requiredWorld] using Table.mem_keys h
  cases h
  exact ⟨⟨fun hat => (by cases hat), fun hs => (by rcases hs with hs | hs <;> cases hs)⟩,
    fun hs => (by cases hs)⟩

/-- The plan is confirmed and then executed by a `mutate`. -/
def confirmedRun : Config (machine Unit samplePorts) :=
  run (run (.start requiredWorld) 0 (.confirmPlan 1 0 operator) friendlyGame 10) 1
    (.mutate plannedArgs) friendlyGame 30

theorem reachable_confirmedRun : Reachable (.start requiredWorld) confirmedRun :=
  (reachable_run ..).trans (reachable_run ..)

theorem confirmedRun_view : (confirmedRun.world.plans.get 1).map (fun plan =>
    (plan.confirmationRequired, plan.executionState)) = some (true, .executed) := by
  decide +kernel

theorem confirmedRun_indirect : ¬ FinishedDirectly 1 confirmedRun := by
  have hcalls : ∀ t U, confirmedRun.task t = some U → ∀ result,
      U.call ≠ .finishPlan 1 .executed result :=
    calls_of_run (p := fun call => ∀ result, call ≠ .finishPlan 1 .executed result)
      (fun _ h => by cases h)
      (calls_of_run (p := fun call => ∀ result, call ≠ .finishPlan 1 .executed result)
        (fun _ h => by cases h) fun _ _ h => by cases h)
  rintro ⟨t, U, result, ws, r, hU, hcall, -⟩
  exact hcalls t U hU result hcall

theorem confirmedRun_kept : ∃ plan, confirmedRun.world.plans.get 1 = some plan ∧
    plan.confirmedAt.isSome = true ∧ plan.confirmedBy.isSome = true := by
  obtain ⟨plan, hp, hview⟩ := Option.map_eq_some_iff.mp confirmedRun_view
  obtain ⟨hr, hs⟩ := Prod.mk.inj hview
  rcases (confirmation_kept sound_requiredWorld requiredWorld_unconfirmed
    reachable_confirmedRun hp hr).2.1 hs with hconfirmed | hdirect
  · exact ⟨plan, hp, hconfirmed⟩
  · exact absurd hdirect confirmedRun_indirect

end Example

end PlaceGame
