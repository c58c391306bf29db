import PlaceGame.Policy.Ownership

/-!
# PlaceGame.Policy.Collected

A plan that is recorded as executed by the answer of the game was really collected.

The program never sees a collection, only summaries. `World.Accrues` says why two of them suffice:
the idle seconds of an account fall in a collection only, so a summary below an earlier one has a
collection between them. Both summaries of a claimant were read after its claim.
-/

namespace PlaceGame

open Coop

namespace World

variable {w w' w'' : World} {a : AccountId}

/-- Collections are only added, and without a new one the idle seconds do not fall. -/
structure Accrues (a : AccountId) (w w' : World) : Prop where
  collections : w.collections a ≤ w'.collections a
  seconds : w'.collections a = w.collections a → w.validSeconds a ≤ w'.validSeconds a

theorem Accrues.refl (a : AccountId) (w : World) : Accrues a w w := ⟨le_rfl, fun _ => le_rfl⟩

theorem Accrues.trans (h : Accrues a w w') (h' : Accrues a w' w'') : Accrues a w w'' where
  collections := h.collections.trans h'.collections
  seconds heq := by
    have := h.collections
    have := h'.collections
    exact (h.seconds (by omega)).trans (h'.seconds (by omega))

theorem SameRows.accrues (h : SameRows w w') (a : AccountId) : Accrues a w w' := by
  refine ⟨?_, fun _ => ?_⟩
  · rw [h.collections]
  · rw [h.validSeconds]

theorem Env.accrues (h : Env w w') (a : AccountId) : Accrues a w w' := by
  cases h with
  | tick now _ => exact ⟨le_rfl, fun _ => le_rfl⟩
  | accumulate b seconds hle =>
    refine ⟨le_rfl, fun _ => ?_⟩
    show w.validSeconds a ≤ Function.update w.validSeconds b seconds a
    by_cases hab : a = b
    · subst hab
      rw [Function.update_self]
      exact hle
    · rw [Function.update_of_ne hab]
  | collect b seconds =>
    refine ⟨?_, fun heq => ?_⟩
    · show w.collections a ≤ Function.update w.collections b (w.collections b + 1) a
      by_cases hab : a = b
      · subst hab
        rw [Function.update_self]
        omega
      · rw [Function.update_of_ne hab]
    · show w.validSeconds a ≤ Function.update w.validSeconds b seconds a
      have heq : Function.update w.collections b (w.collections b + 1) a = w.collections a := heq
      by_cases hab : a = b
      · subst hab
        rw [Function.update_self] at heq
        omega
      · rw [Function.update_of_ne hab]

end World

/-! ## Summaries -/

variable {T : Type} {P : Ports} {c₀ c c' : Config (machine T P)} {t : TaskId}
variable {U : Task (machine T P)} {w : World} {p : PlanId} {plan : ActionPlan}

theorem Step.accrues (hst : Step c c') (a : AccountId) : World.Accrues a c.world c'.world := by
  rcases hst.world_cases with hsame | henv | ⟨t, hcrash⟩ | ⟨t, U, o, k, r, -, -, -, hperform, -⟩
  · rw [hsame]
    exact .refl a _
  · exact World.Env.accrues henv a
  · rw [hcrash]
    exact ⟨le_rfl, fun _ => le_rfl⟩
  · rcases World.Perform.rows hperform with ⟨ws, -, hworld⟩ | hrows
    · rw [hworld]
      exact ⟨le_rfl, fun _ => le_rfl⟩
    · exact hrows.accrues a

namespace Ledger

variable {m : Ledger} {o : Op T} {r : Except Exc o.Val} {w' : World}

theorem summaries (hp : World.Perform t w o r w') :
    ((m.next o r).claim = m.claim ∧ (m.next o r).idle = m.idle ∧
        (m.next o r).previous = m.previous) ∨
      (∃ a idle, (m.next o r).claim = m.claim ∧ (m.next o r).idle = some (a, idle) ∧
        (m.next o r).previous = m.idle ∧ idle.validSeconds = w.validSeconds a) ∨
      ((m.next o r).idle = none ∧ (m.next o r).previous = none) := by
  cases o with
  | idleSummary a api =>
    cases r with
    | error e => exact .inl ⟨rfl, rfl, rfl⟩
    | ok idle =>
      refine .inr (.inl ⟨a, idle, rfl, rfl, rfl, ?_⟩)
      rcases hp.effect_or with ⟨reply, h⟩ | ⟨-, h, -⟩
      · simp only [World.effect, Option.some.injEq, Prod.mk.injEq] at h
        cases reply with
        | error e => cases h.1
        | ok found =>
          have hidle : ({ found with validSeconds := w.validSeconds a } : IdleSummary) = idle :=
            Except.ok.inj h.1
          rw [← hidle]
      · cases h
  | commit ws =>
    cases r with
    | error e => exact .inl ⟨rfl, rfl, rfl⟩
    | ok _ =>
      have hnext : m.next (Op.commit (T := T) ws) (.ok ()) = m.committed ws.plans := rfl
      rw [hnext]
      cases hclaim : m.claimOf ws.plans with
      | none =>
        rw [committed_finish hclaim]
        exact .inl ⟨rfl, rfl, rfl⟩
      | some claim =>
        rw [committed_claim hclaim]
        exact .inr (.inr ⟨rfl, rfl⟩)
  | tryExecutionGuard a =>
    rcases r with e | held
    · exact .inl ⟨rfl, rfl, rfl⟩
    · cases held <;> exact .inl ⟨rfl, rfl, rfl⟩
  | planForUpdate q a =>
    rcases r with e | found
    · exact .inl ⟨rfl, rfl, rfl⟩
    · cases found <;> exact .inl ⟨rfl, rfl, rfl⟩
  | _ => cases r <;> exact .inl ⟨rfl, rfl, rfl⟩

end Ledger

theorem redact_executedResult (b : Bool) :
    redact (IdleExecuteUseCase.executedResult b) = IdleExecuteUseCase.executedResult b := by
  have hstatus : isSensitiveKey "status" = false := by decide +kernel
  have hreconciled : isSensitiveKey "reconciled" = false := by decide +kernel
  have hcollected : isSensitiveKey "collected" = false := by decide +kernel
  have htext : truncate "executed" = "executed" := by decide +kernel
  simp [IdleExecuteUseCase.executedResult, redact, redactFields, hstatus, hreconciled, hcollected,
    htext]

/-- What is recorded says whether the collection was reconciled. -/
theorem reconciled_inj {b b' : Bool} (h : redact (IdleExecuteUseCase.executedResult b) =
    redact (IdleExecuteUseCase.executedResult b')) : b = b' := by
  rw [redact_executedResult, redact_executedResult] at h
  simpa [IdleExecuteUseCase.executedResult] using h

/-! ## Since a configuration -/

/-- What has been collected since `c₀` on behalf of the plan, as far as it can be told from what its
fresh claimants have read and recorded. -/
structure CollectedSince (c₀ : Config (machine T P)) (p : PlanId) (c : Config (machine T P)) :
    Prop where
  accrues : ∀ a, World.Accrues a c₀.world c.world
  read : ∀ t U claim idle, c.task t = some U → (ledgerOf U).claim = some claim →
    claim.planId = p → claim.recovery = false →
    (ledgerOf U).idle = some (claim.plan.accountId, idle) →
    c.world.collections claim.plan.accountId = c₀.world.collections claim.plan.accountId →
      idle.validSeconds ≤ c.world.validSeconds claim.plan.accountId
  fell : ∀ t U claim, c.task t = some U → (ledgerOf U).claim = some claim →
    claim.planId = p → claim.recovery = false → (ledgerOf U).Fell claim →
      c₀.world.collections claim.plan.accountId < c.world.collections claim.plan.accountId
  executed : Undisturbed p c → ∀ plan, c.world.plans.get p = some plan →
    plan.executionState = .executed →
    plan.executionResult = some (redact (IdleExecuteUseCase.executedResult false)) →
      c₀.world.collections plan.accountId < c.world.collections plan.accountId

/-- Nobody holds a claim for a plan that is fresh or not there yet. -/
theorem CollectedSince.refl (hw : w.Sound) (h : Reachable (.start w) c)
    (hfresh : ∀ plan, c.world.plans.get p = some plan → plan.executionState.fresh = true) :
    CollectedSince c p c := by
  have hnone : ∀ t U claim, c.task t = some U → (ledgerOf U).claim = some claim →
      claim.planId = p → claim.recovery = false → False := by
    rintro t U claim ht hclaim rfl hf
    obtain ⟨plan, hp, hrank⟩ := (once_of_reachable hw h).claimed t U claim ht hclaim hf
    have := PlanState.rank_fresh.mp (hfresh plan hp)
    omega
  refine ⟨fun a => .refl a _, fun t U claim _ ht hclaim hplan hf => ?_,
    fun t U claim ht hclaim hplan hf => ?_, fun _ plan hp hs => ?_⟩
  · exact (hnone t U claim ht hclaim hplan hf).elim
  · exact (hnone t U claim ht hclaim hplan hf).elim
  · have := hfresh plan hp
    rw [hs] at this
    cases this

theorem CollectedSince.summaries (h : Reachable (.start w) c) (hs : CollectedSince c₀ p c)
    (hst : Step c c') {U' : Task (machine T P)} {claim : Claimed} (ht : c'.task t = some U')
    (hclaim : (ledgerOf U').claim = some claim) (hplan : claim.planId = p)
    (hfresh : claim.recovery = false) :
    (∀ idle, (ledgerOf U').idle = some (claim.plan.accountId, idle) →
      c'.world.collections claim.plan.accountId = c₀.world.collections claim.plan.accountId →
        idle.validSeconds ≤ c'.world.validSeconds claim.plan.accountId) ∧
    ((ledgerOf U').Fell claim →
      c₀.world.collections claim.plan.accountId < c'.world.collections claim.plan.accountId) := by
  have hbefore := hs.accrues claim.plan.accountId
  have hstep := Step.accrues hst claim.plan.accountId
  -- what the claimant had read before the step
  have hkept : ∀ {U}, c.task t = some U → (ledgerOf U).claim = some claim →
      (∀ idle, (ledgerOf U).idle = some (claim.plan.accountId, idle) →
        c'.world.collections claim.plan.accountId = c₀.world.collections claim.plan.accountId →
          idle.validSeconds ≤ c'.world.validSeconds claim.plan.accountId) ∧
      ((ledgerOf U).Fell claim →
        c₀.world.collections claim.plan.accountId < c'.world.collections claim.plan.accountId) := by
    intro U hU hheld
    have := hbefore.collections
    have := hstep.collections
    refine ⟨fun idle hidle heq => ?_, fun hfell => ?_⟩
    · exact (hs.read t U claim idle hU hheld hplan hfresh hidle (by omega)).trans
        (hstep.seconds (by omega))
    · have := hs.fell t U claim hU hheld hplan hfresh hfell
      omega
  rcases task_ledger h hst ht with hnew | ⟨U, hU, -, ⟨-, hsame, -⟩ |
    ⟨o, r, -, -, hperform, -, -, hnext, hmoves⟩⟩
  · rw [hnew] at hclaim
    cases hclaim
  · rw [hsame] at hclaim ⊢
    exact hkept hU hclaim
  rw [hnext] at hclaim ⊢
  rcases Ledger.summaries (m := ledgerOf U) hperform with ⟨hheld, hi, hp⟩ |
    ⟨a, idle, hheld, hi, hp, hread⟩ | ⟨hi, hp⟩
  · obtain ⟨hkread, hkfell⟩ := hkept hU (hheld ▸ hclaim)
    refine ⟨fun idle hidle => hkread idle (hi ▸ hidle), fun ⟨before, after, h₁, h₂, hlt⟩ => ?_⟩
    exact hkfell ⟨before, after, hp ▸ h₁, hi ▸ h₂, hlt⟩
  · have := hbefore.collections
    have := hstep.collections
    refine ⟨fun idle' hidle heq => ?_, fun ⟨before, after, h₁, h₂, hlt⟩ => ?_⟩
    · cases hi.symm.trans hidle
      rw [hread]
      exact hstep.seconds (by omega)
    · cases hi.symm.trans h₂
      by_contra hnone
      have hle : before.validSeconds ≤ idle.validSeconds := by
        rw [hread]
        exact hs.read t U claim before hU (hheld ▸ hclaim) hplan hfresh (hp ▸ h₁) (by omega)
      have := IdleSummary.accumulatedSeconds_mono hle
      omega
  · refine ⟨fun idle hidle => ?_, ?_⟩
    · rw [hi] at hidle
      cases hidle
    · rintro ⟨before, after, hprevious, -⟩
      rw [hp] at hprevious
      cases hprevious

/-- A row that this step makes executed by the answer of the game. -/
theorem CollectedSince.recorded (hw : w.Sound) (h : Reachable (.start w) c)
    (hs : CollectedSince c₀ p c) (hun : Undisturbed p c) {ws : Writes} {plan' : ActionPlan}
    (hedit : PlanEdit c c' p t U ws plan') (hstate : plan'.executionState = .executed)
    (hresult : plan'.executionResult = some (redact (IdleExecuteUseCase.executedResult false))) :
    c₀.world.collections plan'.accountId < c.world.collections plan'.accountId := by
  have ht := hedit.commit.task
  have hchange := hedit.change
  generalize hrow : c.world.plans.get p = row at hchange
  cases hchange with
  | created _ hpending =>
    rw [hstate] at hpending
    cases hpending
  | mutated hcall hnames _ _ =>
    refine (hun t U ht ?_).elim
    rw [hcall]
    exact hnames
  | @updated plan up _ hlocked hsingle =>
    cases up with
    | claimFinished owner state result at_ =>
      obtain ⟨-, -, claim, hmay⟩ := hsingle
      have hproof := hmay.proof hstate
      have hresult : result = redact (IdleExecuteUseCase.executedResult false) :=
        Option.some.inj hresult
      have haccount : plan.accountId = claim.plan.accountId := by
        have hcreation := (owned_of_reachable hw h).creation t U claim ht hmay.held
        rw [hmay.planId, hrow] at hcreation
        exact congrArg PlanCreation.accountId (Option.some.inj hcreation)
      show c₀.world.collections plan.accountId < c.world.collections plan.accountId
      rw [haccount]
      generalize hr : result = recorded at hproof
      cases hproof with
      | fell hfresh hfell => exact hs.fell t U claim ht hmay.held hmay.planId hfresh hfell
      | waits =>
        have := reconciled_inj (hr.symm.trans hresult)
        cases this
    | finished state result at_ =>
      obtain ⟨-, -, result', hcall⟩ := hsingle
      refine (hun t U ht ?_).elim
      rw [hcall]
      rfl
    | claimed => cases hstate
    | recovered owner startedAt lease =>
      have hstate : plan.executionState = .executed := hstate
      have hexecuting := hsingle.2.1
      rw [hstate] at hexecuting
      cases hexecuting
    | confirmed => cases hstate
    | markedExecuting => cases hstate

theorem CollectedSince.step (hw : w.Sound) (h : Reachable (.start w) c) (hs : CollectedSince c₀ p c)
    (hst : Step c c') : CollectedSince c₀ p c' where
  accrues a := (hs.accrues a).trans (Step.accrues hst a)
  read _ _ _ idle ht hclaim hplan hfresh hidle heq :=
    (hs.summaries h hst ht hclaim hplan hfresh).1 idle hidle heq
  fell _ _ _ ht hclaim hplan hfresh hfell :=
    (hs.summaries h hst ht hclaim hplan hfresh).2 hfell
  executed hun plan hp hstate hresult := by
    refine lt_of_lt_of_le ?_ (Step.accrues hst plan.accountId).collections
    rcases plan_step hw h hst p with hsame | ⟨plan', t, U, ws, hget, hedit⟩
    · exact hs.executed (hun.before hst) plan (hsame ▸ hp) hstate hresult
    · cases hget.symm.trans hp
      exact hs.recorded hw h (hun.before hst) hedit hstate hresult

/-- A plan that is recorded as executed by the answer of the game has been collected for its account
since it was fresh, whatever ran, failed or was interrupted in between. -/
theorem collection_applied (hw : w.Sound) (h : Reachable (.start w) c) (hrun : Reachable c c')
    (hfresh : ∀ plan, c.world.plans.get p = some plan → plan.executionState.fresh = true)
    (hun : Undisturbed p c') (hp : c'.world.plans.get p = some plan)
    (hstate : plan.executionState = .executed)
    (hresult : plan.executionResult = some (redact (IdleExecuteUseCase.executedResult false))) :
    c.world.collections plan.accountId < c'.world.collections plan.accountId := by
  have hsince : Reachable (.start w) c' ∧ CollectedSince c p c' := by
    refine Reachable.invariant hrun (fun c' => Reachable (.start w) c' ∧ CollectedSince c p c')
      ⟨h, .refl hw h hfresh⟩ fun _ _ _ hs hst => ?_
    exact ⟨hs.1.tail hst, hs.2.step hw hs.1 hst⟩
  exact hsince.2.executed hun plan hp hstate hresult

/-- The row of the executed plan: its account, its state and whether it was reconciled. -/
def verdictView (plan : ActionPlan) : AccountId × PlanState × Option Bool :=
  (plan.accountId, plan.executionState, plan.executionResult.bind fun result =>
    match result with
    | .obj [_, (_, .bool reconciled), _] => some reconciled
    | _ => none)

theorem executedRun_collected : idleWorld.collections 0 < executedRun.world.collections 0 := by
  have hview : (executedRun.world.plans.get 1).map verdictView =
      some (0, .executed, some false) := by decide +kernel
  obtain ⟨e, ⟨plan, hp, hstate, hresult⟩, -⟩ := executedRun_recorded
  rw [hp, Option.map_some, verdictView, hresult, redact_executedResult] at hview
  simp only [IdleExecuteUseCase.executedResult, Option.bind_some, Option.some.injEq,
    Prod.mk.injEq] at hview
  obtain ⟨haccount, -, hreconciled⟩ := hview
  rw [hreconciled] at hresult
  rw [← haccount]
  refine collection_applied sound_idleWorld .refl reachable_executedRun (fun row hrow => ?_)
    (undisturbed_executedRun 1) hp hstate hresult
  cases hrow
  rfl

end PlaceGame
