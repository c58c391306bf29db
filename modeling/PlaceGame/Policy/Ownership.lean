import PlaceGame.Policy.Claims

/-!
# PlaceGame.Policy.Ownership

A claimed plan belongs to its claimant.

As long as a task holds a claim and the guard, the row is the one it claimed, column by column, and
what it records in the end stays. `PostgresPlanStore.finish` asks for no claim, so all this is about
plans that no such call names.
-/

namespace PlaceGame

open Coop

variable {T : Type} {P : Ports} {c c' : Config (machine T P)} {t u : TaskId}
variable {U V : Task (machine T P)} {w : World} {p : PlanId}

/-- No call finishes the plan without a claim. -/
def Undisturbed (p : PlanId) (c : Config (machine T P)) : Prop :=
  ∀ t U, c.task t = some U → ¬ U.call.Finishes p

theorem Undisturbed.before (h : Undisturbed p c') (hst : Step c c') : Undisturbed p c := by
  intro t U hU hf
  obtain ⟨U', hU', hsame⟩ := task_stays hst hU
  exact h t U' hU' (by rw [hsame]; exact hf)

theorem Undisturbed.unmutated (h : Undisturbed p c) : Unmutated p c := by
  intro t U args hU hcall hnames
  refine h t U hU ?_
  rw [hcall]
  exact hnames

/-- The task holds the claim and the guard, and has not tried to finish. -/
structure Holder (claim : Claimed) (U : Task (machine T P)) : Prop where
  alive : U.alive = true
  held : (ledgerOf U).claim = some claim
  guard : (ledgerOf U).guard = some claim.plan.accountId
  opened : (ledgerOf U).closing = false

/-- What claims and their records say is so. -/
structure Owned (c : Config (machine T P)) : Prop where
  executing : ∀ t U claim, c.task t = some U → (ledgerOf U).claim = some claim →
    claim.plan.executionState = .executing ∧ claim.plan.executionOwner = some claim.owner
  creation : ∀ t U claim, c.task t = some U → (ledgerOf U).claim = some claim →
    (c.world.plans.get claim.planId).map ActionPlan.creation = some claim.plan.creation
  row : ∀ t U claim, c.task t = some U → Holder claim U → Undisturbed claim.planId c →
    c.world.plans.get claim.planId = some claim.plan
  recorded : ∀ t U claim state result, c.task t = some U → (ledgerOf U).claim = some claim →
    (ledgerOf U).finished = some (state, result) → Undisturbed claim.planId c →
      ∃ plan, c.world.plans.get claim.planId = some plan ∧ plan.executionState = state ∧
        plan.executionResult = some result

/-- No other task can change the row of an open claim: a claimant or a finisher would need the same
guard. -/
theorem Owned.guarded (hw : w.Sound) (h : Reachable (.start w) c) (hs : Owned c) {claim : Claimed}
    (ht : c.task t = some U) (hh : Holder claim U) (hun : Undisturbed claim.planId c)
    (hu : c.task u = some V) (hv : V.alive = true) (hne : u ≠ t) {ws : Writes} {plan' : ActionPlan} :
    ¬ PlanChange P (ledgerOf V) V.call ws claim.planId (some claim.plan) plan' := by
  intro hchange
  obtain ⟨hexecuting, howner⟩ := hs.executing t U claim ht hh.held
  have hmine := (tied_of_reachable hw h t U ht hh.alive).guard _ hh.guard
  have htheirs : (ledgerOf V).guard = some claim.plan.accountId → False := by
    intro hguard
    have := (tied_of_reachable hw h u V hu hv).guard _ hguard
    rw [hmine] at this
    exact hne (Option.some.inj this).symm
  cases hchange with
  | mutated hnames hplan _ _ =>
    refine hun u V hu ?_
    rw [hnames]
    exact hplan
  | @updated _ up _ _ hsingle =>
    cases up with
    | claimed owner startedAt lease attempts =>
      have hvalid := hsingle.2.1
      unfold IdleExecutionClaims.validFresh at hvalid
      simp only [Bool.and_eq_true] at hvalid
      have hfresh := hvalid.1.1.1.1
      rw [hexecuting] at hfresh
      cases hfresh
    | recovered owner startedAt lease => exact htheirs hsingle.1.guard
    | claimFinished owner state result at_ =>
      obtain ⟨-, -, claim', hmay⟩ := hsingle
      have hcreation := hs.creation t U claim ht hh.held
      have hcreation' := hs.creation u V claim' hu hmay.held
      rw [hmay.planId, hcreation] at hcreation'
      have haccount : claim.plan.accountId = claim'.plan.accountId :=
        congrArg PlanCreation.accountId (Option.some.inj hcreation')
      exact htheirs (haccount ▸ hmay.guard)
    | confirmed at_ by_ =>
      have hpending : claim.plan.executionState = .pending := hsingle
      rw [hexecuting] at hpending
      cases hpending
    | markedExecuting =>
      rcases hsingle with hstate | ⟨hstate, -⟩ <;> rw [hexecuting] at hstate <;> cases hstate
    | finished state result at_ =>
      obtain ⟨-, -, result', hcall⟩ := hsingle
      refine hun u V hu ?_
      rw [hcall]
      rfl

/-- Nor does the holder, before it finishes. -/
theorem Holder.keeps {claim : Claimed} {ws : Writes} {plan' : ActionPlan} (hh : Holder claim U)
    (hexecuting : claim.plan.executionState = .executing) (hf : ¬ U.call.Finishes claim.planId)
    (hopen : ∀ claim' state result, ¬ (ledgerOf U).Finishes ws claim' state result) :
    ¬ PlanChange P (ledgerOf U) U.call ws claim.planId (some claim.plan) plan' := by
  intro hchange
  have hclaimed : ∀ {plan : ActionPlan} {owner : Nat} {startedAt lease : Time},
      ¬ (ledgerOf U).MayClaim plan owner startedAt lease := by
    intro plan owner startedAt lease hmay
    have := hmay.claim
    rw [hh.held] at this
    cases this
  cases hchange with
  | mutated hnames hplan _ _ =>
    refine hf ?_
    rw [hnames]
    exact hplan
  | @updated _ up hwrites hlocked hsingle =>
    cases up with
    | claimed owner startedAt lease attempts => exact hclaimed hsingle.1
    | recovered owner startedAt lease => exact hclaimed hsingle.1
    | claimFinished owner state result at_ =>
      obtain ⟨hexec, howner, claim', hmay⟩ := hsingle
      refine hopen claim' state result ⟨⟨claim.plan, at_, ?_, ?_, hexec, ?_⟩, ?_⟩
      · rw [hmay.planId]
        exact hlocked
      · rw [hmay.planId, hmay.owner]
        exact hwrites
      · rw [hmay.owner]
        exact howner
      · rw [hmay.planId, hmay.owner]
        exact hmay
    | confirmed at_ by_ =>
      have hpending : claim.plan.executionState = .pending := hsingle
      rw [hexecuting] at hpending
      cases hpending
    | markedExecuting =>
      rcases hsingle with hstate | ⟨hstate, -⟩ <;> rw [hexecuting] at hstate <;> cases hstate
    | finished state result at_ =>
      obtain ⟨-, -, result', hcall⟩ := hsingle
      refine hf ?_
      rw [hcall]
      rfl

theorem Ledger.Finishes.closes {m : Ledger} {ws : Writes} {claim : Claimed} {state : PlanState}
    {result : Json} (h : m.Finishes ws claim state result) (r : Except Exc Unit) :
    (m.next (Op.commit (T := T) ws) r).closing = true := by
  obtain ⟨hclaim, hfinish⟩ := h.claimOf
  have hended : (m.ended ws.plans).closing = true := by simp [Ledger.ended, hfinish]
  cases r with
  | error e => exact hended
  | ok _ =>
    show (m.committed ws.plans).closing = true
    rw [Ledger.committed_finish hclaim]
    exact hended

theorem claim_before (h : Reachable (.start w) c) (hst : Step c c') {U' : Task (machine T P)}
    {claim : Claimed} (ht : c'.task t = some U') (hc : (ledgerOf U').claim = some claim) :
    ∃ U, c.task t = some U ∧ ((ledgerOf U).claim = some claim ∨
      ∃ ws, U.alive = true ∧ (ledgerOf U).CommitOk P U.call ws ∧ (ledgerOf U).Claims ws claim ∧
        World.Perform t c.world (Op.commit (T := T) ws) (.ok ()) c'.world) := by
  rcases task_ledger h hst ht with hnew | ⟨U, hU, -, ⟨-, hsame, -⟩ |
    ⟨o, r, ha, hok, hperform, -, -, -, hmoves⟩⟩
  · rw [hnew] at hc
    cases hc
  · exact ⟨U, hU, .inl (hsame ▸ hc)⟩
  · refine ⟨U, hU, ?_⟩
    generalize ledgerOf U' = m' at hc hmoves
    cases hmoves with
    | same hkept => exact .inl (hkept ▸ hc)
    | collects _ hnext =>
      rw [hnext] at hc
      exact .inl hc
    | tries _ hkept => exact .inl (hkept ▸ hc)
    | @claims ws claim₁ hclaims hheld =>
      rw [hheld] at hc
      cases hc
      exact .inr ⟨ws, ha, hok, hclaims, hperform⟩

theorem Owned.step_row (hw : w.Sound) (h : Reachable (.start w) c) (hs : Owned c)
    (hst : Step c c') {U' : Task (machine T P)} {claim : Claimed} (ht : c'.task t = some U')
    (hh : Holder claim U') (hun : Undisturbed claim.planId c') :
    c'.world.plans.get claim.planId = some claim.plan := by
  have hun₀ := hun.before hst
  obtain ⟨U, hU, hbefore⟩ := claim_before h hst ht hh.held
  rcases hbefore with hheld | ⟨ws, ha, hok, hclaims, hperform⟩
  · -- the claim was held before: the holder and its row are the same, and nobody can change it
    have hholder : Holder claim U ∧ ∀ ws, (∃ k, U.prog = .call (.commit ws) k) →
        (∃ r p, c'.task t = some (U.advance (Op.commit (T := T) ws) r p)) →
        ∀ claim' state result, ¬ (ledgerOf U).Finishes ws claim' state result := by
      have hnofinish : ∀ ws, (∃ r p, c'.task t = some (U.advance (Op.commit (T := T) ws) r p)) →
          ∀ claim' state result, ¬ (ledgerOf U).Finishes ws claim' state result := by
        rintro ws ⟨r, p, hafter⟩ claim' state result hfinish
        rw [ht] at hafter
        cases hafter
        have hclosed := hfinish.closes (T := T) r
        have hopen : ((ledgerOf U).next (Op.commit (T := T) ws) r).closing = false := hh.opened
        rw [hclosed] at hopen
        cases hopen
      refine ⟨?_, fun ws _ => hnofinish ws⟩
      rcases task_ledger h hst ht with hnew | ⟨U₀, hU₀, -, ⟨-, hsame, halive⟩ |
        ⟨o, r, ha, -, -, -, -, -, hmoves⟩⟩
      · have := hh.held
        rw [hnew] at this
        cases this
      · cases hU.symm.trans hU₀
        exact ⟨halive hh.alive, hheld, hsame ▸ hh.guard, hsame ▸ hh.opened⟩
      · cases hU.symm.trans hU₀
        have hguard := hh.guard
        have hopened := hh.opened
        generalize ledgerOf U' = m' at hguard hopened hmoves
        cases hmoves with
        | same _ _ hclosing _ _ hg =>
          refine ⟨ha, hheld, ?_, hclosing ▸ hopened⟩
          rcases hg with hg | hg | hg
          · exact hg ▸ hguard
          · rw [hg] at hguard
            cases hguard
          · rw [hheld] at hg
            cases hg
        | collects _ hnext =>
          subst hnext
          exact ⟨ha, hheld, hguard, hopened⟩
        | claims hclaims =>
          have := hclaims.unclaimed
          rw [hheld] at this
          cases this
        | tries _ _ _ _ hclosing =>
          rw [hclosing] at hopened
          cases hopened
    obtain ⟨hholder, hnofinish⟩ := hholder
    have hrow := hs.row t U claim hU hholder hun₀
    rcases plan_step hw h hst claim.planId with hsame | ⟨plan', u, V, ws, hget, hedit⟩
    · exact hsame.trans hrow
    · exfalso
      have hchange := hedit.change
      rw [hrow] at hchange
      by_cases hut : u = t
      · subst hut
        cases hU.symm.trans hedit.commit.task
        exact hholder.keeps (hs.executing _ _ _ hU hheld).1 (hun₀ _ _ hU)
          (hnofinish ws hedit.commit.next hedit.commit.after) hchange
      · exact hs.guarded hw h hU hholder hun₀ hedit.commit.task hedit.commit.alive hut hchange
  · obtain ⟨-, -, hrow, -⟩ := claimed_row hw h hU ha hok hclaims hperform
    exact hrow

theorem Owned.step_recorded (hw : w.Sound) (h : Reachable (.start w) c) (hs : Owned c)
    (hst : Step c c') {U' : Task (machine T P)} {claim : Claimed} {state : PlanState}
    {result : Json} (ht : c'.task t = some U') (hc : (ledgerOf U').claim = some claim)
    (hf : (ledgerOf U').finished = some (state, result)) (hun : Undisturbed claim.planId c') :
    ∃ plan, c'.world.plans.get claim.planId = some plan ∧ plan.executionState = state ∧
      plan.executionResult = some result := by
  have hun₀ := hun.before hst
  have hkept : ∀ U, c.task t = some U → (ledgerOf U).claim = some claim →
      (ledgerOf U).finished = some (state, result) →
      ∃ plan, c'.world.plans.get claim.planId = some plan ∧ plan.executionState = state ∧
        plan.executionResult = some result := by
    intro U hU hheld hfinished
    obtain ⟨plan, hp, hstate, hresult⟩ := hs.recorded t U claim state result hU hheld hfinished hun₀
    obtain ⟨-, hterminal, -⟩ := (accounts_of_task h hU).finished state result hfinished
    obtain ⟨plan', hp', -, hsame⟩ := plan_advances_step hw h hst hp
    rw [hsame (by rw [hstate]; exact hterminal) hun₀.unmutated] at hp'
    exact ⟨plan, hp', hstate, hresult⟩
  rcases task_ledger h hst ht with hnew | ⟨U, hU, -, ⟨-, hsame, -⟩ |
    ⟨o, r, ha, hok, hperform, -, -, -, hmoves⟩⟩
  · rw [hnew] at hc
    cases hc
  · exact hkept U hU (hsame ▸ hc) (hsame ▸ hf)
  · generalize ledgerOf U' = m' at hc hf hmoves
    cases hmoves with
    | same hclaim _ _ hfinished => exact hkept U hU (hclaim ▸ hc) (hfinished ▸ hf)
    | collects _ hnext =>
      subst hnext
      exact hkept U hU hc hf
    | claims hclaims _ _ _ _ hfinished =>
      obtain ⟨hclosed, -⟩ := (accounts_of_task h hU).finished state result (hfinished ▸ hf)
      rw [hclaims.closing] at hclosed
      cases hclosed
    | @tries ws r claim₁ state₁ result₁ hfinishes hheld _ _ _ hfinished =>
      rcases hfinished with hsame | ⟨rfl, hrecorded⟩
      · exact hkept U hU (hheld ▸ hc) (hsame ▸ hf)
      · rw [hrecorded] at hf
        cases hf
        rw [hheld, hfinishes.may.held] at hc
        cases hc
        obtain ⟨plan, at_, hlocked, hwrites, -⟩ := hfinishes.found
        obtain ⟨-, hrow⟩ := updated_row hw h hU ha hok hlocked hwrites hperform
        exact ⟨_, hrow, rfl, rfl⟩

theorem Owned.step (hw : w.Sound) (h : Reachable (.start w) c) (hs : Owned c) (hst : Step c c') :
    Owned c' where
  executing t U' claim ht hc := by
    obtain ⟨U, hU, hheld | ⟨ws, -, -, hclaims, -⟩⟩ := claim_before h hst ht hc
    · exact hs.executing t U claim hU hheld
    · exact ⟨hclaims.executing, hclaims.owner⟩
  creation t U' claim ht hc := by
    obtain ⟨U, hU, hheld | ⟨ws, ha, hok, hclaims, hperform⟩⟩ := claim_before h hst ht hc
    · have hcreation := hs.creation t U claim hU hheld
      obtain ⟨plan, hp, hplan⟩ := Option.map_eq_some_iff.mp hcreation
      obtain ⟨plan', hp', hadvances, -⟩ := plan_advances_step hw h hst hp
      rw [hp']
      exact congrArg some (hadvances.creation.trans hplan)
    · obtain ⟨-, -, hrow, -⟩ := claimed_row hw h hU ha hok hclaims hperform
      rw [hrow]
      rfl
  row _ _ _ ht hh hun := hs.step_row hw h hst ht hh hun
  recorded _ _ _ _ _ ht hc hf hun := hs.step_recorded hw h hst ht hc hf hun

theorem owned_of_reachable (hw : w.Sound) (h : Reachable (.start w) c) : Owned c := by
  refine Reachable.invariant h Owned ?_ fun _ _ hr hs hst => hs.step hw hr hst
  exact ⟨fun _ _ _ ht => (by cases ht), fun _ _ _ ht => (by cases ht),
    fun _ _ _ ht => (by cases ht), fun _ _ _ _ _ ht => (by cases ht)⟩

/-- An open claim owns its plan: the row is the claimed one, and no other open claim is about the
account, whatever runs beside it. -/
theorem claimed_plan_owned (hw : w.Sound) (h : Reachable (.start w) c) {claim : Claimed}
    (ht : c.task t = some U) (hh : Holder claim U) :
    claim.plan.executionState = .executing ∧ claim.plan.executionOwner = some claim.owner ∧
      (Undisturbed claim.planId c → c.world.plans.get claim.planId = some claim.plan) ∧
      ∀ u V claim', c.task u = some V → Holder claim' V →
        claim'.plan.accountId = claim.plan.accountId → u = t := by
  have ho := owned_of_reachable hw h
  obtain ⟨hexecuting, howner⟩ := ho.executing t U claim ht hh.held
  refine ⟨hexecuting, howner, ho.row t U claim ht hh, fun u V claim' hu hh' haccount => ?_⟩
  have hmine := (tied_of_reachable hw h t U ht hh.alive).guard _ hh.guard
  have htheirs := (tied_of_reachable hw h u V hu hh'.alive).guard _ hh'.guard
  rw [haccount, hmine] at htheirs
  exact (Option.some.inj htheirs).symm

/-- What a fresh claimant records tells how often the run has asked for a collection: never if the
plan has failed, else once. -/
theorem verdict_counts_requests (hw : w.Sound) (h : Reachable (.start w) c) {claim : Claimed}
    {state : PlanState} {result : Json} (ht : c.task t = some U)
    (hclaim : (ledgerOf U).claim = some claim) (hfresh : claim.recovery = false)
    (hfinished : (ledgerOf U).finished = some (state, result)) {tasks : Finset TaskId}
    (hmem : t ∈ tasks) :
    allRequests claim.planId c tasks = if state = .failed then 0 else 1 := by
  have ha := accounts_of_task h ht
  obtain ⟨hclosing, -, claim', hheld, hverdict⟩ := ha.finished state result hfinished
  rw [hclaim] at hheld
  cases hheld
  rw [allRequests_of hw h hmem ht hclaim hfresh]
  -- nothing is under way once the claim is being finished
  have hidle : U.pending.any (Op.collects claim.planId) = false := by
    by_contra hpending
    obtain ⟨o, ho, hcollects⟩ := (Option.any_eq_true ..).mp (by simpa using hpending)
    obtain ⟨k, hk⟩ := Task.pending_eq ho
    have hok := entitled h ht hk
    cases o with
    | idleCollect a q api =>
      obtain ⟨claim', hmay, -⟩ := hok
      have := hmay.closing
      rw [hclosing] at this
      cases this
    | _ => cases hcollects
  unfold requests
  rw [hidle]
  cases hs : (ledgerOf U).sent with
  | false =>
    rw [ha.unsent hs, if_pos ((hverdict hfresh).mpr hs)]
    rfl
  | true =>
    have hnot : state ≠ .failed := fun hfailed => by
      rw [(hverdict hfresh).mp hfailed] at hs
      cases hs
    obtain ⟨claim', hheld, -, hcount⟩ := ha.sent hs
    rw [hclaim] at hheld
    cases hheld
    rw [hcount, if_pos rfl, if_neg hnot]
    rfl

/-- An execution that has returned: its plan is recorded as executed with the result that it
reports, and stays so; if it says that it applied the plan, the run has asked once. -/
theorem execution_recorded (hw : w.Sound) (h : Reachable (.start w) c) {a : AccountId}
    {actor : Actor} {correlationId : String} {recovery : Bool} {x : Returned T}
    (ht : c.task t = some U) (hcall : U.call = .execute a p actor correlationId recovery)
    (hprog : U.prog = .ret (.ok x)) :
    ∃ e, x = .execution e ∧
      (Undisturbed p c → ∃ plan, c.world.plans.get p = some plan ∧
        plan.executionState = .executed ∧ plan.executionResult =
          some (redact (IdleExecuteUseCase.executedResult e.reconciled))) ∧
      (e.applied = true → ∀ tasks, t ∈ tasks → allRequests p c tasks = 1) := by
  have hpost := (Reachable.follows (ledger_watched P) h t U ht).wp
  rw [hprog] at hpost
  have hpost : (ledgerOf U).Post (.ok x) U.call := hpost
  rw [hcall] at hpost
  obtain ⟨e, claim, hx, hheld, rfl, happlied, hfinished⟩ := hpost x rfl
  refine ⟨e, hx, (owned_of_reachable hw h).recorded t U claim _ _ ht hheld hfinished, ?_⟩
  intro htrue tasks hmem
  rw [happlied] at htrue
  have hfresh : claim.recovery = false := by simpa using htrue
  rw [verdict_counts_requests hw h ht hheld hfresh hfinished hmem, if_neg (by decide)]

section Example

/-- The claim of a task: its plan, whether it is a recovery, whether the task holds the guard and
has not finished, the number of its requests and what it has recorded. -/
def claimView (U : Task (machine Unit samplePorts)) :
    Option (PlanId × Bool × Bool) × Bool × Nat × Option PlanState :=
  ((ledgerOf U).claim.map fun claim => (claim.planId, claim.recovery,
      (ledgerOf U).guard == some claim.plan.accountId && !(ledgerOf U).closing),
    U.alive, requests 1 U, (ledgerOf U).finished.map Prod.fst)

theorem requestedRun_view :
    (requestedRun.task 0).map claimView = some (some (1, false, true), true, 1, none) := by
  decide +kernel

theorem executedRun_view :
    (executedRun.task 0).map claimView = some (some (1, false, false), true, 1, some .executed) ∧
      returned executedRun 0 = true := by
  decide +kernel

theorem call_of_requestedRun {U : Task (machine Unit samplePorts)}
    (h : requestedRun.task t = some U) : U.call = .execute 0 1 operator "c1" false := by
  rcases call_of_run h with hnew | ⟨_, hnone, -⟩
  · exact hnew
  · cases hnone

theorem call_of_executedRun {U : Task (machine Unit samplePorts)}
    (h : executedRun.task t = some U) : U.call = .execute 0 1 operator "c1" false := by
  obtain ⟨V, hV, hcall⟩ := call_of_drive h
  have hV : requestedRun.task t = some V := hV
  exact hcall.symm.trans (call_of_requestedRun hV)

theorem undisturbed_requestedRun (p : PlanId) : Undisturbed p requestedRun := by
  intro t U hU hf
  rw [call_of_requestedRun hU] at hf
  exact hf

theorem undisturbed_executedRun (p : PlanId) : Undisturbed p executedRun := by
  intro t U hU hf
  rw [call_of_executedRun hU] at hf
  exact hf

theorem requestedRun_owns : ∃ (U : Task (machine Unit samplePorts)) (claim : Claimed),
    requestedRun.task 0 = some U ∧ claim.planId = 1 ∧ claim.plan.executionState = .executing ∧
    claim.plan.executionOwner = some claim.owner ∧
    requestedRun.world.plans.get claim.planId = some claim.plan ∧
    ∀ u V claim', requestedRun.task u = some V → Holder claim' V →
      claim'.plan.accountId = claim.plan.accountId → u = 0 := by
  obtain ⟨U, hU, hview⟩ := Option.map_eq_some_iff.mp requestedRun_view
  simp only [claimView, Prod.mk.injEq, Option.map_eq_some_iff, Bool.and_eq_true, beq_iff_eq,
    Bool.not_eq_true'] at hview
  obtain ⟨⟨claim, hheld, hid, -, hguard, hopened⟩, halive, -, -⟩ := hview
  obtain ⟨hexecuting, howner, hrow, hothers⟩ := claimed_plan_owned sound_idleWorld
    reachable_requestedRun hU ⟨halive, hheld, hguard, hopened⟩
  exact ⟨U, claim, hU, hid, hexecuting, howner, hrow (undisturbed_requestedRun _), hothers⟩

theorem executedRun_counts : ∃ (U : Task (machine Unit samplePorts)) (claim : Claimed)
    (state : PlanState) (result : Json), executedRun.task 0 = some U ∧
    (ledgerOf U).finished = some (state, result) ∧ state = .executed ∧
    allRequests claim.planId executedRun {0} = if state = .failed then 0 else 1 := by
  obtain ⟨U, hU, hview⟩ := Option.map_eq_some_iff.mp executedRun_view.1
  simp only [claimView, Prod.mk.injEq, Option.map_eq_some_iff] at hview
  obtain ⟨⟨claim, hheld, -, hfresh, -⟩, -, -, ⟨state, result⟩, hfinished, hstate⟩ := hview
  exact ⟨U, claim, state, result, hU, hfinished, hstate,
    verdict_counts_requests sound_idleWorld reachable_executedRun hU hheld hfresh hfinished
      (Finset.mem_singleton_self 0)⟩

theorem executedRun_recorded : ∃ e : IdleExecution,
    (∃ plan, executedRun.world.plans.get 1 = some plan ∧ plan.executionState = .executed ∧
      plan.executionResult = some (redact (IdleExecuteUseCase.executedResult e.reconciled))) ∧
    (e.applied = true → ∀ tasks, 0 ∈ tasks → allRequests 1 executedRun tasks = 1) := by
  obtain ⟨U, x, hU, hprog⟩ := exists_of_returned executedRun_view.2
  obtain ⟨e, -, hplan, hrequests⟩ := execution_recorded sound_idleWorld reachable_executedRun hU
    (call_of_executedRun hU) hprog
  exact ⟨e, hplan (undisturbed_executedRun 1), hrequests⟩

end Example

end PlaceGame
