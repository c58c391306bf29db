import PlaceGame.Accounts.ScopeSafe
import PlaceGame.Scripts

/-!
# PlaceGame.Accounts.Isolation

A call for one account leaves every other account alone.

What a call has read of plans and jobs stays true, because nobody changes whom they belong to. So a
commit that keeps to its scope writes nothing of another account.
-/

namespace PlaceGame

open Coop

/-- The account, its policy, its plans, its jobs and its snapshots are the same. -/
structure World.SameFor (b : AccountId) (w w' : World) : Prop where
  account : w'.accounts.get b = w.accounts.get b
  policy : w'.policies.get b = w.policies.get b
  plans : ∀ p, (w'.plans.get p).filter (fun plan => plan.accountId = b) =
    (w.plans.get p).filter fun plan => plan.accountId = b
  jobs : ∀ id, (w'.jobs.get id).filter (fun job => job.accountId = b) =
    (w.jobs.get id).filter fun job => job.accountId = b
  snapshots : w'.snapshots.filter (fun row => row.accountId = b) =
    w.snapshots.filter fun row => row.accountId = b

namespace World

variable {w w' w'' : World} {b : AccountId} {t : TaskId}

theorem SameFor.refl (b : AccountId) (w : World) : SameFor b w w :=
  ⟨rfl, rfl, fun _ => rfl, fun _ => rfl, rfl⟩

theorem SameFor.trans (h : SameFor b w w') (h' : SameFor b w' w'') : SameFor b w w'' where
  account := h'.account.trans h.account
  policy := h'.policy.trans h.policy
  plans p := (h'.plans p).trans (h.plans p)
  jobs id := (h'.jobs id).trans (h.jobs id)
  snapshots := h'.snapshots.trans h.snapshots

theorem Env.sameFor (h : Env w w') (b : AccountId) : SameFor b w w' := by
  cases h <;> exact ⟨rfl, rfl, fun _ => rfl, fun _ => rfl, rfl⟩

theorem SameRows.sameFor (h : SameRows w w') (b : AccountId) : SameFor b w w' where
  account := by rw [h.accounts]
  policy := by rw [h.policies]
  plans p := by rw [h.plans]
  jobs id := by rw [h.jobs]
  snapshots := by rw [h.snapshots]

section Owners

def planOwner (plans : Table PlanId ActionPlan) (p : PlanId) : Option AccountId :=
  (plans.get p).map (·.accountId)

def jobOwner (jobs : Table JobId Job) (id : JobId) : Option AccountId :=
  (jobs.get id).map (·.accountId)

theorem apply_accountId (u : PlanUpdate) (plan : ActionPlan) :
    (u.apply plan).accountId = plan.accountId :=
  congrArg PlanCreation.accountId (PlanUpdate.apply_creation u plan)

theorem jobOwner_disabled (ids : List JobId) (jobs : Table JobId Job) (id : JobId) :
    jobOwner (ids.foldl disableJob jobs) id = jobOwner jobs id :=
  Table.map_updates (fun id : JobId => id) (fun _ (job : Job) => { job with enabled := false })
    (fun job : Job => job.accountId) (fun _ _ => rfl) ids jobs id

/-- The updates of plans of others leave the plans of an account alone. -/
theorem filter_plans (us : List (PlanId × PlanUpdate)) (plans : Table PlanId ActionPlan)
    (h : ∀ e ∈ us, planOwner plans e.1 ≠ some b) (p : PlanId) :
    ((us.foldl updatePlan plans).get p).filter (fun plan => plan.accountId = b) =
      (plans.get p).filter fun plan => plan.accountId = b := by
  refine Table.filter_updates (fun u : PlanId × PlanUpdate => u.1) (fun u => u.2.apply)
    (fun plan : ActionPlan => plan.accountId) (fun u plan => apply_accountId u.2 plan)
    (fun a => a = b) us plans ?_ p
  intro e he a ha
  refine decide_eq_false ?_
  rintro rfl
  exact h e he ha

theorem filter_jobs (ids : List JobId) (jobs : Table JobId Job)
    (h : ∀ id ∈ ids, jobOwner jobs id ≠ some b) (id : JobId) :
    ((ids.foldl disableJob jobs).get id).filter (fun job => job.accountId = b) =
      (jobs.get id).filter fun job => job.accountId = b := by
  refine Table.filter_updates (fun id : JobId => id)
    (fun _ (job : Job) => { job with enabled := false }) (fun job : Job => job.accountId)
    (fun _ _ => rfl) (fun a => a = b) ids jobs ?_ id
  intro i hi a ha
  refine decide_eq_false ?_
  rintro rfl
  exact h i hi ha

end Owners

/-- A commit without a write that concerns the account. -/
theorem SameFor.commit {ws : Writes} (haccount : ∀ r, ws.account ≠ some (b, r))
    (hpolicy : ∀ row, ws.policy ≠ some (b, row))
    (hplans : ∀ e ∈ ws.plans, planOwner w.plans e.1 ≠ some b)
    (hnew : ∀ id plan, ws.newPlan = some (id, plan) → plan.accountId ≠ b ∧ w.plans.get id = none)
    (hjobs : ∀ id ∈ ws.disabledJobs, jobOwner w.jobs id ≠ some b)
    (hsnapshots : ∀ row ∈ ws.snapshots, row.accountId ≠ b) :
    SameFor b w ((w.apply ws).release t) where
  account := by
    rcases get_store w.accounts ws.account b with ⟨h, -⟩ | ⟨r, hr, -⟩
    · exact h
    · exact absurd hr (haccount r)
  policy := by
    rcases get_store w.policies ws.policy b with ⟨h, -⟩ | ⟨row, hr, -⟩
    · exact h
    · exact absurd hr (hpolicy row)
  plans p := by
    refine Eq.trans ?_ (filter_plans ws.plans w.plans hplans p)
    rcases get_store (ws.plans.foldl updatePlan w.plans) ws.newPlan p with ⟨h, -⟩ | ⟨plan, hp, hget⟩
    · exact congrArg (Option.filter _) h
    · obtain ⟨hne, hnone⟩ := hnew p plan hp
      have hold := creation_foldl ws.plans w.plans p
      rw [hnone] at hold
      have hgone := Option.map_eq_none_iff.mp hold
      refine (congrArg (Option.filter _) hget).trans ?_
      rw [hgone]
      simp [Option.filter, hne]
  jobs id := filter_jobs ws.disabledJobs w.jobs hjobs id
  snapshots := by
    show (w.snapshots ++ ws.snapshots).filter _ = _
    have hnone : ws.snapshots.filter (fun row => row.accountId = b) = [] := by
      rw [List.filter_eq_nil_iff]
      intro row hrow
      simpa using hsnapshots row hrow
    rw [List.filter_append, hnone, List.append_nil]

end World

section Knowledge

variable {T : Type} {P : Ports} {c c' : Config (machine T P)} {t : TaskId}
variable {U : Task (machine T P)} {m : Scope} {w w' : World} {o : Op T} {r : Except Exc o.Val}

/-- What a task has read of plans and jobs. -/
def scopeOf (U : Task (machine T P)) : Scope := (scope T U.call).after U.hist

theorem scopeOf_seen (U : Task (machine T P)) : (scopeOf U).seen = seen U := by
  unfold scopeOf seen
  generalize U.hist = h
  induction h with
  | nil => rfl
  | cons e h ih =>
    show ((scope T U.call).after h).seen.next e.op e.ans = _
    rw [ih]
    rfl

structure Knows (m : Scope) (w : World) : Prop where
  plans : ∀ p a, (p, a) ∈ m.plans → World.planOwner w.plans p = some a
  jobs : ∀ id a, (id, a) ∈ m.jobs → World.jobOwner w.jobs id = some a

theorem Knows.learn (h : Knows m w) (hw : World.Perform t w o r w') : Knows (m.next o r) w := by
  cases r with
  | error e => cases o <;> exact ⟨h.plans, h.jobs⟩
  | ok v =>
    have hdone : ∃ reply, World.effect t w o reply = some (.ok v, w') := by
      rcases hw.effect_or with hdone | ⟨-, he, -⟩
      · exact hdone
      · cases he
    obtain ⟨reply, heff⟩ := hdone
    cases o with
    | getPlan p =>
      cases heff
      cases hget : w.plans.get p with
      | none => exact ⟨h.plans, h.jobs⟩
      | some plan =>
        refine ⟨fun q a hmem => ?_, h.jobs⟩
        rcases List.mem_cons.mp hmem with heq | hmem
        · cases heq
          simp [World.planOwner, hget]
        · exact h.plans q a hmem
    | planForUpdate p a =>
      cases v with
      | none => exact ⟨h.plans, h.jobs⟩
      | some plan =>
        have hget : w.plans.get p = some plan := by
          simp only [World.effect] at heff
          split at heff
          · cases heff
          · rename_i plan' hget
            split at heff
            · cases heff
            · split at heff <;> cases heff
              exact hget
        refine ⟨fun q a hmem => ?_, h.jobs⟩
        rcases List.mem_cons.mp hmem with heq | hmem
        · cases heq
          simp [World.planOwner, hget]
        · exact h.plans q a hmem
    | enabledJobs a =>
      cases heff
      refine ⟨h.plans, fun id a' hmem => ?_⟩
      rcases List.mem_append.mp hmem with hmem | hmem
      · obtain ⟨id', hid, heq⟩ := List.mem_map.mp hmem
        cases heq
        obtain ⟨-, hany⟩ := List.mem_filter.mp hid
        obtain ⟨job, hjob, hown⟩ := (Option.any_eq_true ..).mp hany
        simp only [Bool.and_eq_true, decide_eq_true_eq] at hown
        simp [World.jobOwner, hjob, hown.1]
      · exact h.jobs id a' hmem
    | _ => exact ⟨h.plans, h.jobs⟩

theorem Knows.kept (h : Knows m w)
    (hp : ∀ p a, World.planOwner w.plans p = some a → World.planOwner w'.plans p = some a)
    (hj : ∀ id, World.jobOwner w'.jobs id = World.jobOwner w.jobs id) : Knows m w' where
  plans p a hmem := hp p a (h.plans p a hmem)
  jobs id a hmem := (hj id).trans (h.jobs id a hmem)

theorem owners_kept {w : World} (hw : w.Sound) (h : Reachable (.start w) c) (hst : Step c c') :
    (∀ p a, World.planOwner c.world.plans p = some a →
      World.planOwner c'.world.plans p = some a) ∧
    ∀ id, World.jobOwner c'.world.jobs id = World.jobOwner c.world.jobs id := by
  rcases hst.world_cases with hsame | henv | ⟨t, hcrash⟩ | ⟨t, U, o, k, r, hU, ha, hp, hperf, -⟩
  · rw [hsame]
    exact ⟨fun _ _ h => h, fun _ => rfl⟩
  · generalize c'.world = w' at henv
    cases henv <;> exact ⟨fun _ _ h => h, fun _ => rfl⟩
  · rw [hcrash]
    exact ⟨fun _ _ h => h, fun _ => rfl⟩
  · rcases World.Perform.rows hperf with ⟨ws, rfl, heq⟩ | hrows
    · rw [heq]
      refine ⟨fun p a howner => ?_, World.jobOwner_disabled ws.disabledJobs c.world.jobs⟩
      obtain ⟨plan, hget, rfl⟩ := Option.map_eq_some_iff.mp howner
      have hok : (seen U).CommitOk U.call ws := allowed h hU hp
      have hm := (safe_of_reachable hw h).matches_ t U hU ha
      have hkept := creation_of_commit hok hm (congrArg (Option.map ActionPlan.creation) hget)
      obtain ⟨plan', hget', hcreation⟩ := Option.map_eq_some_iff.mp hkept
      show (((c.world.apply ws).plans.get p).map _) = _
      rw [hget']
      exact congrArg some (congrArg PlanCreation.accountId hcreation)
    · rw [hrows.plans, hrows.jobs]
      exact ⟨fun _ _ h => h, fun _ => rfl⟩

theorem knows_of_reachable {w : World} (hw : w.Sound) (h : Reachable (.start w) c) :
    ∀ t U, c.task t = some U → Knows (scopeOf U) c.world := by
  refine Reachable.invariant h (fun c => ∀ t U, c.task t = some U → Knows (scopeOf U) c.world)
    (fun t U hU => by cases hU) ?_
  intro c c' hr ih hst t U' hU'
  obtain ⟨hplans, hjobs⟩ := owners_kept hw hr hst
  rcases hst.task_cases hU' with ⟨-, hnew⟩ | ⟨U, hU, hcall, ⟨hsame, -⟩ | ⟨o, k, r, -, -, hperf, rfl⟩⟩
  · rw [hnew]
    exact ⟨fun _ _ hmem => absurd hmem List.not_mem_nil,
      fun _ _ hmem => absurd hmem List.not_mem_nil⟩
  · have heq : scopeOf U' = scopeOf U := by unfold scopeOf; rw [hcall, hsame]
    rw [heq]
    exact (ih t U hU).kept hplans hjobs
  · exact ((ih t U hU).learn hperf).kept hplans hjobs

end Knowledge

section Calls

variable {T : Type} {P : Ports} {c c' : Config (machine T P)} {t : TaskId}
variable {U : Task (machine T P)} {w : World} {b : AccountId}

/-- Another account than the one the call is made for; for an enrolment, any account that exists. -/
def Call.Other (call : Call) (w : World) (b : AccountId) : Prop :=
  call.accountId ≠ some b ∧ (call.accountId = none → (w.accounts.get b).isSome = true)

theorem scope_allowed (h : Reachable (.start w) c) (hU : c.task t = some U) {o : Op T}
    {k : Except Exc o.Val → Proc (sig T) (Except Exc (Returned T))} (hp : U.prog = .call o k) :
    (scopeOf U).ok U.call o :=
  Reachable.Follows.allowed (M := scope T) (Reachable.follows (scope_watched P) h t U hU) hp

/-- A commit within the scope of its call. -/
theorem sameFor_of_commit {ws : Writes} (hw : w.Sound) (h : Reachable (.start w) c)
    (hU : c.task t = some U) (ha : U.alive = true) (hcall : ¬ U.call.ByPlan)
    (hb : U.call.Other c.world b) (hok : (scopeOf U).CommitOk U.call ws)
    (hfresh : ∀ id plan, ws.newPlan = some (id, plan) → (seen U).fresh = some id) :
    World.SameFor b c.world ((c.world.apply ws).release t) := by
  have hknows := knows_of_reachable hw h t U hU
  have hm := (safe_of_reachable hw h).matches_ t U hU ha
  have howned : ∀ a, U.call.accountId = some a → some a ≠ some b := by
    rintro a hcall heq
    exact hb.1 (hcall.trans heq)
  have haccount : ∀ r, ws.account ≠ some (b, r) := by
    intro r hr
    cases hok.account b r hr with
    | kept hacc _ _ _ => exact hb.1 hacc
    | saves hacc _ _ => exact hb.1 hacc
    | enrols hacc hf _ _ =>
      rw [scopeOf_seen] at hf
      have hexists := hb.2 hacc
      rw [(hm.fresh b hf).2.1] at hexists
      cases hexists
  refine World.SameFor.commit haccount ?_ ?_ ?_ ?_ ?_
  · intro row hrow
    cases hacc : ws.account with
    | none =>
      rw [hok.policy hacc] at hrow
      cases hrow
    | some e =>
      cases hok.account e.1 e.2 hacc with
      | kept _ _ _ hp => rw [hp] at hrow; cases hrow
      | enrols _ _ _ hp => rw [hp] at hrow; cases hrow
      | saves hacc' _ hs =>
        obtain ⟨_, _, _, _, _, _, hwrite⟩ := hs
        rw [hrow] at hwrite
        cases hwrite
        exact hb.1 hacc'
  · intro e he
    rcases hok.plans e he with hby | ⟨a, hacc, hmem⟩
    · exact absurd hby hcall
    · rw [hknows.plans e.1 a hmem]
      exact howned a hacc
  · intro id plan hp
    exact ⟨fun heq => hb.1 ((hok.newPlan id plan hp).trans (congrArg some heq)),
      (hm.fresh id (hfresh id plan hp)).2.2⟩
  · intro id hid
    obtain ⟨a, hacc, hmem⟩ := hok.jobs id hid
    rw [hknows.jobs id a hmem]
    exact howned a hacc
  · intro row hrow heq
    exact hb.1 ((hok.snapshots row hrow).trans (congrArg some heq))

theorem sameFor_of_alone (hw : w.Sound) (h : Reachable (.start w) c) (hU : c.task t = some U)
    (hcall : ¬ U.call.ByPlan) (hb : U.call.Other c.world b) (hst : Alone t c c') :
    World.SameFor b c.world c'.world := by
  rcases hst.1.world_cases with
    hsame | henv | ⟨u, hcrash⟩ | ⟨u, V, o, k, r, hV, ha, hp, hperf, hV'⟩
  · rw [hsame]
    exact .refl b _
  · exact World.Env.sameFor henv b
  · rw [hcrash]
    exact ⟨rfl, rfl, fun _ => rfl, fun _ => rfl, rfl⟩
  · have hut : u = t := by
      by_contra hne
      have hsame := hst.2 u hne
      rw [hV, hV'] at hsame
      exact List.cons_ne_self _ _ (congrArg Task.hist (Option.some.inj hsame))
    subst hut
    cases hU.symm.trans hV
    rcases World.Perform.rows hperf with ⟨ws, rfl, heq⟩ | hrows
    · rw [heq]
      have hok : (seen U).CommitOk U.call ws := allowed h hU hp
      exact sameFor_of_commit hw h hU ha hcall hb (scope_allowed h hU hp) hok.2.2
    · exact hrows.sameFor b

/-- Whatever a call for one account does, while the other calls wait, and wherever it is stopped: the
account, policy, plans, jobs and snapshots of another account are after it as they were before. The
other calls may have run before in any order, and a single step of the call is a case of this. -/
theorem other_accounts_unchanged (hw : w.Sound) (h : Reachable (.start w) c)
    (hU : c.task t = some U) (hcall : ¬ U.call.ByPlan) (hb : U.call.Other c.world b)
    (hrun : Relation.ReflTransGen (Alone t) c c') : World.SameFor b c.world c'.world := by
  have hkept : World.SameFor b c.world c'.world ∧ ∃ U', c'.task t = some U' ∧ U'.call = U.call := by
    induction hrun with
    | refl => exact ⟨.refl b _, U, hU, rfl⟩
    | @tail c₁ c₂ hrun hst ih =>
      obtain ⟨hsame, U', hU', hcall'⟩ := ih
      have hother : U'.call.Other c₁.world b := by
        rw [hcall']
        exact ⟨hb.1, fun hnone => by rw [hsame.account]; exact hb.2 hnone⟩
      have hnext := sameFor_of_alone hw (h.trans (Alone.reachable hrun)) hU' (hcall' ▸ hcall)
        hother hst
      obtain ⟨U'', hU'', hcall'', -⟩ := hst.1.keeps hU'
      exact ⟨hsame.trans hnext, U'', hU'', hcall''.trans hcall'⟩
  exact hkept.1

end Calls

section Example

/-- A game that knows every token as an account of its own. -/
def eachToken : (o : Op Unit) → Except Exc o.Val
  | .bootstrap api => .ok (api.sessionToken.getD "")
  | o => friendlyGame o

/-- Two enrolled accounts, and a plan of the second one. -/
def twoAccounts : Config (machine Unit samplePorts) :=
  run (run (run (.start {}) 0 (.addTokenOnly "first" "g1" operator) eachToken 12)
    1 (.addTokenOnly "second" "g2" operator) eachToken 12)
    2 (.createPlan
      { accountId := 1
        stateFingerprint := "fp"
        policyVersion := 1
        proposedActions := []
        risk := .low
        expiresAt := 1000 }) eachToken 12

/-- A mutation of the first account that names the plan of the second. -/
def strangePlan : Call :=
  .mutate { accountId := 0, actor := operator, planId := some 2, hasFingerprint := true }

def strangePlanCalled : Config (machine Unit samplePorts) :=
  twoAccounts.setTask 3 { call := strangePlan, prog := (machine Unit samplePorts).prog strangePlan }

theorem other_accounts_unchanged_second :
    World.SameFor 1 strangePlanCalled.world
      (strangePlanCalled.drive World.effect 3 eachToken 40).world := by
  have hreach : Reachable (.start {}) twoAccounts :=
    ((reachable_run _ 0 _ _ _).trans (reachable_run _ 1 _ _ _)).trans (reachable_run _ 2 _ _ _)
  have hspawn : Step twoAccounts strangePlanCalled := Step.spawn (c := twoAccounts) 3 strangePlan rfl
  exact other_accounts_unchanged (t := 3) World.sound_empty (hreach.tail hspawn)
    (Config.setTask_self ..) id ⟨by decide, nofun⟩ (alone_drive honest_effect _ _ _ _)

end Example

end PlaceGame
