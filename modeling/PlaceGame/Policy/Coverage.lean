import PlaceGame.Policy.ServerOrder

/-!
# PlaceGame.Policy.Coverage

Everything that the idle, world boss and profession planners read is in the projection that they
fingerprint: two plans with one fingerprint have the same decisions, also when keys repeat.
-/

namespace PlaceGame

open AccountService Plans Sorting Projection

namespace PolicyEngine

variable {E : EnginePorts} {path : String}

theorem decisions_of_plan {P : Ports} {locked : LockedAccount} {family : ActionFamily}
    {decisions : List Plans.Decision} {projection : Json} {now : Time} {id : PlanId}
    {risk : RiskClass} {built : TypedActionPlan Time}
    (h : plan P locked family decisions projection now id risk = .ok built) :
    built.decisions = decisions := by
  unfold plan at h
  cases hfingerprint : Projection.canonicalFingerprint P family projection keyed with
  | error e =>
    rw [hfingerprint] at h
    cases h
  | ok fingerprint =>
    simp only [hfingerprint, bind, Except.bind] at h
    split at h
    · cases h
    · rename_i details hdetails
      split at h
      · cases h
      · rename_i plan hplan
        cases h
        rw [details_of_plan hplan]
        unfold validateDetails at hdetails
        split at hdetails
        · cases hdetails
          rfl
        · cases hdetails

/-- Two plans with one fingerprint were made from projections with one arranged form. -/
theorem arrange_eq_of_fingerprint {P : Ports} (hsha : Function.Injective P.sha256)
    {locked locked' : LockedAccount} {family : ActionFamily} {ds ds' : List Plans.Decision}
    {p p' : Json} {now : Time} {id id' : PlanId} {risk : RiskClass}
    {built built' : TypedActionPlan Time}
    (h : plan P locked family ds p now id risk = .ok built)
    (h' : plan P locked' family ds' p' now id' risk = .ok built')
    (hsame : built.stateFingerprint = built'.stateFingerprint) :
    arrange keyed "" p = arrange keyed "" p' :=
  ((fingerprint_inj hsha (fingerprint_of_plan h) (fingerprint_of_plan h')).mp hsame).2

theorem get?_eq {fields fields' : List (String × Json)} (hkeys : (fields.map Prod.fst).Nodup)
    (hkeys' : (fields'.map Prod.fst).Nodup)
    (h : arrange keyed path (.obj fields) = arrange keyed path (.obj fields')) (key : String) :
    (fields.lookup key).map (arrange keyed (childPath path key)) =
      (fields'.lookup key).map (arrange keyed (childPath path key)) := by
  rw [← get?_arrange hkeys, ← get?_arrange hkeys', h]

/-- Two arrays with one arranged form, sorted by key, agree record by record. -/
theorem Records.related {α : Type} {json : α → Json} {key : α → String} {l l' : List α}
    (h : Records path json key)
    (heq : arrange keyed path (.arr (l.map json)) = arrange keyed path (.arr (l'.map json))) :
    List.Forall₂ (fun a b => arrange keyed path (json a) = arrange keyed path (json b))
      (sortBy key l) (sortBy key l') := by
  rw [h.arrange_arr, h.arrange_arr] at heq
  exact related_of_map_eq (Json.arr.inj heq)

theorem Records.sortBy_eq {α : Type} {json : α → Json} {key : α → String} {l l' : List α}
    (h : Records path json key)
    (hinj : ∀ a b, arrange keyed path (json a) = arrange keyed path (json b) → a = b)
    (heq : arrange keyed path (.arr (l.map json)) = arrange keyed path (.arr (l'.map json))) :
    sortBy key l = sortBy key l' := by
  have hall := (h.related heq).imp hinj
  rwa [List.forall₂_eq_eq_eq] at hall

/-! ## The idle and world boss planners -/

theorem planProjection_covers {summary summary' : IdleSummary} {policy : AccountPolicy}
    (h : arrange keyed "" (planProjection summary policy) =
      arrange keyed "" (planProjection summary' policy)) :
    decide (IdlePlanner.decision summary policy = .collect) =
      decide (IdlePlanner.decision summary' policy = .collect) := by
  have heligible := get?_eq (by simp) (by simp) h "eligible"
  simpa [List.lookup_cons, arrange] using heligible

theorem instance_inj (a b : WorldBossInstance)
    (h : arrange keyed path (instanceJson a) = arrange keyed path (instanceJson b)) : a = b := by
  have hget := get?_eq (by simp) (by simp) h
  have hkey := hget "key"
  have hlifecycle := hget "lifecycle"
  have hactive := hget "active"
  have halive := hget "alive"
  have hmine := hget "myAttemptCount"
  have hremaining := hget "remainingAttemptCount"
  simp [List.lookup_cons, arrange] at hkey hlifecycle hactive halive hmine hremaining
  obtain ⟨⟩ := a
  obtain ⟨⟩ := b
  rw [WorldBossInstance.mk.injEq]
  exact ⟨Subtype.ext hkey, Subtype.ext hlifecycle, hactive, halive, hmine, hremaining⟩

theorem worldProjection_covers {s s' : WorldBossState} (policy : VersionedPolicy) (now : Time)
    (h : arrange keyed "" (worldProjection s) = arrange keyed "" (worldProjection s')) :
    worldDecision E s policy now = worldDecision E s' policy now := by
  have harr := get?_eq (by simp) (by simp) h "instances"
  simp only [List.lookup_cons, beq_self_eq_true, Option.map_some, Option.some.injEq] at harr
  have hsorted := instanceRecords.sortBy_eq instance_inj harr
  rw [worldDecision, worldDecision, hsorted]

/-! ## The profession planner -/

theorem amounts_perm {a b : Amounts}
    (h : arrange keyed path (amountsJson a) = arrange keyed path (amountsJson b)) :
    a.val.Perm b.val := by
  have hfields : ∀ c : Amounts, arrange keyed path (amountsJson c) =
      .obj (Json.sortEntries (c.val.map fun e => (e.1, Json.int e.2))) := by
    intro c
    rw [amountsJson, arrange, arrangeFields_eq, List.map_map]
    rfl
  rw [hfields, hfields] at h
  have hperm : (a.val.map fun e => (e.1, Json.int e.2)).Perm
      (b.val.map fun e => (e.1, Json.int e.2)) := perm_of_sortBy_eq (Json.obj.inj h)
  have hinj : Function.Injective fun e : String × Int => (e.1, Json.int e.2) := by
    rintro ⟨k, v⟩ ⟨k', v'⟩ heq
    obtain ⟨hk, hv⟩ := Prod.mk.inj heq
    exact Prod.ext hk (Json.int.inj hv)
  exact (List.map_perm_map_iff hinj).mp hperm

theorem get_eq_of_perm {a b : Amounts} (h : a.val.Perm b.val) (key : String) :
    a.get key = b.get key := by
  rw [Amounts.get, Amounts.get, lookup_perm h a.property]

theorem queue_inj (a b : ProfessionQueueEntry)
    (h : arrange keyed path (queueJson a) = arrange keyed path (queueJson b)) : a = b := by
  have hget := get?_eq (by simp) (by simp) h
  have hkey := hget "key"
  have hremaining := hget "remainingSeconds"
  simp [List.lookup_cons, arrange] at hkey hremaining
  obtain ⟨⟩ := a
  obtain ⟨⟩ := b
  rw [ProfessionQueueEntry.mk.injEq]
  exact ⟨Subtype.ext hkey, hremaining⟩

structure SameRecipe (a b : ProfessionRecipe) : Prop where
  key : a.key = b.key
  durationSeconds : a.durationSeconds = b.durationSeconds
  outputKey : a.outputKey = b.outputKey
  unlockMilestone : a.unlockMilestone = b.unlockMilestone
  requiredInputs : a.requiredInputs.val.Perm b.requiredInputs.val

theorem sameRecipe (a b : ProfessionRecipe)
    (h : arrange keyed path (recipeJson a) = arrange keyed path (recipeJson b)) :
    SameRecipe a b := by
  have hget := get?_eq (by simp) (by simp) h
  have hkey := hget "key"
  have hduration := hget "durationSeconds"
  have houtput := hget "outputKey"
  have hmilestone := hget "unlockMilestone"
  have hinputs := hget "requiredInputs"
  simp [List.lookup_cons, arrange] at hkey hduration houtput hmilestone hinputs
  exact ⟨Subtype.ext hkey, hduration, Subtype.ext houtput, hmilestone, amounts_perm hinputs⟩

theorem all_perm {l l' : List (String × Int)} (h : l.Perm l') (p : String × Int → Bool) :
    l.all p = l'.all p := by
  rw [Bool.eq_iff_iff, List.all_eq_true, List.all_eq_true]
  exact ⟨fun hall e he => hall e (h.symm.subset he), fun hall e he => hall e (h.subset he)⟩

/-- The four predicates read of the balances only the amounts, and of a recipe what is projected. -/
theorem priorities_related {a b : Amounts} (h : ∀ key, a.get key = b.get key)
    (policy : VersionedPolicy) :
    List.Forall₂ (fun p q => ∀ r r', SameRecipe r r' → p r = q r') (priorities a policy)
      (priorities b policy) := by
  refine .cons ?_ (.cons ?_ (.cons ?_ (.cons ?_ .nil)))
  · intro r r' hr
    exact hr.unlockMilestone
  · intro r r' hr
    simp only [hr.outputKey, h]
  · intro r r' hr
    simp only [hr.outputKey, h]
  · intro r r' hr
    simp only [all_perm hr.requiredInputs, h]

theorem chooseRecipe_related {a b : Amounts} (h : ∀ key, a.get key = b.get key)
    (policy : VersionedPolicy) {l l' : List ProfessionRecipe} (hl : List.Forall₂ SameRecipe l l') :
    Option.Rel SameRecipe (chooseRecipe (priorities a policy) l)
      (chooseRecipe (priorities b policy) l') :=
  findSome?_related (priorities_related h policy) fun _ _ hpq => find?_related hl hpq

theorem professionProjection_covers {s s' : ProfessionState} (policy : VersionedPolicy)
    (h : arrange keyed "" (professionProjection s) = arrange keyed "" (professionProjection s')) :
    professionAction s policy = professionAction s' policy := by
  have hget := get?_eq (by simp) (by simp) h
  have hqueue := hget "queue"
  have hrecipes := hget "recipes"
  have hbalances := hget "balances"
  simp [List.lookup_cons] at hqueue hrecipes hbalances
  have hperm : s.queue.Perm s'.queue := perm_of_sortBy_eq (queueRecords.sortBy_eq queue_inj hqueue)
  have hsum : (s.queue.map fun item => (item.remainingSeconds : Int)).sum =
      (s'.queue.map fun item => (item.remainingSeconds : Int)).sum := (hperm.map _).sum_eq
  have hamounts := get_eq_of_perm (amounts_perm hbalances)
  have hchosen := chooseRecipe_related hamounts policy
    ((recipeRecords.related hrecipes).imp sameRecipe)
  simp only [professionAction, hperm.length_eq, hsum]
  split
  · rfl
  · split
    · rfl
    · refine map_eq_of_rel hchosen fun r r' hr => ?_
      simp only [hr.key, hr.durationSeconds]

/-! ## The fingerprint covers the decisions -/

/-- Two plans of one planner, for one policy and one time, with one fingerprint have the same
decisions. -/
theorem fingerprint_covers_decisions (E : EnginePorts) (hsha : Function.Injective E.sha256)
    (locked locked' : LockedAccount) (hpolicy : locked.policy = locked'.policy) (now : Time)
    (id id' : PlanId) (built built' : TypedActionPlan Time)
    (hsame : built.stateFingerprint = built'.stateFingerprint) :
    (∀ s s' : IdleSummary, buildIdlePlan E.toPorts locked s now id = .ok built →
        buildIdlePlan E.toPorts locked' s' now id' = .ok built' →
          built.decisions = built'.decisions) ∧
      (∀ s s' : WorldBossState, buildWorldBossPlan E locked s now id = .ok built →
        buildWorldBossPlan E locked' s' now id' = .ok built' →
          built.decisions = built'.decisions) ∧
      ∀ s s' : ProfessionState, buildProfessionPlan E locked s now id = .ok built →
        buildProfessionPlan E locked' s' now id' = .ok built' →
          built.decisions = built'.decisions := by
  refine ⟨fun s s' h h' => ?_, fun s s' h h' => ?_, fun s s' h h' => ?_⟩
  · have harrange := arrange_eq_of_fingerprint hsha h h' hsame
    rw [decisions_of_plan h, decisions_of_plan h', ← hpolicy] at *
    rw [planProjection_covers harrange]
  · have harrange := arrange_eq_of_fingerprint hsha h h' hsame
    rw [decisions_of_plan h, decisions_of_plan h', ← hpolicy,
      worldProjection_covers locked.policy now harrange]
  · have harrange := arrange_eq_of_fingerprint hsha h h' hsame
    rw [decisions_of_plan h, decisions_of_plan h', ← hpolicy, professionDecision,
      professionDecision, professionProjection_covers locked.policy harrange]

theorem exists_of_isOk {ε α : Type} {x : Except ε α} (h : x.isOk = true) : ∃ a, x = .ok a := by
  cases x with
  | ok a => exact ⟨a, rfl⟩
  | error e => cases h

theorem smithPorts_injective : Function.Injective smithPorts.sha256 := by
  refine pinned_injective (by simp) fun e he => ?_
  cases List.mem_singleton.mp he
  exact pinned_hex (by decide)

theorem fingerprint_covers_decisions_smith :
    (smithPorts.shanghai assistTime).minute % 5 ≠ 0 ∧
      ∃ built built', buildProfessionPlan smithPorts idleAccount smithState assistTime 0 = .ok built ∧
        buildProfessionPlan smithPorts idleAccount smithReversed assistTime 1 = .ok built' ∧
          built.decisions = built'.decisions := by
  have hok : ∀ id,
      (buildProfessionPlan smithPorts idleAccount smithState assistTime id).isOk = true :=
    fun id => pinned_plan .profession (normal_professionProjection _) (by decide +kernel) _ _ _ id _
  obtain ⟨built, hbuilt⟩ := exists_of_isOk (hok 0)
  have hok' := hok 1
  rw [profession_reordered idleAccount smith_reordered] at hok'
  obtain ⟨built', hbuilt'⟩ := exists_of_isOk hok'
  have hsame : built.stateFingerprint = built'.stateFingerprint :=
    (fingerprint_inj smithPorts_injective (fingerprint_of_plan hbuilt)
      (fingerprint_of_plan hbuilt')).mpr ⟨rfl, arrange_professionProjection smith_reordered⟩
  refine ⟨by decide +kernel, built, built', hbuilt, hbuilt', ?_⟩
  exact (fingerprint_covers_decisions smithPorts smithPorts_injective idleAccount idleAccount rfl
    assistTime 0 1 built built' hsame).2.2 smithState smithReversed hbuilt hbuilt'

end PolicyEngine

end PlaceGame
