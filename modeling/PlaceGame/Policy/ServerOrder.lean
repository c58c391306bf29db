import PlaceGame.Policy.Arranged
import PlaceGame.Policy.BossSelection
import PlaceGame.Policy.Profession

/-!
# PlaceGame.Policy.ServerOrder

The order in which the server lists entries, equipment, affixes, instances, queue entries and
recipes does not show in a plan: every selection is made on a sorted view, and the projection is
fingerprinted with the same arrays sorted.
-/

namespace PlaceGame

open AccountService Plans Sorting Projection BossOptimizer

/-- Two boss states that differ in the order of entries, equipment and affixes. -/
structure BossReordered (s s' : BossState) : Prop where
  entries : s.entries.Perm s'.entries
  equipment : s.equipment.Perm s'.equipment
  affixes : s.affixes.Perm s'.affixes
  freeAttempts : s.freeAttempts = s'.freeAttempts
  materialBalance : s.materialBalance = s'.materialBalance
  potion : s.potion = s'.potion
  entries_keys : (s.entries.map BossEntryState.key).Nodup
  equipment_keys : (s.equipment.map EquipmentSlot.key).Nodup
  affixes_keys : (s.affixes.map BossAffix.key).Nodup

structure WorldReordered (s s' : WorldBossState) : Prop where
  instances : s.instances.Perm s'.instances
  instances_keys : (s.instances.map WorldBossInstance.key).Nodup

structure ProfessionReordered (s s' : ProfessionState) : Prop where
  queue : s.queue.Perm s'.queue
  recipes : s.recipes.Perm s'.recipes
  selectedProfessionKey : s.selectedProfessionKey = s'.selectedProfessionKey
  unlockProgress : s.unlockProgress = s'.unlockProgress
  balances : s.balances = s'.balances
  recipeVersion : s.recipeVersion = s'.recipeVersion
  queue_keys : (s.queue.map ProfessionQueueEntry.actionKey).Nodup
  recipes_keys : (s.recipes.map ProfessionRecipe.key).Nodup

/-- A rank that contains the key tells apart what the key tells apart. -/
theorem nodup_of_key {α β γ : Type} {key : α → β} {rank : α → γ} {l : List α}
    (hkeys : (l.map key).Nodup) (hrank : ∀ a b, rank a = rank b → key a = key b) :
    (l.map rank).Nodup := by
  refine (List.nodup_map_iff_inj_on (hkeys.of_map)).mpr fun a ha b hb h => ?_
  exact List.inj_on_of_nodup_map hkeys ha hb (hrank a b h)

theorem nodup_vals {α : Type} {key : α → Key} {l : List α} (hkeys : (l.map key).Nodup) :
    (l.map fun a => (key a).val).Nodup :=
  nodup_of_key hkeys fun _ _ h => Subtype.ext h

namespace BossOptimizer

variable {m : Type → Type} [Monad m] (bossPreview : BossPreviewRequest → m BossPreview)
  {s s' : BossState} {policy : VersionedPolicy}

/-- `_for_entry` reads of the state the affixes in order and the material balance. -/
theorem forEntry_congr (entry : BossEntryState) (difficulty : Difficulty) (slot : EquipmentSlot)
    (haffixes : sortBy affixRank s.affixes = sortBy affixRank s'.affixes)
    (hbalance : s.materialBalance = s'.materialBalance) :
    forEntry bossPreview entry difficulty slot s policy =
      forEntry bossPreview entry difficulty slot s' policy := by
  have hselect : select entry difficulty slot s policy = select entry difficulty slot s' policy := by
    funext final
    simp only [select, challenge, useMaterial, hbalance]
  simp only [forEntry, haffixes, hselect]

theorem forDifficulties_congr (entry : BossEntryState) (slot : EquipmentSlot)
    (haffixes : sortBy affixRank s.affixes = sortBy affixRank s'.affixes)
    (hbalance : s.materialBalance = s'.materialBalance) (difficulties : List Difficulty) :
    forDifficulties bossPreview entry slot s policy difficulties =
      forDifficulties bossPreview entry slot s' policy difficulties := by
  induction difficulties with
  | nil => rfl
  | cons difficulty rest ih =>
    rw [forDifficulties, forDifficulties, forEntry_congr bossPreview entry difficulty slot haffixes
      hbalance, ih]

theorem forEntries_congr (slot : EquipmentSlot)
    (haffixes : sortBy affixRank s.affixes = sortBy affixRank s'.affixes)
    (hbalance : s.materialBalance = s'.materialBalance) (entries : List BossEntryState) :
    forEntries bossPreview slot s policy entries =
      forEntries bossPreview slot s' policy entries := by
  induction entries with
  | nil => rfl
  | cons entry entries ih =>
    rw [forEntries, forEntries, forDifficulties_congr bossPreview entry slot haffixes hbalance, ih]

theorem targetSlot_perm {slots slots' : List EquipmentSlot}
    (hkeys : (slots.map EquipmentSlot.key).Nodup) (h : slots.Perm slots') :
    targetSlot slots = targetSlot slots' := by
  have hranks : (slots.map slotRank).Nodup := nodup_of_key hkeys fun a b h =>
    Subtype.ext (Prod.mk.inj (toLex.injective h)).2
  exact argmin_eq_of_perm (hranks.sublist (List.filter_sublist.map slotRank)) (h.filter _)

theorem optimize_reordered (h : BossReordered s s') :
    optimize bossPreview s policy = optimize bossPreview s' policy := by
  have hentries : sortBy entryRank s.entries = sortBy entryRank s'.entries :=
    sortBy_eq_of_perm (nodup_of_key h.entries_keys fun a b h =>
      Subtype.ext (Prod.mk.inj (toLex.injective h)).2) h.entries
  have haffixes : sortBy affixRank s.affixes = sortBy affixRank s'.affixes :=
    sortBy_eq_of_perm (nodup_of_key h.affixes_keys fun a b h =>
      Subtype.ext (Prod.mk.inj (toLex.injective h)).2) h.affixes
  rw [optimize, optimize, h.potion, targetSlot_perm h.equipment_keys h.equipment, hentries]
  simp only [forEntries_congr bossPreview _ haffixes h.materialBalance]

end BossOptimizer

namespace PolicyEngine

variable {E : EnginePorts}

theorem arrange_bossProjection {s s' : BossState} (h : BossReordered s s')
    (selection : Option BossSelection) :
    arrange keyed "" (bossProjection s selection) =
      arrange keyed "" (bossProjection s' selection) := by
  rw [bossProjection, bossProjection, arrange, arrange]
  simp only [arrangeFields, List.cons_append, childPath, if_true,
    entryRecords.arrange_perm (nodup_vals h.entries_keys) h.entries,
    slotRecords.arrange_perm (nodup_vals h.equipment_keys) h.equipment,
    affixRecords.arrange_perm (nodup_vals h.affixes_keys) h.affixes,
    h.freeAttempts, h.materialBalance, h.potion]

theorem arrange_worldProjection {s s' : WorldBossState} (h : WorldReordered s s') :
    arrange keyed "" (worldProjection s) = arrange keyed "" (worldProjection s') := by
  rw [worldProjection, worldProjection, arrange, arrange]
  simp only [arrangeFields, childPath, if_true,
    instanceRecords.arrange_perm (nodup_vals h.instances_keys) h.instances]

theorem arrange_professionProjection {s s' : ProfessionState} (h : ProfessionReordered s s') :
    arrange keyed "" (professionProjection s) = arrange keyed "" (professionProjection s') := by
  rw [professionProjection, professionProjection, arrange, arrange]
  simp only [arrangeFields, childPath, if_true,
    queueRecords.arrange_perm (nodup_vals h.queue_keys) h.queue,
    recipeRecords.arrange_perm (nodup_vals h.recipes_keys) h.recipes,
    h.selectedProfessionKey, h.unlockProgress, h.balances, h.recipeVersion]

theorem bossPlan_congr {locked : LockedAccount} {family : ActionFamily}
    {decisions : List Plans.Decision} {s s' : BossState} (h : BossReordered s s')
    (selection : Option BossSelection) (now : Time) (id : PlanId) (risk : RiskClass) :
    plan E.toPorts locked family decisions (bossProjection s selection) now id risk =
      plan E.toPorts locked family decisions (bossProjection s' selection) now id risk :=
  plan_congr (normal_bossProjection _ _) (normal_bossProjection _ _)
    (arrange_bossProjection h selection)

theorem BossReordered.filter {s s' : BossState} (h : BossReordered s s')
    (keep : BossEntryState → Bool) (hs : 1 ≤ (s.entries.filter keep).length)
    (hs' : 1 ≤ (s'.entries.filter keep).length) :
    BossReordered { s with entries := s.entries.filter keep, entries_ne := hs }
      { s' with entries := s'.entries.filter keep, entries_ne := hs' } where
  entries := h.entries.filter keep
  equipment := h.equipment
  affixes := h.affixes
  freeAttempts := h.freeAttempts
  materialBalance := h.materialBalance
  potion := h.potion
  entries_keys := h.entries_keys.sublist (List.filter_sublist.map _)
  equipment_keys := h.equipment_keys
  affixes_keys := h.affixes_keys

section Boss

variable {m : Type → Type} [Monad m] (bossPreview : BossPreviewRequest → m BossPreview)

theorem personal_reordered (locked : LockedAccount) {s s' : BossState} (h : BossReordered s s')
    (now : Time) (id : PlanId) :
    buildPersonalBossPlan E bossPreview locked s now id =
      buildPersonalBossPlan E bossPreview locked s' now id := by
  have hlength : (s.entries.filter isPersonal).length = (s'.entries.filter isPersonal).length :=
    (h.entries.filter _).length_eq
  rw [buildPersonalBossPlan, buildPersonalBossPlan]
  by_cases hfree : s.freeAttempts = 0 ∧ locked.policy.personalPaidAttempts = false
  · have hfree' := h.freeAttempts ▸ hfree
    rw [if_pos hfree, if_pos hfree', bossPlan_congr h]
  · have hfree' := h.freeAttempts ▸ hfree
    rw [if_neg hfree, if_neg hfree']
    by_cases hs : 1 ≤ (s.entries.filter isPersonal).length
    · have hs' := hlength ▸ hs
      have hfilter := BossReordered.filter h isPersonal hs hs'
      simp only [dif_pos hs, dif_pos hs', optimize_reordered bossPreview hfilter,
        bossPlan_congr hfilter]
    · have hs' := hlength ▸ hs
      simp only [dif_neg hs, dif_neg hs']

theorem ordinary_reordered (locked : LockedAccount) {s s' : BossState} (h : BossReordered s s')
    (now : Time) (id : PlanId) :
    buildOrdinaryBossPlan E bossPreview locked s now id =
      buildOrdinaryBossPlan E bossPreview locked s' now id := by
  have hlength : (s.entries.filter ordinaryAvailable).length =
      (s'.entries.filter ordinaryAvailable).length := (h.entries.filter _).length_eq
  rw [buildOrdinaryBossPlan, buildOrdinaryBossPlan]
  by_cases hs : 1 ≤ (s.entries.filter ordinaryAvailable).length
  · have hs' := hlength ▸ hs
    have hfilter := BossReordered.filter h ordinaryAvailable hs hs'
    simp only [dif_pos hs, dif_pos hs', optimize_reordered bossPreview hfilter,
      bossPlan_congr hfilter]
  · have hs' := hlength ▸ hs
    simp only [dif_neg hs, dif_neg hs', bossPlan_congr h]

end Boss

theorem world_reordered (locked : LockedAccount) {s s' : WorldBossState} (h : WorldReordered s s')
    (now : Time) (id : PlanId) :
    buildWorldBossPlan E locked s now id = buildWorldBossPlan E locked s' now id := by
  have hinstances := sortBy_eq_of_perm (nodup_vals h.instances_keys) h.instances
  have hdecision : worldDecision E s locked.policy now = worldDecision E s' locked.policy now := by
    rw [worldDecision, worldDecision, hinstances]
  rw [buildWorldBossPlan, buildWorldBossPlan, hdecision]
  exact plan_congr (normal_worldProjection _) (normal_worldProjection _) (arrange_worldProjection h)

theorem professionAction_reordered {s s' : ProfessionState} {policy : VersionedPolicy}
    (h : ProfessionReordered s s') : professionAction s policy = professionAction s' policy := by
  have hrecipes := sortBy_eq_of_perm (nodup_vals h.recipes_keys) h.recipes
  have hlength : s.queue.length = s'.queue.length := h.queue.length_eq
  have hsum : (s.queue.map fun item => (item.remainingSeconds : Int)).sum =
      (s'.queue.map fun item => (item.remainingSeconds : Int)).sum := (h.queue.map _).sum_eq
  simp only [professionAction, hrecipes, hlength, hsum, h.balances]

theorem profession_reordered (locked : LockedAccount) {s s' : ProfessionState}
    (h : ProfessionReordered s s') (now : Time) (id : PlanId) :
    buildProfessionPlan E locked s now id = buildProfessionPlan E locked s' now id := by
  have hdecision : professionDecision E s locked.policy now =
      professionDecision E s' locked.policy now := by
    rw [professionDecision, professionDecision, professionAction_reordered h]
  rw [buildProfessionPlan, buildProfessionPlan, hdecision]
  exact plan_congr (normal_professionProjection _) (normal_professionProjection _)
    (arrange_professionProjection h)

/-- What the server lists in another order is planned the same way: the same plan, decisions and
fingerprint included, or the same error. -/
theorem plans_ignore_server_order (E : EnginePorts) (locked : LockedAccount) (now : Time)
    (id : PlanId) :
    (∀ {m : Type → Type} [Monad m] (bossPreview : BossPreviewRequest → m BossPreview)
      (s s' : BossState), BossReordered s s' →
        buildPersonalBossPlan E bossPreview locked s now id =
            buildPersonalBossPlan E bossPreview locked s' now id ∧
          buildOrdinaryBossPlan E bossPreview locked s now id =
            buildOrdinaryBossPlan E bossPreview locked s' now id) ∧
      (∀ s s' : WorldBossState, WorldReordered s s' →
        buildWorldBossPlan E locked s now id = buildWorldBossPlan E locked s' now id) ∧
      ∀ s s' : ProfessionState, ProfessionReordered s s' →
        buildProfessionPlan E locked s now id = buildProfessionPlan E locked s' now id :=
  ⟨fun bossPreview _ _ h =>
      ⟨personal_reordered bossPreview locked h now id, ordinary_reordered bossPreview locked h now id⟩,
    fun _ _ h => world_reordered locked h now id,
    fun _ _ h => profession_reordered locked h now id⟩

/-- The state of `dragonState` with the equipment and the affixes listed the other way round. -/
def dragonReversed : BossState :=
  { dragonState with
    equipment := dragonState.equipment.reverse
    affixes := dragonState.affixes.reverse
    equipment_ne := by decide }

theorem dragon_reordered : BossReordered dragonState dragonReversed where
  entries := .refl _
  equipment := (List.reverse_perm _).symm
  affixes := (List.reverse_perm _).symm
  freeAttempts := rfl
  materialBalance := rfl
  potion := rfl
  entries_keys := by decide
  equipment_keys := by decide
  affixes_keys := by decide

def ironRecipe : ProfessionRecipe where
  key := ⟨"iron", by decide⟩
  durationSeconds := 60
  outputKey := ⟨"iron", by decide⟩
  outputCount := Nat.succPNat 0
  requiredInputs := noAmounts

def breadRecipe : ProfessionRecipe where
  key := ⟨"bread", by decide⟩
  durationSeconds := 600
  outputKey := ⟨"food", by decide⟩
  outputCount := Nat.succPNat 0
  requiredInputs := ⟨[("flour", 2)], by decide⟩

def smithState : ProfessionState where
  selectedProfessionKey := ⟨"smith", by decide⟩
  queue := []
  unlockProgress := 0
  recipes := [ironRecipe, breadRecipe]
  balances := ⟨[("flour", 4)], by decide⟩
  recipeVersion := ⟨"1", by decide⟩
  recipes_ne := by decide

def smithReversed : ProfessionState :=
  { smithState with recipes := [breadRecipe, ironRecipe], recipes_ne := by decide }

theorem smith_reordered : ProfessionReordered smithState smithReversed where
  queue := .refl _
  recipes := .swap _ _ _
  selectedProfessionKey := rfl
  unlockProgress := rfl
  balances := rfl
  recipeVersion := rfl
  queue_keys := by decide
  recipes_keys := by decide

def hydraState : WorldBossState where
  instances :=
    [⟨⟨"hydra", by decide⟩, ⟨"open", by decide⟩, true, true, 0, 3⟩,
      ⟨⟨"golem", by decide⟩, ⟨"open", by decide⟩, true, true, 3, 0⟩]
  instances_ne := by decide

def hydraReversed : WorldBossState where
  instances := hydraState.instances.reverse
  instances_ne := by decide

theorem hydra_reordered : WorldReordered hydraState hydraReversed where
  instances := (List.reverse_perm _).symm
  instances_keys := by decide

/-- A wall clock eight hours ahead of UTC, and SHA-256 on the text of one projection. -/
def enginePorts (family : ActionFamily) (projection : Json) (digest : String) : EnginePorts where
  tokenExpiry _ := none
  sha256 := pinned [(planText family projection, digest)]
  shanghai now :=
    let minutes := (now / Time.minutes 1 + 480) % 1440
    ⟨(minutes / 60).toNat, (minutes % 60).toNat⟩

theorem pinned_plan (family : ActionFamily) {projection : Json} {digest : String}
    (hnormal : Normal keyed "" projection)
    (hdigest : isFingerprint ("pgfp:v1:" ++ digest) = true) (locked : LockedAccount)
    (decision : Plans.Decision) (now : Time) (id : PlanId) (risk : RiskClass) :
    (plan (enginePorts family projection digest).toPorts locked family [decision] projection now id
      risk).isOk = true := by
  refine plan_isOk (canonicalFingerprint_normal hnormal) ?_
  have hpinned : (enginePorts family projection digest).sha256 (planText family projection) =
      digest := by
    simp [enginePorts, pinned]
  rwa [hpinned]

/-- The ports for the personal plan of a state. -/
def bossPorts (bossPreview : BossPreviewRequest → Id BossPreview) (policy : VersionedPolicy)
    (s : BossState) (digest : String) : EnginePorts :=
  enginePorts .personalBoss
    (bossProjection s (some (optimize bossPreview s policy))) digest

def nightmareApi (request : BossPreviewRequest) : Id BossPreview := nightmarePreview request

def dragonPorts : EnginePorts :=
  bossPorts nightmareApi idleAccount.policy dragonState
    "2ae6f76a594aed68a572b19ae615c359bcf3cccca0c65f16531beab28bd1d646"

def hydraPorts : EnginePorts :=
  enginePorts .worldBoss (worldProjection hydraState)
    "e65173fdc76c631fe38f8348a0e86ed2c0b2aaa99e532b69e3e84350fd9020fa"

def smithPorts : EnginePorts :=
  enginePorts .profession (professionProjection smithState)
    "21707c4fbfc6131bf6232b4d684e4ddb362a4ee1e208decfc535aa82e9801594"

/-- A state with only personal entries is given to the optimizer as it is. -/
theorem personal_of_all {E : EnginePorts} {m : Type → Type} [Monad m]
    (bossPreview : BossPreviewRequest → m BossPreview) (locked : LockedAccount) (s : BossState)
    (now : Time) (id : PlanId) (hfree : s.freeAttempts ≠ 0)
    (hall : s.entries.filter isPersonal = s.entries) :
    buildPersonalBossPlan E bossPreview locked s now id =
      (do
        let selection ← optimize bossPreview s locked.policy
        return plan E.toPorts locked .personalBoss [selection.decision]
          (bossProjection s (some selection)) now id .high) := by
  rw [buildPersonalBossPlan, if_neg fun h => hfree h.1]
  simp only [hall, dif_pos s.entries_ne]

theorem pinned_boss_plan (bossPreview : BossPreviewRequest → Id BossPreview) (locked : LockedAccount)
    (s : BossState) (now : Time) (id : PlanId) (hfree : s.freeAttempts ≠ 0)
    (hall : s.entries.filter isPersonal = s.entries) {digest : String}
    (hdigest : isFingerprint ("pgfp:v1:" ++ digest) = true) :
    (buildPersonalBossPlan (bossPorts bossPreview locked.policy s digest) bossPreview locked s now
      id).isOk = true := by
  have hplan : (plan (bossPorts bossPreview locked.policy s digest).toPorts locked .personalBoss
      [(optimize bossPreview s locked.policy).decision]
      (bossProjection s (some (optimize bossPreview s locked.policy)))
      now id .high).isOk = true :=
    pinned_plan .personalBoss (normal_bossProjection _ _) hdigest locked _ now id .high
  rw [personal_of_all bossPreview locked s now id hfree hall]
  exact hplan

/-- Three minutes past ten in Shanghai: the world bosses are open, and no maintenance is due. -/
def assistTime : Time := Time.minutes 123

theorem dragon_plan :
    (buildPersonalBossPlan dragonPorts nightmareApi idleAccount dragonState assistTime 0).isOk = true := by
  have hall : dragonState.entries.filter isPersonal = dragonState.entries := by
    simp [dragonState, isPersonal]
  have hdigest : isFingerprint ("pgfp:v1:" ++
      "2ae6f76a594aed68a572b19ae615c359bcf3cccca0c65f16531beab28bd1d646") = true := by
    decide +kernel
  have hplan := pinned_boss_plan nightmareApi idleAccount dragonState assistTime 0 (by decide) hall hdigest
  exact hplan

theorem plans_ignore_server_order_three_states :
    ((buildPersonalBossPlan dragonPorts nightmareApi idleAccount dragonState assistTime 0).isOk = true ∧
        buildPersonalBossPlan dragonPorts nightmareApi idleAccount dragonState assistTime 0 =
          buildPersonalBossPlan dragonPorts nightmareApi idleAccount dragonReversed assistTime 0) ∧
      ((buildWorldBossPlan hydraPorts idleAccount hydraState assistTime 0).isOk = true ∧
        buildWorldBossPlan hydraPorts idleAccount hydraState assistTime 0 =
          buildWorldBossPlan hydraPorts idleAccount hydraReversed assistTime 0) ∧
      (buildProfessionPlan smithPorts idleAccount smithState assistTime 0).isOk = true ∧
        buildProfessionPlan smithPorts idleAccount smithState assistTime 0 =
          buildProfessionPlan smithPorts idleAccount smithReversed assistTime 0 := by
  refine ⟨⟨?_, ?_⟩, ⟨?_, ?_⟩, ?_, ?_⟩
  · exact dragon_plan
  · exact ((plans_ignore_server_order dragonPorts idleAccount assistTime 0).1 nightmareApi _ _
      dragon_reordered).1
  · exact pinned_plan .worldBoss (normal_worldProjection _) (by decide +kernel) _ _ _ _ _
  · exact (plans_ignore_server_order hydraPorts idleAccount assistTime 0).2.1 _ _ hydra_reordered
  · exact pinned_plan .profession (normal_professionProjection _) (by decide +kernel) _ _ _ _ _
  · exact (plans_ignore_server_order smithPorts idleAccount assistTime 0).2.2 _ _ smith_reordered

end PolicyEngine

end PlaceGame
