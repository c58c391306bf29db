import Mathlib.Order.Bounds.Basic
import PlaceGame.Policy.Builders

/-!
# PlaceGame.Policy.Profession

Which recipe `_profession_action` refills the queue with, how often, and when the balances pay for
it. The recipe and the count are described by what they are the least of; the description is met by
the code on every state.
-/

namespace PlaceGame

open Sorting

/-- Rounding up, as truncating division writes it, finds the first positive multiple that covers. -/
theorem isLeast_covering (need d : Int) (hd : 0 < d) :
    IsLeast {n : Int | 1 ≤ n ∧ need ≤ n * d} (max 1 ((max 0 need + d - 1) / d)) := by
  have hquot : ((max 0 need + d - 1) / d) * d ≤ max 0 need + d - 1 := Int.ediv_mul_le _ hd.ne'
  have hnext : max 0 need + d - 1 < ((max 0 need + d - 1) / d + 1) * d :=
    Int.lt_ediv_add_one_mul_self _ hd
  have hneed : need ≤ max 0 need := le_max_right _ _
  refine ⟨⟨le_max_left _ _, ?_⟩, fun n hn => ?_⟩
  · have hcover : need ≤ ((max 0 need + d - 1) / d) * d := by
      rw [add_mul, one_mul] at hnext
      omega
    exact hcover.trans (mul_le_mul_of_nonneg_right (le_max_right _ _) hd.le)
  · refine max_le hn.1 (Int.lt_add_one_iff.mp ((Int.ediv_lt_iff_lt_mul hd).mpr ?_))
    have hone : 1 * d ≤ n * d := mul_le_mul_of_nonneg_right hn.1 hd.le
    have hmax : max 0 need ≤ n * d := max_le (by omega) hn.2
    rw [add_mul, one_mul]
    omega

namespace PolicyEngine

variable {state : ProfessionState} {policy : VersionedPolicy}

def queuedSeconds (state : ProfessionState) : Int := (state.queue.map (·.remainingSeconds)).sum

def horizonSeconds (policy : VersionedPolicy) : Int := policy.professionHorizonHours * 3600

/-- Two entries and six hours of work: there is nothing to refill. -/
def Sufficient (state : ProfessionState) : Prop :=
  2 ≤ state.queue.length ∧ 6 * 3600 ≤ queuedSeconds state

instance (state : ProfessionState) : Decidable (Sufficient state) :=
  inferInstanceAs (Decidable (_ ∧ _))

/-- The recipe with the least key in the first priority class that is not empty. -/
def Chosen (state : ProfessionState) (policy : VersionedPolicy) (recipe : ProfessionRecipe) : Prop :=
  ∃ before priority after, priorities state.balances policy = before ++ priority :: after ∧
    (state.recipes.filter priority).argmin (fun item => item.key.val) = some recipe ∧
      ∀ earlier ∈ before, ∀ item ∈ state.recipes, earlier item = false

/-- `n` runs of `recipe` are the fewest that bring the queue up to the horizon. -/
def ShortBy (state : ProfessionState) (policy : VersionedPolicy) (recipe : ProfessionRecipe)
    (n : Int) : Prop :=
  IsLeast {n : Int | 1 ≤ n ∧
    horizonSeconds policy ≤ queuedSeconds state + n * recipe.durationSeconds} n

/-! ## The action -/

theorem chooseRecipe_eq_none {predicates : List (ProfessionRecipe → Bool)}
    {recipes : List ProfessionRecipe} :
    chooseRecipe predicates (sortBy (fun item => item.key.val) recipes) = none ↔
      ∀ priority ∈ predicates, ∀ item ∈ recipes, priority item = false := by
  simp [chooseRecipe, List.findSome?_eq_none_iff]

theorem chooseRecipe_eq_some {recipe : ProfessionRecipe} :
    chooseRecipe (priorities state.balances policy)
        (sortBy (fun item => item.key.val) state.recipes) = some recipe ↔
      Chosen state policy recipe := by
  simp [chooseRecipe, List.findSome?_eq_some_iff, Chosen, find?_sortBy]

theorem shortBy_count (recipe : ProfessionRecipe) :
    ShortBy state policy recipe
      (max 1 ((max 0 (horizonSeconds policy - queuedSeconds state) + recipe.durationSeconds - 1) /
        recipe.durationSeconds)) := by
  have hpos : 0 < ((recipe.durationSeconds : Nat) : Int) := by exact_mod_cast recipe.durationSeconds.pos
  have h := isLeast_covering (horizonSeconds policy - queuedSeconds state) _ hpos
  simp only [sub_le_iff_le_add'] at h
  exact h

theorem professionAction_eq : professionAction state policy =
    if Sufficient state then none
    else if h : (5 - state.queue.length : Int) ≤ 0 then none
    else
      (chooseRecipe (priorities state.balances policy)
        (sortBy (fun item => item.key.val) state.recipes)).map fun recipe =>
          { actionKey := recipe.key
            count := ⟨enqueueCount (5 - state.queue.length) (horizonSeconds policy)
              (queuedSeconds state) recipe.durationSeconds, one_le_enqueueCount h _ _ _⟩ } := rfl

theorem professionAction_due (hdue : ¬ Sufficient state) (hfree : state.queue.length < 5) :
    (professionAction state policy).map (fun action => (action.actionKey, action.count.val)) =
      (chooseRecipe (priorities state.balances policy)
        (sortBy (fun item => item.key.val) state.recipes)).map fun recipe =>
          (recipe.key, enqueueCount (5 - state.queue.length) (horizonSeconds policy)
            (queuedSeconds state) recipe.durationSeconds) := by
  have hcapacity : ¬ (5 - state.queue.length : Int) ≤ 0 := by omega
  rw [professionAction_eq, if_neg hdue, dif_neg hcapacity, Option.map_map]
  rfl

theorem professionAction_eq_none : professionAction state policy = none ↔
    Sufficient state ∨ 5 ≤ state.queue.length ∨
      ∀ priority ∈ priorities state.balances policy, ∀ item ∈ state.recipes,
        priority item = false := by
  by_cases hdue : Sufficient state
  · exact iff_of_true (if_pos hdue) (.inl hdue)
  by_cases hfree : state.queue.length < 5
  · rw [← chooseRecipe_eq_none, ← Option.map_eq_none_iff, professionAction_due hdue hfree,
      Option.map_eq_none_iff]
    exact ⟨fun h => .inr (.inr h), fun h => (h.resolve_left hdue).resolve_left (not_le.mpr hfree)⟩
  · have hfull : (5 - state.queue.length : Int) ≤ 0 := by omega
    refine iff_of_true ?_ (.inr (.inl (not_lt.mp hfree)))
    rw [professionAction_eq, if_neg hdue, dif_pos hfull]

theorem action_injective : Function.Injective fun action : ProfessionEnqueueAction =>
    (action.actionKey, action.count.val) := by
  intro a b h
  obtain ⟨hkey, hcount⟩ := Prod.mk.inj h
  cases a
  cases b
  cases hkey
  cases Subtype.ext hcount
  rfl

/-- An action names the chosen recipe, as often as the queue is short of it or as the slots allow. -/
theorem professionAction_eq_some {action : ProfessionEnqueueAction} :
    professionAction state policy = some action ↔
      ¬ Sufficient state ∧ state.queue.length < 5 ∧
        ∃ recipe n, Chosen state policy recipe ∧ ShortBy state policy recipe n ∧
          action.actionKey = recipe.key ∧ action.count.val = min n (5 - state.queue.length) := by
  by_cases hdue : Sufficient state
  · refine iff_of_false (fun h => ?_) fun h => h.1 hdue
    rw [professionAction_eq_none.mpr (.inl hdue)] at h
    cases h
  by_cases hfree : state.queue.length < 5
  · have hiff := (Option.map_injective action_injective).eq_iff (a := professionAction state policy)
      (b := some action)
    rw [← hiff, professionAction_due hdue hfree, Option.map_some, Option.map_eq_some_iff]
    constructor
    · rintro ⟨recipe, hrecipe, h⟩
      obtain ⟨hkey, hcount⟩ := Prod.mk.inj h
      exact ⟨hdue, hfree, recipe, _, chooseRecipe_eq_some.mp hrecipe, shortBy_count recipe, hkey.symm,
        by rw [← hcount, enqueueCount, min_comm]⟩
    · rintro ⟨-, -, recipe, n, hchosen, hshort, hkey, hcount⟩
      refine ⟨recipe, chooseRecipe_eq_some.mpr hchosen, ?_⟩
      rw [hkey, hcount, hshort.unique (shortBy_count recipe), min_comm]
      rfl
  · refine iff_of_false (fun h => ?_) fun h => hfree h.2.1
    rw [professionAction_eq_none.mpr (.inr (.inl (not_lt.mp hfree)))] at h
    cases h

/-! ## The steps that can raise -/

/-- `a // b`. -/
def floorDiv (a b : Int) : Except Exc Int :=
  if b = 0 then throw (.other "ZeroDivisionError") else return a.fdiv b

/-- `ProfessionEnqueueAction(actionKey=..., count=...)`. -/
def ProfessionEnqueueAction.validate (actionKey : String) (count : Int) :
    Except Exc ProfessionEnqueueAction :=
  if h : 1 ≤ actionKey.length ∧ 1 ≤ count then return ⟨⟨actionKey, h.1⟩, ⟨count, h.2⟩⟩
  else throw validationError

/-- `_profession_action`, where the division and the validation of the action can fail. -/
def raisingProfessionAction (state : ProfessionState) (policy : VersionedPolicy) :
    Except Exc (Option ProfessionEnqueueAction) :=
  let queued := queuedSeconds state
  if 2 ≤ state.queue.length ∧ 6 * 3600 ≤ queued then return none
  else
    let capacity : Int := 5 - state.queue.length
    if capacity ≤ 0 then return none
    else
      match chooseRecipe (priorities state.balances policy)
          (sortBy (fun item => item.key.val) state.recipes) with
      | none => return none
      | some recipe => do
        let duration : Int := recipe.durationSeconds
        let runs ← floorDiv (max 0 (horizonSeconds policy - queued) + duration - 1) duration
        let action ← ProfessionEnqueueAction.validate recipe.key.val (min capacity (max 1 runs))
        return some action

theorem floorDiv_pos {a b : Int} (h : 0 < b) : floorDiv a b = .ok (a / b) := by
  rw [floorDiv, if_neg h.ne', Int.fdiv_eq_ediv_of_nonneg a h.le]
  rfl

theorem ProfessionEnqueueAction.validate_ok (actionKey : Plans.Key) {count : Int} (h : 1 ≤ count) :
    ProfessionEnqueueAction.validate actionKey.val count = .ok ⟨actionKey, ⟨count, h⟩⟩ :=
  dif_pos ⟨actionKey.property, h⟩

theorem raisingProfessionAction_ok :
    raisingProfessionAction state policy = .ok (professionAction state policy) := by
  rw [professionAction_eq]
  unfold raisingProfessionAction
  by_cases hdue : Sufficient state
  · rw [if_pos hdue]
    exact if_pos hdue
  rw [if_neg hdue]
  refine (if_neg hdue).trans ?_
  by_cases hfull : (5 - state.queue.length : Int) ≤ 0
  · rw [dif_pos hfull]
    exact if_pos hfull
  rw [dif_neg hfull]
  refine (if_neg hfull).trans ?_
  cases hchoose : chooseRecipe (priorities state.balances policy)
      (sortBy (fun item => item.key.val) state.recipes) with
  | none => rfl
  | some recipe =>
    have hpos : 0 < ((recipe.durationSeconds : Nat) : Int) := by
      exact_mod_cast recipe.durationSeconds.pos
    have hcount := one_le_enqueueCount hfull (horizonSeconds policy) (queuedSeconds state)
      recipe.durationSeconds
    have hvalid := ProfessionEnqueueAction.validate_ok recipe.key hcount
    simp only [enqueueCount] at hvalid
    simp only [floorDiv_pos hpos, hvalid, bind, Except.bind]
    rfl

/-- When nothing is refilled, and else with which recipe and how often; nothing raises. -/
theorem profession_refill (state : ProfessionState) (policy : VersionedPolicy) :
    (professionAction state policy = none ↔
        (2 ≤ state.queue.length ∧ 6 * 3600 ≤ queuedSeconds state) ∨ 5 ≤ state.queue.length ∨
          ∀ priority ∈ priorities state.balances policy, ∀ item ∈ state.recipes,
            priority item = false) ∧
      (∀ action, professionAction state policy = some action →
        ∃ recipe n, Chosen state policy recipe ∧ ShortBy state policy recipe n ∧
          action.actionKey = recipe.key ∧ action.count.val = min n (5 - state.queue.length) ∧
            1 ≤ action.count.val ∧ state.queue.length + action.count.val ≤ 5) ∧
      raisingProfessionAction state policy = .ok (professionAction state policy) := by
  refine ⟨professionAction_eq_none, fun action h => ?_, raisingProfessionAction_ok⟩
  obtain ⟨-, -, recipe, n, hchosen, hshort, hkey, hcount⟩ := professionAction_eq_some.mp h
  have hslots : action.count.val ≤ 5 - state.queue.length := hcount ▸ min_le_right _ _
  exact ⟨recipe, n, hchosen, hshort, hkey, hcount, action.count.property, by omega⟩

/-! ## What the balances pay for -/

/-- The balances hold the inputs of `n` runs. -/
def Covers (balances : Amounts) (recipe : ProfessionRecipe) (n : Int) : Prop :=
  ∀ input ∈ recipe.requiredInputs.val, n * input.2 ≤ balances.get input.1

instance (balances : Amounts) (recipe : ProfessionRecipe) (n : Int) :
    Decidable (Covers balances recipe n) :=
  inferInstanceAs (Decidable (∀ _ ∈ _, _))

/-- The work that an action asks for can be done, whichever recipe of that key runs. -/
def Paid (state : ProfessionState) (action : ProfessionEnqueueAction) : Prop :=
  ∀ recipe ∈ state.recipes, recipe.key = action.actionKey →
    Covers state.balances recipe action.count.val

/-- Every refill can be done, and there is one when some recipe can run. -/
def Executable (state : ProfessionState) (policy : VersionedPolicy) : Prop :=
  (∀ action, professionAction state policy = some action → Paid state action) ∧
    ((∃ recipe ∈ state.recipes, Covers state.balances recipe 1) → ¬ Sufficient state →
      state.queue.length < 5 → ∃ action, professionAction state policy = some action ∧
        Paid state action)

/-- While a refill is due and a slot is free: the balances hold the inputs of the recipe that the
priorities put first for as many runs as the queue is short of or has slots for. -/
def FirstRecipePaid (state : ProfessionState) (policy : VersionedPolicy) : Prop :=
  ¬ Sufficient state → state.queue.length < 5 →
    ∀ first n, Chosen state policy first → ShortBy state policy first n →
      ∀ recipe ∈ state.recipes, recipe.key = first.key →
        Covers state.balances recipe (min n (5 - state.queue.length))

theorem covers_one_iff {balances : Amounts} {recipe : ProfessionRecipe} :
    Covers balances recipe 1 ↔
      (recipe.requiredInputs.val.all fun e => decide (e.2 ≤ balances.get e.1)) = true := by
  simp [Covers, List.all_eq_true]

theorem exists_action_of_covers {recipe : ProfessionRecipe} (hmem : recipe ∈ state.recipes)
    (hcovers : Covers state.balances recipe 1) (hdue : ¬ Sufficient state)
    (hfree : state.queue.length < 5) : ∃ action, professionAction state policy = some action := by
  refine Option.ne_none_iff_exists'.mp fun hnone => ?_
  cases professionAction_eq_none.mp hnone with
  | inl h => exact hdue h
  | inr h =>
    have hclass := (h.resolve_left (not_le.mpr hfree)) _
      (List.mem_cons_of_mem _ (List.mem_cons_of_mem _ (List.mem_cons_of_mem _
        (List.mem_singleton_self _)))) recipe hmem
    rw [covers_one_iff.mp hcovers] at hclass
    cases hclass

theorem executable_iff : Executable state policy ↔ FirstRecipePaid state policy := by
  constructor
  · intro h hdue hfree first n hfirst hshort recipe hrecipe hkey
    have hcount : 1 ≤ min n (5 - state.queue.length : Int) := le_min hshort.1.1 (by omega)
    have haction : professionAction state policy = some ⟨first.key, ⟨_, hcount⟩⟩ :=
      professionAction_eq_some.mpr ⟨hdue, hfree, first, n, hfirst, hshort, rfl, rfl⟩
    exact h.1 _ haction recipe hrecipe hkey
  · intro h
    have hpaid : ∀ action, professionAction state policy = some action → Paid state action := by
      intro action haction recipe hrecipe hkey
      obtain ⟨hdue, hfree, first, n, hfirst, hshort, hfirstKey, hcount⟩ :=
        professionAction_eq_some.mp haction
      rw [hcount]
      exact h hdue hfree first n hfirst hshort recipe hrecipe (hkey.trans hfirstKey)
    refine ⟨hpaid, fun ⟨recipe, hrecipe, hcovers⟩ hdue hfree => ?_⟩
    obtain ⟨action, haction⟩ := exists_action_of_covers hrecipe hcovers hdue hfree
    exact ⟨action, haction, hpaid action haction⟩

/-- The recipes of the first priority that admits any recipe. -/
def Leading (state : ProfessionState) (policy : VersionedPolicy) (recipe : ProfessionRecipe) :
    Prop :=
  recipe ∈ state.recipes ∧
    ((priorities state.balances policy).find? fun priority => state.recipes.any priority).any
      (fun priority => priority recipe) = true

/-- The balances hold the inputs of as many runs as the free slots take, and of fewer. -/
def SlotsCovered (state : ProfessionState) (recipe : ProfessionRecipe) : Prop :=
  ∀ n : Int, 1 ≤ n → n ≤ 5 - state.queue.length → Covers state.balances recipe n

/-- The balances hold the inputs of no number of runs that the free slots take. -/
def SlotsUncovered (state : ProfessionState) (recipe : ProfessionRecipe) : Prop :=
  ∀ n : Int, 1 ≤ n → n ≤ 5 - state.queue.length → ¬ Covers state.balances recipe n

theorem leading_of_chosen {recipe : ProfessionRecipe} (h : Chosen state policy recipe) :
    Leading state policy recipe := by
  obtain ⟨before, priority, after, hsplit, hleast, hempty⟩ := h
  obtain ⟨hmem, hadmits⟩ := List.mem_filter.mp (List.argmin_mem hleast)
  have hfirst : ((priorities state.balances policy).find? fun priority =>
      state.recipes.any priority) = some priority := by
    refine List.find?_eq_some_iff_append.mpr ⟨List.any_eq_true.mpr ⟨recipe, hmem, hadmits⟩,
      before, after, hsplit, fun earlier hearlier => ?_⟩
    simpa using hempty earlier hearlier
  refine ⟨hmem, ?_⟩
  rw [hfirst]
  exact hadmits

theorem exists_chosen {recipe : ProfessionRecipe} (h : Leading state policy recipe) :
    ∃ first, Chosen state policy first := by
  obtain ⟨hmem, hadmits⟩ := h
  obtain ⟨priority, hfind, hadmits⟩ := (Option.any_eq_true ..).mp hadmits
  cases hchoose : chooseRecipe (priorities state.balances policy)
      (sortBy (fun item => item.key.val) state.recipes) with
  | some first => exact ⟨first, chooseRecipe_eq_some.mp hchoose⟩
  | none =>
    have hrefused := chooseRecipe_eq_none.mp hchoose priority (List.mem_of_find?_eq_some hfind)
      recipe hmem
    rw [hadmits] at hrefused
    cases hrefused

/-- While a refill is due and a slot is free, refills are executable if each recipe of the first
priority that admits any is paid for in all free slots, and they are not if none of them is paid for
at all. -/
theorem refills_executable_when_paid (state : ProfessionState) (policy : VersionedPolicy) :
    (Sufficient state ∨ 5 ≤ state.queue.length ∨
        (∀ recipe, Leading state policy recipe → ∀ listed ∈ state.recipes,
          listed.key = recipe.key → SlotsCovered state listed) →
      Executable state policy) ∧
    (¬ Sufficient state → state.queue.length < 5 → (∃ recipe, Leading state policy recipe) →
      (∀ recipe, Leading state policy recipe → SlotsUncovered state recipe) →
      ¬ Executable state policy) := by
  constructor
  · intro h
    refine executable_iff.mpr fun hdue hfree first n hfirst hshort recipe hrecipe hkey => ?_
    have hpaid := (h.resolve_left hdue).resolve_left (not_le.mpr hfree)
    refine hpaid first (leading_of_chosen hfirst) recipe hrecipe hkey _ ?_ (min_le_right _ _)
    exact le_min hshort.1.1 (by omega)
  · intro hdue hfree hsome hnone hexecutable
    obtain ⟨recipe, hrecipe⟩ := hsome
    obtain ⟨first, hfirst⟩ := exists_chosen hrecipe
    have hlead := leading_of_chosen hfirst
    have hshort : ShortBy state policy first _ := shortBy_count first
    refine hnone first hlead _ (le_min hshort.1.1 (by omega)) (min_le_right _ _) ?_
    exact executable_iff.mp hexecutable hdue hfree first _ hfirst hshort first hlead.1 rfl

def noAmounts : Amounts := ⟨[], by decide⟩

/-- A milestone that needs ore, and a recipe that needs nothing. -/
def oreState (balances : Amounts) : ProfessionState where
  selectedProfessionKey := ⟨"forge", by decide⟩
  queue := []
  unlockProgress := 0
  recipes :=
    [{ key := ⟨"blade", by decide⟩
       durationSeconds := 3600
       outputKey := ⟨"blade", by decide⟩
       outputCount := 1
       requiredInputs := ⟨[("ore", 2)], by decide⟩
       unlockMilestone := true },
      { key := ⟨"dig", by decide⟩
        durationSeconds := 3600
        outputKey := ⟨"ore", by decide⟩
        outputCount := 1
        requiredInputs := noAmounts }]
  balances := balances
  recipeVersion := ⟨"v1", by decide⟩
  recipes_ne := by decide

def tenOre : Amounts := ⟨[("ore", 10)], by decide⟩

/-- Ten ore pay for five blades. -/
theorem blades_with_ore :
    (∃ action, professionAction (oreState tenOre) defaultPolicy = some action ∧
        Paid (oreState tenOre) action) ∧
      ¬ Executable (oreState noAmounts) defaultPolicy := by
  constructor
  · have hcovered : ∀ listed ∈ (oreState tenOre).recipes, SlotsCovered (oreState tenOre) listed := by
      intro listed hlisted n _ hn
      have hfive : n ≤ 5 := hn
      rcases List.mem_cons.mp hlisted with rfl | hlisted
      · intro input hinput
        obtain rfl := List.mem_singleton.mp hinput
        show n * 2 ≤ 10
        omega
      · obtain rfl := List.mem_singleton.mp hlisted
        intro input hinput
        cases hinput
    have hexecutable := (refills_executable_when_paid (oreState tenOre) defaultPolicy).1
      (.inr (.inr fun _ _ listed hlisted _ => hcovered listed hlisted))
    refine hexecutable.2 ?_ (by decide) (by decide)
    exact ⟨_, List.mem_cons_self, hcovered _ List.mem_cons_self 1 le_rfl (by decide)⟩
  · refine (refills_executable_when_paid _ defaultPolicy).2 (by decide) (by decide) ?_ ?_
    · exact ⟨_, List.mem_cons_self, by decide⟩
    · intro recipe hlead n hn _ hcovers
      obtain ⟨hmem, hadmits⟩ := hlead
      rcases List.mem_cons.mp hmem with rfl | hmem
      · have hore : n * 2 ≤ 0 := hcovers _ List.mem_cons_self
        omega
      · obtain rfl := List.mem_singleton.mp hmem
        revert hadmits
        decide

/-- Without any ore, five blades are queued. -/
theorem blades_without_ore :
    (∃ action, professionAction (oreState noAmounts) defaultPolicy = some action ∧
        action.actionKey.val = "blade" ∧ action.count.val = 5 ∧
        (oreState noAmounts).balances.get "ore" = 0) ∧
      ¬ Executable (oreState noAmounts) defaultPolicy := by
  have hblades : professionAction (oreState noAmounts) defaultPolicy =
      some ⟨⟨"blade", by decide⟩, ⟨5, by decide⟩⟩ := by rfl
  refine ⟨⟨_, hblades, rfl, rfl, rfl⟩, fun h => ?_⟩
  exact absurd (h.1 _ hblades _ (List.mem_cons_self ..) rfl) (by decide)

end PolicyEngine

end PlaceGame
