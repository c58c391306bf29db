import PlaceGame.Policy.Builders

/-!
# PlaceGame.Policy.Arranged

The projections of the policy engine after normalising. None of them raises, and each declared array
comes out as the array of its records sorted by key.
-/

namespace PlaceGame

open Plans Sorting Projection

namespace PolicyEngine

variable {E : EnginePorts} {path : String}

/-! ## Records -/

theorem normal_ofNat? (n : Option Nat) : Normal keyed path (.ofNat? n) := by
  cases n <;> rfl

theorem normal_ofStr? (s : Option String) : Normal keyed path (.ofStr? s) := by
  cases s <;> rfl

theorem normal_strs {α : Type} (text : α → String) (l : List α)
    (hnone : keyedField keyed path = none) : Normal keyed path (.arr (l.map fun a => .str (text a))) := by
  refine .undeclared hnone fun v hv => ?_
  obtain ⟨a, -, rfl⟩ := List.mem_map.mp hv
  rfl

theorem fieldText_record {field s : String} {fields : List (String × Json)}
    (hkeys : (fields.map Prod.fst).Nodup) (h : fields.lookup field = some (.str s)) :
    fieldText field (arrange keyed path (.obj fields)) = ↑s := by
  rw [fieldText, get?_arrange hkeys, h]
  rfl

/-- The records of a declared array: they can be normalised, and the key is the field `key`. -/
structure Records {α : Type} (path : String) (json : α → Json) (key : α → String) : Prop where
  declared : keyedField keyed path = some "key"
  normal : ∀ a, Normal keyed path (json a)
  text : ∀ a, fieldText "key" (arrange keyed path (json a)) = ↑(key a)

namespace Records

variable {α : Type} {json : α → Json} {key : α → String}

theorem normal_arr (h : Records path json key) (l : List α) :
    Normal keyed path (.arr (l.map json)) := by
  refine .declared h.declared (fun v hv => ?_) fun v hv => ?_
  · obtain ⟨a, -, rfl⟩ := List.mem_map.mp hv
    exact h.normal a
  · obtain ⟨a, -, rfl⟩ := List.mem_map.mp hv
    rw [h.text]
    exact WithBot.coe_ne_bot

theorem arrange_arr (h : Records path json key) (l : List α) :
    arrange keyed path (.arr (l.map json)) =
      .arr ((sortBy key l).map fun a => arrange keyed path (json a)) :=
  arrange_declared json key l h.declared h.text

/-- With distinct keys the order of the elements does not show. -/
theorem arrange_perm (h : Records path json key) {l l' : List α} (hkeys : (l.map key).Nodup)
    (hperm : l.Perm l') :
    arrange keyed path (.arr (l.map json)) = arrange keyed path (.arr (l'.map json)) := by
  rw [h.arrange_arr, h.arrange_arr, sortBy_eq_of_perm hkeys hperm]

end Records

theorem keyed_arrays : ∀ path ∈ ["entries", "equipment", "affixes", "instances", "queue", "recipes"],
    keyedField keyed path = some "key" := by decide +kernel

theorem undeclared_arrays : ∀ path ∈ [childPath "entries" "difficultyOptions",
    childPath "selection" "skills"], keyedField keyed path = none := by decide +kernel

theorem options_undeclared : keyedField keyed (childPath "entries" "difficultyOptions") = none :=
  undeclared_arrays _ (by simp)

theorem skills_undeclared : keyedField keyed (childPath "selection" "skills") = none :=
  undeclared_arrays _ (by simp)

theorem entryRecords : Records "entries" entryJson fun entry => entry.key.val where
  declared := keyed_arrays _ (by simp)
  normal entry := by
    refine .obj fun e he => ?_
    simp only [List.mem_cons, List.not_mem_nil, or_false] at he
    rcases he with rfl | rfl | rfl | rfl | rfl | rfl | rfl
    · rfl
    · rfl
    · rfl
    · exact normal_ofNat? _
    · exact normal_ofStr? _
    · exact normal_ofStr? _
    · exact normal_strs _ _ options_undeclared
  text entry := fieldText_record (by simp) rfl

theorem slotRecords : Records "equipment" slotJson fun slot => slot.key.val where
  declared := keyed_arrays _ (by simp)
  normal slot := by
    refine .obj fun e he => ?_
    simp only [List.mem_cons, List.not_mem_nil, or_false] at he
    rcases he with rfl | rfl | rfl <;> rfl
  text slot := fieldText_record (by simp) rfl

theorem affixRecords : Records "affixes" affixJson fun affix => affix.key.val where
  declared := keyed_arrays _ (by simp)
  normal affix := by
    refine .obj fun e he => ?_
    simp only [List.mem_cons, List.not_mem_nil, or_false] at he
    rcases he with rfl | rfl <;> rfl
  text affix := fieldText_record (by simp) rfl

theorem instanceRecords : Records "instances" instanceJson fun item => item.key.val where
  declared := keyed_arrays _ (by simp)
  normal item := by
    refine .obj fun e he => ?_
    simp only [List.mem_cons, List.not_mem_nil, or_false] at he
    rcases he with rfl | rfl | rfl | rfl | rfl | rfl <;> rfl
  text item := fieldText_record (by simp) rfl

theorem queueRecords : Records "queue" queueJson fun item => item.actionKey.val where
  declared := keyed_arrays _ (by simp)
  normal item := by
    refine .obj fun e he => ?_
    simp only [List.mem_cons, List.not_mem_nil, or_false] at he
    rcases he with rfl | rfl <;> rfl
  text item := fieldText_record (by simp) rfl

theorem normal_amounts (amounts : Amounts) : Normal keyed path (amountsJson amounts) := by
  refine .obj fun e he => ?_
  obtain ⟨a, -, rfl⟩ := List.mem_map.mp he
  rfl

theorem recipeRecords : Records "recipes" recipeJson fun item => item.key.val where
  declared := keyed_arrays _ (by simp)
  normal item := by
    refine .obj fun e he => ?_
    simp only [List.mem_cons, List.not_mem_nil, or_false] at he
    rcases he with rfl | rfl | rfl | rfl | rfl | rfl
    · rfl
    · rfl
    · rfl
    · rfl
    · exact normal_amounts _
    · rfl
  text item := fieldText_record (by simp) rfl

/-! ## Projections -/

theorem normal_potion (potion : PotionState) : Normal keyed path (potionJson potion) := by
  refine .obj fun e he => ?_
  simp only [List.mem_cons, List.not_mem_nil, or_false] at he
  rcases he with rfl | rfl <;> exact normal_ofStr? _

theorem normal_selection (action : BossChallengeAction) (preview : BossPreview) :
    Normal keyed "selection" (selectionJson action preview) := by
  refine .obj fun e he => ?_
  simp only [List.mem_cons, List.not_mem_nil, or_false] at he
  rcases he with rfl | rfl | rfl | rfl | rfl | rfl | rfl | rfl
  · rfl
  · rfl
  · exact normal_strs (fun skill => skill) _ skills_undeclared
  · rfl
  · exact normal_ofStr? _
  · rfl
  · rfl
  · refine .obj fun e he => ?_
    simp only [List.mem_cons, List.not_mem_nil, or_false] at he
    rcases he with rfl | rfl | rfl | rfl <;> rfl

theorem normal_bossProjection (state : BossState) (selection : Option BossSelection) :
    Normal keyed "" (bossProjection state selection) := by
  refine .obj fun e he => ?_
  cases List.mem_append.mp he with
  | inl he =>
    simp only [List.mem_cons, List.not_mem_nil, or_false] at he
    rcases he with rfl | rfl | rfl | rfl | rfl | rfl
    · exact entryRecords.normal_arr _
    · rfl
    · rfl
    · exact slotRecords.normal_arr _
    · exact normal_potion _
    · exact affixRecords.normal_arr _
  | inr he =>
    unfold selectionFields at he
    split at he
    · cases List.mem_singleton.mp he
      exact normal_selection _ _
    · cases he

theorem normal_worldProjection (state : WorldBossState) :
    Normal keyed "" (worldProjection state) := by
  refine .obj fun e he => ?_
  cases List.mem_singleton.mp he
  exact instanceRecords.normal_arr _

theorem normal_professionProjection (state : ProfessionState) :
    Normal keyed "" (professionProjection state) := by
  refine .obj fun e he => ?_
  simp only [List.mem_cons, List.not_mem_nil, or_false] at he
  rcases he with rfl | rfl | rfl | rfl | rfl | rfl
  · rfl
  · exact queueRecords.normal_arr _
  · rfl
  · exact recipeRecords.normal_arr _
  · exact normal_amounts _
  · rfl

/-- A plan reads its projection only through the arranged form. -/
theorem plan_congr {P : Ports} {locked : AccountService.LockedAccount} {family : ActionFamily}
    {decisions : List Plans.Decision} {p p' : Json} {now : Time} {id : PlanId} {risk : RiskClass}
    (hp : Normal keyed "" p) (hp' : Normal keyed "" p')
    (h : arrange keyed "" p = arrange keyed "" p') :
    plan P locked family decisions p now id risk = plan P locked family decisions p' now id risk := by
  have hfingerprint : Projection.canonicalFingerprint P family p keyed =
      Projection.canonicalFingerprint P family p' keyed := by
    rw [Projection.canonicalFingerprint, Projection.canonicalFingerprint, hp, hp', h]
  rw [plan, plan, hfingerprint]

def planText (family : ActionFamily) (projection : Json) : String :=
  canonicalJson
    (.obj [("family", .str family.text), ("projection", arrange keyed "" projection)])

theorem canonicalFingerprint_normal {P : Ports} {family : ActionFamily} {p : Json}
    (hp : Normal keyed "" p) :
    Projection.canonicalFingerprint P family p keyed =
      .ok ("pgfp:v1:" ++ P.sha256 (planText family p)) := by
  rw [Projection.canonicalFingerprint, hp]
  rfl

theorem plan_isOk {P : Ports} {locked : AccountService.LockedAccount} {family : ActionFamily}
    {decision : Plans.Decision} {p : Json} {now : Time} {id : PlanId} {risk : RiskClass} {s : String}
    (hs : Projection.canonicalFingerprint P family p keyed = .ok s)
    (hfingerprint : isFingerprint s = true) :
    (plan P locked family [decision] p now id risk).isOk = true := by
  have hversion : (1 : Int) ≤ locked.policy.version := by
    exact_mod_cast locked.policy.version_ge
  have hfamily : OneFamily [decision] := by
    intro d hd e he
    rw [List.mem_singleton.mp hd, List.mem_singleton.mp he]
  rw [plan, hs]
  simp [bind, Except.bind, validateDetails, hfingerprint, hversion, hfamily, validatePlan,
    Lifecycle.Valid, Except.isOk, Except.toBool, pure, Except.pure]

end PolicyEngine

end PlaceGame
