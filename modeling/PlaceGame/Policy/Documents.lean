import Mathlib.Data.Finset.Sort
import Mathlib.Data.String.Basic
import PlaceGame.Json.Wire
import PlaceGame.Policy.Models

/-!
# PlaceGame.Policy.Documents

The JSON document of an account policy: `model_dump(mode="json")` and `model_validate`.

A set is dumped as the list of its members. Their order is up to the set and is the sorted one here;
reading the document back does not depend on it.
-/

namespace PlaceGame

def Quality.text : Quality → String
  | .white => "white"
  | .green => "green"
  | .blue => "blue"

namespace PolicyWires

/-- `frozenset[str]`. -/
def strings : Wire (Finset String) :=
  (Wire.list Wire.str).via (fun s => s.sort (· ≤ ·)) (fun l => some l.toFinset) fun s => by simp

def quality : Wire Quality :=
  Wire.literal [.white, .green, .blue] Quality.text (fun q => by cases q <;> decide)
    fun a b h => by cases a <;> cases b <;> first | rfl | exact absurd h (by decide)

end PolicyWires

namespace AccountPolicy

open PolicyWires

def dumpFields (p : AccountPolicy) : List (String × Json) :=
  [("idle_threshold_minutes", Wire.nat.write p.idleThresholdMinutes),
    ("boss_min_chance", Wire.nat.write p.bossMinChance),
    ("personal_paid_attempts", Wire.bool.write p.personalPaidAttempts),
    ("world_collaboration_enabled", Wire.bool.write p.worldCollaborationEnabled),
    ("world_attempts", Wire.nat.write p.worldAttempts),
    ("material_reserve", Wire.nat.write p.materialReserve),
    ("profession_food_target", Wire.nat.write p.professionFoodTarget),
    ("profession_potion_target", Wire.nat.write p.professionPotionTarget),
    ("profession_horizon_hours", Wire.nat.write p.professionHorizonHours),
    ("inventory_warning_percent", Wire.nat.write p.inventoryWarningPercent),
    ("inventory_critical_percent", Wire.nat.write p.inventoryCriticalPercent),
    ("inventory_auto_quality_ceiling", quality.write p.inventoryAutoQualityCeiling),
    ("inventory_keep_item_ids", strings.write p.inventoryKeepItemIds),
    ("inventory_protected_affixes", strings.write p.inventoryProtectedAffixes),
    ("warehouse_auto_deposit_types", strings.write p.warehouseAutoDepositTypes),
    ("safe_reward_claims", Wire.bool.write p.safeRewardClaims)]

/-- `policy.model_dump(mode="json")`. -/
def modelDump (p : AccountPolicy) : Json := .obj p.dumpFields

def fieldNames : List String :=
  ["idle_threshold_minutes", "boss_min_chance", "personal_paid_attempts",
    "world_collaboration_enabled", "world_attempts", "material_reserve", "profession_food_target",
    "profession_potion_target", "profession_horizon_hours", "inventory_warning_percent",
    "inventory_critical_percent", "inventory_auto_quality_ceiling", "inventory_keep_item_ids",
    "inventory_protected_affixes", "warehouse_auto_deposit_types", "safe_reward_claims"]

/-- An integer field with its bounds; `Literal[3]` is the field between 3 and 3. -/
def bounded (low : Nat) (high : Option Nat) (name : String) (default : Nat)
    (fields : List (String × Json)) :
    Option { n : Nat // low ≤ n ∧ high.all (fun h => decide (n ≤ h)) = true } :=
  match Wire.nat.fieldD [name] default fields with
  | some n =>
    if h : low ≤ n ∧ high.all (fun h => decide (n ≤ h)) = true then some ⟨n, h⟩ else none
  | none => none

/-- `AccountPolicy.model_validate(document)`. -/
def modelValidate : Json → Option AccountPolicy
  | .obj fields =>
    if Wire.noExtra (fieldNames.map fun name => [name]) fields then do
      let idleThreshold ← bounded 60 none "idle_threshold_minutes" 690 fields
      let bossMinChance ← bounded 50 (some 98) "boss_min_chance" 80 fields
      let personalPaidAttempts ← Wire.bool.fieldD ["personal_paid_attempts"] false fields
      let worldCollaborationEnabled ← Wire.bool.fieldD ["world_collaboration_enabled"] true fields
      let worldAttempts ← bounded 3 (some 3) "world_attempts" 3 fields
      let materialReserve ← bounded 0 none "material_reserve" 64 fields
      let foodTarget ← bounded 0 none "profession_food_target" 6 fields
      let potionTarget ← bounded 0 none "profession_potion_target" 12 fields
      let horizon ← bounded 1 none "profession_horizon_hours" 12 fields
      let warning ← bounded 1 (some 99) "inventory_warning_percent" 85 fields
      let critical ← bounded 1 (some 100) "inventory_critical_percent" 95 fields
      let ceiling ← quality.fieldD ["inventory_auto_quality_ceiling"] .blue fields
      let keep ← strings.fieldD ["inventory_keep_item_ids"] ∅ fields
      let affixes ← strings.fieldD ["inventory_protected_affixes"] ∅ fields
      let deposit ← strings.fieldD ["warehouse_auto_deposit_types"]
        {"boss_material", "profession_material"} fields
      let safeRewardClaims ← Wire.bool.fieldD ["safe_reward_claims"] true fields
      -- `ordered_inventory_thresholds`
      if h : warning.1 ≤ critical.1 then
        some {
          idleThresholdMinutes := idleThreshold.1
          bossMinChance := bossMinChance.1
          personalPaidAttempts := personalPaidAttempts
          worldCollaborationEnabled := worldCollaborationEnabled
          worldAttempts := worldAttempts.1
          materialReserve := materialReserve.1
          professionFoodTarget := foodTarget.1
          professionPotionTarget := potionTarget.1
          professionHorizonHours := horizon.1
          inventoryWarningPercent := warning.1
          inventoryCriticalPercent := critical.1
          inventoryAutoQualityCeiling := ceiling
          inventoryKeepItemIds := keep
          inventoryProtectedAffixes := affixes
          warehouseAutoDepositTypes := deposit
          safeRewardClaims := safeRewardClaims
          idleThreshold_ge := idleThreshold.2.1
          bossMinChance_mem := ⟨bossMinChance.2.1, by simpa using bossMinChance.2.2⟩
          worldAttempts_eq := Nat.le_antisymm (by simpa using worldAttempts.2.2) worldAttempts.2.1
          professionHorizon_ge := horizon.2.1
          inventoryWarning_mem := ⟨warning.2.1, by simpa using warning.2.2⟩
          inventoryCritical_mem := ⟨critical.2.1, by simpa using critical.2.2⟩
          inventory_ordered := h }
      else none
    else none
  | _ => none

theorem bounded_of_lookup {low : Nat} {high : Option Nat} {name : String} {default n : Nat}
    {fields : List (String × Json)} (hlook : fields.lookup name = some (Wire.nat.write n))
    (h : low ≤ n ∧ high.all (fun h => decide (n ≤ h)) = true) :
    bounded low high name default fields = some ⟨n, h⟩ := by
  have hfield : Wire.nat.fieldD [name] default fields = some n :=
    Wire.fieldD_of_lookup (by simpa [Wire.field?] using hlook)
  simp only [bounded, hfield, dif_pos h]

theorem noExtra_dumpFields (p : AccountPolicy) :
    Wire.noExtra (fieldNames.map fun name => [name]) p.dumpFields = true := by
  simp [Wire.noExtra, fieldNames, dumpFields, List.lookup_cons, List.lookup_nil]

theorem modelValidate_modelDump (p : AccountPolicy) : modelValidate p.modelDump = some p := by
  have hbound : ∀ {low high name default n},
      p.dumpFields.lookup name = some (Wire.nat.write n) →
      (h : low ≤ n ∧ high.all (fun h => decide (n ≤ h)) = true) →
      bounded low high name default p.dumpFields = some ⟨n, h⟩ := bounded_of_lookup
  have hfield : ∀ {α : Type} {w : Wire α} {name : String} {default a : α},
      p.dumpFields.lookup name = some (w.write a) →
      w.fieldD [name] default p.dumpFields = some a := by
    intro α w name default a h
    exact Wire.fieldD_of_lookup (by simpa [Wire.field?] using h)
  have hworld : 3 ≤ p.worldAttempts ∧ p.worldAttempts ≤ 3 := by
    have := p.worldAttempts_eq
    omega
  rw [modelDump, modelValidate, if_pos p.noExtra_dumpFields,
    hbound rfl ⟨p.idleThreshold_ge, rfl⟩,
    hbound rfl ⟨p.bossMinChance_mem.1, by simpa using p.bossMinChance_mem.2⟩,
    @hfield _ Wire.bool "personal_paid_attempts" _ _ rfl,
    @hfield _ Wire.bool "world_collaboration_enabled" _ _ rfl,
    hbound rfl ⟨hworld.1, by simpa using hworld.2⟩,
    @hbound 0 none "material_reserve" _ _ rfl ⟨Nat.zero_le _, rfl⟩,
    @hbound 0 none "profession_food_target" _ _ rfl ⟨Nat.zero_le _, rfl⟩,
    @hbound 0 none "profession_potion_target" _ _ rfl ⟨Nat.zero_le _, rfl⟩,
    hbound rfl ⟨p.professionHorizon_ge, rfl⟩,
    hbound rfl ⟨p.inventoryWarning_mem.1, by simpa using p.inventoryWarning_mem.2⟩,
    hbound rfl ⟨p.inventoryCritical_mem.1, by simpa using p.inventoryCritical_mem.2⟩,
    @hfield _ quality "inventory_auto_quality_ceiling" _ _ rfl,
    @hfield _ strings "inventory_keep_item_ids" _ _ rfl,
    @hfield _ strings "inventory_protected_affixes" _ _ rfl,
    @hfield _ strings "warehouse_auto_deposit_types" _ _ rfl,
    @hfield _ Wire.bool "safe_reward_claims" _ _ rfl]
  exact dif_pos p.inventory_ordered

end AccountPolicy

end PlaceGame
