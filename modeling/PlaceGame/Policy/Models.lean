import Mathlib.Data.Finset.Basic
import PlaceGame.Contracts

/-!
# PlaceGame.Policy.Models

Account policies. The bounds that the Pydantic models check are fields of the structure, so a policy
out of bounds cannot be built.
-/

namespace PlaceGame

inductive Quality where
  | white
  | green
  | blue
  deriving DecidableEq, Repr

/-- Every default passes its own check. -/
structure AccountPolicy where
  idleThresholdMinutes : Nat := 690
  bossMinChance : Nat := 80
  personalPaidAttempts : Bool := false
  worldCollaborationEnabled : Bool := true
  worldAttempts : Nat := 3
  materialReserve : Nat := 64
  professionFoodTarget : Nat := 6
  professionPotionTarget : Nat := 12
  professionHorizonHours : Nat := 12
  inventoryWarningPercent : Nat := 85
  inventoryCriticalPercent : Nat := 95
  inventoryAutoQualityCeiling : Quality := .blue
  inventoryKeepItemIds : Finset String := ∅
  inventoryProtectedAffixes : Finset String := ∅
  warehouseAutoDepositTypes : Finset String := {"boss_material", "profession_material"}
  safeRewardClaims : Bool := true
  idleThreshold_ge : 60 ≤ idleThresholdMinutes := by decide
  bossMinChance_mem : 50 ≤ bossMinChance ∧ bossMinChance ≤ 98 := by decide
  worldAttempts_eq : worldAttempts = 3 := by decide
  professionHorizon_ge : 1 ≤ professionHorizonHours := by decide
  inventoryWarning_mem : 1 ≤ inventoryWarningPercent ∧ inventoryWarningPercent ≤ 99 := by decide
  inventoryCritical_mem : 1 ≤ inventoryCriticalPercent ∧ inventoryCriticalPercent ≤ 100 := by decide
  inventory_ordered : inventoryWarningPercent ≤ inventoryCriticalPercent := by decide

structure VersionedPolicy extends AccountPolicy where
  version : Nat
  version_ge : 1 ≤ version

/-- The policy of an account for which none was saved. -/
def defaultPolicy : VersionedPolicy := { version := 1, version_ge := by decide }

end PlaceGame
