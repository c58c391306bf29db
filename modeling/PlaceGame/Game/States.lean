import Mathlib.Data.PNat.Basic
import Mathlib.Data.Rat.Defs
import PlaceGame.Policy.Actions

/-!
# PlaceGame.Game.States

The parts of the game state that the policy engine plans from, and the preview it asks for. A float
of the answers stands here as the decimal that `str` prints for it, which has the order of the
floats; the infinite multipliers that the schema accepts are left out. What the Pydantic models check
is in the types.
-/

namespace PlaceGame

open Plans (Key Difficulty BuffKey)

/-! ## Bosses -/

structure BossEntryState where
  key : Key
  type : Key
  requiredLevel : Nat
  attempts : Option Nat := none
  blockedReason : Option String := none
  refreshKey : Option String := none
  difficultyOptions : { options : List Difficulty // 1 ≤ options.length }

structure EquipmentSlot where
  key : Key
  score : Nat
  eligible : Bool

structure PotionState where
  activeKey : Option String := none
  requiredKey : Option String := none

structure BossAffix where
  key : Key
  multiplier : { q : ℚ // 0 < q }

structure BossState where
  entries : List BossEntryState
  freeAttempts : Nat
  materialBalance : Nat
  equipment : List EquipmentSlot
  potion : PotionState
  affixes : List BossAffix
  entries_ne : 1 ≤ entries.length
  equipment_ne : 1 ≤ equipment.length

structure BossPreviewRequest where
  bossKey : Key
  difficulty : Difficulty
  selectedSkillKeys : { keys : List String // keys.length ≤ 3 }
  buffKey : BuffKey
  affixKey : Option String
  targetSlot : Key
  useMaterialBoost : Bool
  deriving DecidableEq

/-- `Field(ge=0, le=100)`. -/
abbrev Percent : Type := { q : ℚ // 0 ≤ q ∧ q ≤ 100 }

structure BossPreview where
  predictedWin : Bool
  chance : Percent
  playerHpRemainingPercent : Percent
  bossHpRemainingPercent : Percent

/-! ## World bosses and professions -/

structure WorldBossInstance where
  key : Key
  lifecycle : Key
  active : Bool
  alive : Bool
  myAttemptCount : Nat
  remainingAttemptCount : Nat

structure WorldBossState where
  instances : List WorldBossInstance
  instances_ne : 1 ≤ instances.length

/-- `dict[str, int]`: entries in their order, a key once. -/
abbrev Amounts : Type := { entries : List (String × Int) // (entries.map Prod.fst).Nodup }

/-- `amounts.get(key, 0)`. -/
def Amounts.get (amounts : Amounts) (key : String) : Int := (amounts.val.lookup key).getD 0

structure ProfessionQueueEntry where
  actionKey : Key
  remainingSeconds : Nat

structure ProfessionRecipe where
  key : Key
  durationSeconds : ℕ+
  outputKey : Key
  outputCount : ℕ+
  requiredInputs : Amounts
  unlockMilestone : Bool := false

structure ProfessionState where
  selectedProfessionKey : Key
  queue : List ProfessionQueueEntry
  unlockProgress : Nat
  recipes : List ProfessionRecipe
  balances : Amounts
  recipeVersion : Key
  recipes_ne : 1 ≤ recipes.length

end PlaceGame
