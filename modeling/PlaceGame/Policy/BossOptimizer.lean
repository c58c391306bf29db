import Mathlib.Data.Prod.Lex
import PlaceGame.Game.States
import PlaceGame.Lists.Sorting
import PlaceGame.Policy.Models
import PlaceGame.Policy.TypedPlans

/-!
# PlaceGame.Policy.BossOptimizer

`BossOptimizer`: for each entry and difficulty it previews twelve configurations without an affix,
keeps three of them, and tries the affixes on these with twelve further previews. `m` is where the
previews are asked and answered.
-/

namespace PlaceGame

open Plans Sorting

namespace Plans.Decision

def selected (family : ActionFamily) (reason : Reason) (action : RegisteredAction)
    (h : action.family = family := by rfl) : Decision where
  family := family
  reason := reason
  state := .selected
  action := some action
  selected_action _ := rfl
  action_family _ ha := Option.some.inj ha ▸ h

def skipped (family : ActionFamily) (reason : Reason) : Decision where
  family := family
  reason := reason
  state := .skipped
  action := none
  selected_action h := nomatch h
  action_family _ ha := nomatch ha

def blocked (family : ActionFamily) (reason : Reason) : Decision where
  family := family
  reason := reason
  state := .blocked
  action := none
  selected_action h := nomatch h
  action_family _ ha := nomatch ha

end Plans.Decision

structure BossSelection where
  bossKey : Option Key
  difficulty : Option Difficulty
  preview : Option BossPreview
  action : Option BossChallengeAction
  decision : Plans.Decision

namespace BossOptimizer

structure Candidate where
  request : BossPreviewRequest
  preview : BossPreview

abbrev TieKey : Type := String ×ₗ String ×ₗ String

def Candidate.tieKey (c : Candidate) : TieKey :=
  toLex (",".intercalate c.request.selectedSkillKeys.val,
    toLex (c.request.buffKey.text, c.request.affixKey.getD ""))

/-- What the shortlist is sorted by: `-int(predicted_win)`, `-chance`, `-player_hp…`, `boss_hp…`,
`tie_key`. -/
def Candidate.rank (c : Candidate) : ℤ ×ₗ ℚ ×ₗ ℚ ×ₗ ℚ ×ₗ TieKey :=
  toLex (-(if c.preview.predictedWin then 1 else 0),
    toLex (-c.preview.chance.val,
      toLex (-c.preview.playerHpRemainingPercent.val,
        toLex (c.preview.bossHpRemainingPercent.val, c.tieKey))))

def eligible (preview : BossPreview) (policy : VersionedPolicy) : Bool :=
  preview.predictedWin && decide ((policy.bossMinChance : ℚ) ≤ preview.chance.val)

def slotRank (slot : EquipmentSlot) : ℕ ×ₗ String := toLex (slot.score, slot.key.val)

def targetSlot (slots : List EquipmentSlot) : Option EquipmentSlot :=
  (slots.filter (·.eligible)).argmin slotRank

def skills : List String := ["output", "survival", "balanced"]

def buffs : List BuffKey := [.none, .assault, .guard, .focus]

/-- The twelve requests without an affix, in the order of the two loops. -/
def baselineRequests (entry : BossEntryState) (difficulty : Difficulty) (slot : EquipmentSlot) :
    List BossPreviewRequest :=
  skills.flatMap fun skill => buffs.map fun buff =>
    { bossKey := entry.key
      difficulty := difficulty
      selectedSkillKeys := ⟨[skill], (by simp)⟩
      buffKey := buff
      affixKey := none
      targetSlot := slot.key
      useMaterialBoost := false }

def entryRank (entry : BossEntryState) : ℤ ×ₗ String :=
  toLex (-(entry.requiredLevel : ℤ), entry.key.val)

def affixRank (affix : BossAffix) : ℚ ×ₗ String := toLex (-affix.multiplier.val, affix.key.val)

def difficulties : List Difficulty := [.nightmare, .hard, .normal]

variable {m : Type → Type} [Monad m] (bossPreview : BossPreviewRequest → m BossPreview)

def previewAll : List BossPreviewRequest → m (List Candidate)
  | [] => return []
  | request :: requests => do
    let preview ← bossPreview request
    let candidates ← previewAll requests
    return ⟨request, preview⟩ :: candidates

/-- The loop over the shortlist for one affix: how many affix previews have been made after it, and
the candidate it stopped at. -/
def tryCandidates (policy : VersionedPolicy) (affix : BossAffix) :
    List Candidate → Nat → m (Nat × Option Candidate)
  | [], previewed => return (previewed, none)
  | candidate :: shortlist, previewed => do
    if 12 ≤ previewed then return (previewed, none)
    else
      let request := { candidate.request with affixKey := some affix.key.val }
      let preview ← bossPreview request
      if eligible preview policy then return (previewed + 1, some ⟨request, preview⟩)
      else tryCandidates policy affix shortlist (previewed + 1)

def tryAffixes (policy : VersionedPolicy) (shortlist : List Candidate) :
    List BossAffix → Nat → Option Candidate → m (Option Candidate)
  | [], _, final => return final
  | affix :: affixes, previewed, final => do
    let (previewed, proposed) ← tryCandidates bossPreview policy affix shortlist previewed
    let final := proposed.or final
    if final.any fun c => c.request.affixKey = some affix.key.val then return final
    else tryAffixes policy shortlist affixes previewed final

def useMaterial (difficulty : Difficulty) (state : BossState) (policy : VersionedPolicy) : Bool :=
  (difficulty == .hard || difficulty == .nightmare) &&
    decide (policy.materialReserve < state.materialBalance)

def bossEligible : Reason := ⟨"boss_eligible", (by decide +kernel)⟩

def challenge (entry : BossEntryState) (difficulty : Difficulty) (slot : EquipmentSlot)
    (state : BossState) (policy : VersionedPolicy) (final : Candidate) : BossChallengeAction where
  family := .personalBoss
  bossKey := entry.key
  difficulty := difficulty
  selectedSkillKeys := final.request.selectedSkillKeys
  buffKey := final.request.buffKey
  affixKey := final.request.affixKey
  targetSlot := slot.key
  useMaterialBoost := useMaterial difficulty state policy

def select (entry : BossEntryState) (difficulty : Difficulty) (slot : EquipmentSlot)
    (state : BossState) (policy : VersionedPolicy) (final : Candidate) : BossSelection :=
  let action := challenge entry difficulty slot state policy final
  { bossKey := some entry.key
    difficulty := some difficulty
    preview := some final.preview
    action := some action
    decision := .selected .personalBoss bossEligible (.bossChallenge action) }

def forEntry (entry : BossEntryState) (difficulty : Difficulty) (slot : EquipmentSlot)
    (state : BossState) (policy : VersionedPolicy) : m (Option BossSelection) := do
  let baseline ← previewAll bossPreview (baselineRequests entry difficulty slot)
  let shortlist := (sortBy Candidate.rank baseline).take 3
  let final := (shortlist.filter fun c => eligible c.preview policy).head?
  let affixes := (sortBy affixRank state.affixes).take 12
  let final ← tryAffixes bossPreview policy shortlist affixes 0 final
  return final.map (select entry difficulty slot state policy)

def forDifficulties (entry : BossEntryState) (slot : EquipmentSlot) (state : BossState)
    (policy : VersionedPolicy) : List Difficulty → m (Option BossSelection)
  | [] => return none
  | difficulty :: rest => do
    if difficulty ∈ entry.difficultyOptions.val then
      match ← forEntry bossPreview entry difficulty slot state policy with
      | some selection => return some selection
      | none => forDifficulties entry slot state policy rest
    else forDifficulties entry slot state policy rest

def forEntries (slot : EquipmentSlot) (state : BossState) (policy : VersionedPolicy) :
    List BossEntryState → m (Option BossSelection)
  | [] => return none
  | entry :: entries => do
    if entry.blockedReason.isSome then forEntries slot state policy entries
    else
      match ← forDifficulties bossPreview entry slot state policy difficulties with
      | some selection => return some selection
      | none => forEntries slot state policy entries

def blockedSelection (reason : Reason) : BossSelection where
  bossKey := none
  difficulty := none
  preview := none
  action := none
  decision := .blocked .personalBoss reason

def potionSwitchRequired (potion : PotionState) : Bool :=
  decide (potion.requiredKey ≠ none ∧ potion.requiredKey ≠ potion.activeKey)

def noEligibleBoss : Reason := ⟨"no_eligible_boss", (by decide +kernel)⟩

def optimize (state : BossState) (policy : VersionedPolicy) : m BossSelection := do
  if potionSwitchRequired state.potion then
    return blockedSelection ⟨"combat_potion_switch_required", (by decide +kernel)⟩
  else
    match targetSlot state.equipment with
    | none => return blockedSelection ⟨"no_eligible_equipment", (by decide +kernel)⟩
    | some slot =>
      match ← forEntries bossPreview slot state policy (sortBy entryRank state.entries) with
      | some selection => return selection
      | none => return blockedSelection noEligibleBoss

end BossOptimizer

end PlaceGame
