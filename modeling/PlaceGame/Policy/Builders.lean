import PlaceGame.Policy.BossOptimizer
import PlaceGame.Policy.Engine
import PlaceGame.Text.Digits

/-!
# PlaceGame.Policy.Builders

The boss, world boss and profession parts of the policy engine: what each planner decides from the
state that the game answered, and the projection that its plan is fingerprinted over.
-/

namespace PlaceGame

open AccountService Plans Sorting BossOptimizer

/-- An hour and a minute on the clock of `SHANGHAI`. -/
structure ClockTime where
  hour : Nat
  minute : Nat
  deriving DecidableEq, Repr

/-- `shanghai` is `now.astimezone(SHANGHAI)`, from the time zone database. -/
structure EnginePorts extends Ports where
  shanghai : Time → ClockTime

def Json.ofStr? : Option String → Json
  | none => .null
  | some s => .str s

namespace PolicyEngine

/-! ## Projections -/

/-- The decimals of a decimal fraction with this denominator. -/
def decimals (den : ℕ) : ℕ :=
  ((List.range (Nat.log2 den + 1)).find? fun places => 10 ^ places % den = 0).getD 0

/-- `_decimal_text`: all digits of the value, and no trailing zeros. -/
def decimalText (value : ℚ) : String :=
  let places := decimals value.den
  let digits := value.num.natAbs * (10 ^ places / value.den)
  let whole := toString (digits / 10 ^ places)
  let text :=
    if places = 0 then whole
    else whole ++ "." ++ String.ofList (Text.fixedText 10 places (digits % 10 ^ places))
  if value < 0 then "-" ++ text else text

example : decimalText 90 = "90" ∧ decimalText (25 / 4) = "6.25" ∧ decimalText (1 / 20) = "0.05" := by
  decide +kernel

def entryJson (entry : BossEntryState) : Json :=
  .obj
    [("key", .str entry.key.val), ("type", .str entry.type.val),
      ("requiredLevel", .int entry.requiredLevel), ("attempts", .ofNat? entry.attempts),
      ("blockedReason", .ofStr? entry.blockedReason), ("refreshKey", .ofStr? entry.refreshKey),
      ("difficultyOptions", .arr (entry.difficultyOptions.val.map fun d => .str d.text))]

def slotJson (slot : EquipmentSlot) : Json :=
  .obj [("key", .str slot.key.val), ("score", .int slot.score), ("eligible", .bool slot.eligible)]

def affixJson (affix : BossAffix) : Json :=
  .obj [("key", .str affix.key.val), ("multiplier", .str (decimalText affix.multiplier.val))]

def potionJson (potion : PotionState) : Json :=
  .obj [("activeKey", .ofStr? potion.activeKey), ("requiredKey", .ofStr? potion.requiredKey)]

def previewJson (preview : BossPreview) : Json :=
  .obj
    [("predictedWin", .bool preview.predictedWin), ("chance", .str (decimalText preview.chance.val)),
      ("playerHpRemainingPercent", .str (decimalText preview.playerHpRemainingPercent.val)),
      ("bossHpRemainingPercent", .str (decimalText preview.bossHpRemainingPercent.val))]

def selectionJson (action : BossChallengeAction) (preview : BossPreview) : Json :=
  .obj
    [("bossKey", .str action.bossKey.val), ("difficulty", .str action.difficulty.text),
      ("skills", .arr (action.selectedSkillKeys.val.map fun skill => .str skill)),
      ("buffKey", .str action.buffKey.text), ("affixKey", .ofStr? action.affixKey),
      ("targetSlot", .str action.targetSlot.val), ("materialBoost", .bool action.useMaterialBoost),
      ("preview", previewJson preview)]

def selectionFields : Option BossSelection → List (String × Json)
  | some { action := some action, preview := some preview, .. } =>
    [("selection", selectionJson action preview)]
  | _ => []

def bossProjection (state : BossState) (selection : Option BossSelection) : Json :=
  .obj
    ([("entries", .arr (state.entries.map entryJson)), ("freeAttempts", .int state.freeAttempts),
      ("materialBalance", .int state.materialBalance),
      ("equipment", .arr (state.equipment.map slotJson)), ("potion", potionJson state.potion),
      ("affixes", .arr (state.affixes.map affixJson))] ++ selectionFields selection)

def instanceJson (item : WorldBossInstance) : Json :=
  .obj
    [("key", .str item.key.val), ("lifecycle", .str item.lifecycle.val), ("active", .bool item.active),
      ("alive", .bool item.alive), ("myAttemptCount", .int item.myAttemptCount),
      ("remainingAttemptCount", .int item.remainingAttemptCount)]

def worldProjection (state : WorldBossState) : Json :=
  .obj [("instances", .arr (state.instances.map instanceJson))]

def queueJson (item : ProfessionQueueEntry) : Json :=
  .obj [("key", .str item.actionKey.val), ("remainingSeconds", .int item.remainingSeconds)]

def amountsJson (amounts : Amounts) : Json := .obj (amounts.val.map fun e => (e.1, .int e.2))

def recipeJson (item : ProfessionRecipe) : Json :=
  .obj
    [("key", .str item.key.val), ("durationSeconds", .int item.durationSeconds),
      ("outputKey", .str item.outputKey.val), ("outputCount", .int item.outputCount),
      ("requiredInputs", amountsJson item.requiredInputs),
      ("unlockMilestone", .bool item.unlockMilestone)]

def professionProjection (state : ProfessionState) : Json :=
  .obj
    [("selectedProfessionKey", .str state.selectedProfessionKey.val),
      ("queue", .arr (state.queue.map queueJson)), ("unlockProgress", .int state.unlockProgress),
      ("recipes", .arr (state.recipes.map recipeJson)), ("balances", amountsJson state.balances),
      ("recipeVersion", .str state.recipeVersion.val)]

/-! ## Boss plans -/

section Boss

variable (E : EnginePorts) {m : Type → Type} [Monad m] (bossPreview : BossPreviewRequest → m BossPreview)

def isPersonal (entry : BossEntryState) : Bool := entry.type.val == "personal"

/-- `build_personal_boss_plan`, for the state that the game answered. -/
def buildPersonalBossPlan (locked : LockedAccount) (state : BossState) (now : Time) (id : PlanId) :
    m (Except Exc (TypedActionPlan Time)) := do
  if state.freeAttempts = 0 ∧ locked.policy.personalPaidAttempts = false then
    return plan E.toPorts locked .personalBoss
      [.blocked .personalBoss ⟨"personal_free_attempts_exhausted", (by decide +kernel)⟩]
      (bossProjection state none) now id
  else
    let entries := state.entries.filter isPersonal
    if h : 1 ≤ entries.length then
      let personal : BossState := { state with entries := entries, entries_ne := h }
      let selection ← optimize bossPreview personal locked.policy
      return plan E.toPorts locked .personalBoss [selection.decision]
        (bossProjection personal (some selection)) now id .high
    else return .error (.gameSchemaMismatch "view_sections")

def ordinaryAvailable (entry : BossEntryState) : Bool :=
  (entry.type.val == "map" || entry.type.val == "world") &&
    (entry.attempts.any fun attempts => 0 < attempts) && entry.blockedReason.isNone

/-- The decision of an ordinary plan: that of the optimizer, for the other family. -/
def ordinaryDecision (selection : BossSelection) : Plans.Decision :=
  match selection.action with
  | some action =>
    .selected .ordinaryBoss ⟨"ordinary_boss_eligible", (by decide +kernel)⟩
      (.bossChallenge { action with family := .ordinaryBoss })
  | none =>
    if selection.decision.state = .blocked then .blocked .ordinaryBoss selection.decision.reason
    else selection.decision

def buildOrdinaryBossPlan (locked : LockedAccount) (state : BossState) (now : Time) (id : PlanId) :
    m (Except Exc (TypedActionPlan Time)) := do
  let candidates := state.entries.filter ordinaryAvailable
  if h : 1 ≤ candidates.length then
    let ordinary : BossState := { state with entries := candidates, entries_ne := h }
    let selection ← optimize bossPreview ordinary locked.policy
    return plan E.toPorts locked .ordinaryBoss [ordinaryDecision selection]
      (bossProjection ordinary (some selection)) now id .high
  else
    return plan E.toPorts locked .ordinaryBoss
      [.skipped .ordinaryBoss ⟨"no_ordinary_boss_available", (by decide +kernel)⟩]
      (bossProjection state none) now id

end Boss

/-! ## World boss plans -/

variable (E : EnginePorts)

/-- `(hour, 0) <= (local.hour, local.minute) < (hour + 1, 0)`. -/
def withinHour (hour : Nat) (t : ClockTime) : Bool :=
  decide (toLex (hour, 0) ≤ toLex (t.hour, t.minute)) &&
    decide (toLex (t.hour, t.minute) < toLex (hour + 1, 0))

def worldWindow (now : Time) : Bool :=
  let t := E.shanghai now
  withinHour 10 t || withinHour 16 t || withinHour 20 t

def worldEligible (policy : VersionedPolicy) (item : WorldBossInstance) : Bool :=
  item.active && item.alive && decide (item.myAttemptCount < policy.worldAttempts) &&
    decide (0 < item.remainingAttemptCount)

def worldDecision (state : WorldBossState) (policy : VersionedPolicy) (now : Time) :
    Plans.Decision :=
  if policy.worldCollaborationEnabled = false then
    .skipped .worldBoss ⟨"world_collaboration_disabled", (by decide +kernel)⟩
  else if worldWindow E now = false then
    .skipped .worldBoss ⟨"world_window_closed", (by decide +kernel)⟩
  else
    match (sortBy (fun item => item.key.val) state.instances).find? (worldEligible policy) with
    | some eligible =>
      .selected .worldBoss ⟨"world_assist_eligible", (by decide +kernel)⟩ (.bossAssist eligible.key)
    | none => .skipped .worldBoss ⟨"world_attempts_unavailable", (by decide +kernel)⟩

def buildWorldBossPlan (locked : LockedAccount) (state : WorldBossState) (now : Time) (id : PlanId) :
    Except Exc (TypedActionPlan Time) :=
  plan E.toPorts locked .worldBoss [worldDecision E state locked.policy now] (worldProjection state)
    now id .medium

/-! ## Profession plans -/

def startsWith (s start : String) : Bool := start.toList.isPrefixOf s.toList

def priorities (balances : Amounts) (policy : VersionedPolicy) : List (ProfessionRecipe → Bool) :=
  [fun item => item.unlockMilestone,
    fun item => item.outputKey.val == "food" &&
      decide (balances.get "food" < policy.professionFoodTarget),
    fun item => startsWith item.outputKey.val "potion" &&
      decide (balances.get item.outputKey.val < policy.professionPotionTarget),
    fun item => item.requiredInputs.val.all fun e => decide (e.2 ≤ balances.get e.1)]

/-- `next((item for predicate in priorities for item in recipes if predicate(item)), None)`. -/
def chooseRecipe (predicates : List (ProfessionRecipe → Bool)) (recipes : List ProfessionRecipe) :
    Option ProfessionRecipe :=
  predicates.findSome? fun predicate => recipes.find? predicate

def enqueueCount (capacity horizon queuedSeconds : Int) (durationSeconds : ℕ+) : Int :=
  min capacity (max 1 ((max 0 (horizon - queuedSeconds) + durationSeconds - 1) / durationSeconds))

theorem one_le_enqueueCount {capacity : Int} (h : ¬ capacity ≤ 0) (horizon queuedSeconds : Int)
    (durationSeconds : ℕ+) : 1 ≤ enqueueCount capacity horizon queuedSeconds durationSeconds :=
  le_min (by omega) (le_max_left _ _)

structure ProfessionEnqueueAction where
  actionKey : Key
  count : { n : Int // 1 ≤ n }

def professionAction (state : ProfessionState) (policy : VersionedPolicy) :
    Option ProfessionEnqueueAction :=
  let queuedSeconds : Int := (state.queue.map (·.remainingSeconds)).sum
  if 2 ≤ state.queue.length ∧ 6 * 3600 ≤ queuedSeconds then none
  else
    let capacity : Int := 5 - state.queue.length
    if h : capacity ≤ 0 then none
    else
      let recipes := sortBy (fun item => item.key.val) state.recipes
      let horizon : Int := policy.professionHorizonHours * 3600
      (chooseRecipe (priorities state.balances policy) recipes).map fun recipe =>
        { actionKey := recipe.key
          count := ⟨enqueueCount capacity horizon queuedSeconds recipe.durationSeconds,
            one_le_enqueueCount h _ _ _⟩ }

def professionDecision (state : ProfessionState) (policy : VersionedPolicy) (now : Time) :
    Plans.Decision :=
  if (E.shanghai now).minute % 5 = 0 then
    .selected .profession ⟨"profession_maintenance_due", (by decide +kernel)⟩ .professionSettle
  else
    match professionAction state policy with
    | some action =>
      .selected .profession ⟨"profession_queue_refill", (by decide +kernel)⟩
        (.professionEnqueue action.actionKey action.count)
    | none => .skipped .profession ⟨"profession_queue_sufficient", (by decide +kernel)⟩

def buildProfessionPlan (locked : LockedAccount) (state : ProfessionState) (now : Time)
    (id : PlanId) : Except Exc (TypedActionPlan Time) :=
  plan E.toPorts locked .profession [professionDecision E state locked.policy now]
    (professionProjection state) now id .low

end PolicyEngine

end PlaceGame
