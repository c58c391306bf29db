import PlaceGame.Json.Wire
import PlaceGame.Policy.Projection

/-!
# PlaceGame.Policy.Actions

The actions and decisions of `policy/plans.py` with their JSON forms. What the Pydantic models check
is in the types, so an action with an empty key or a decision for another family cannot be built.
-/

namespace PlaceGame

namespace Plans

/-- `Field(min_length=1)`. -/
abbrev Key : Type := { s : String // 1 ≤ s.length }

def isReasonChar (c : Char) : Bool := c.isLower || c.isDigit || c == '_'

/-- `^[a-z][a-z0-9_]{0,127}$`. -/
def isReason (s : String) : Bool :=
  match s.toList with
  | [] => false
  | c :: rest => c.isLower && decide (rest.length ≤ 127) && rest.all isReasonChar

abbrev Reason : Type := { s : String // isReason s = true }

theorem isReason_threshold_reached : isReason "idle_threshold_reached" = true := by decide +kernel

inductive BossFamily where
  | personalBoss
  | ordinaryBoss
  deriving DecidableEq, Repr

def BossFamily.family : BossFamily → ActionFamily
  | .personalBoss => .personalBoss
  | .ordinaryBoss => .ordinaryBoss

inductive Difficulty where
  | normal
  | hard
  | nightmare
  deriving DecidableEq, Repr

def Difficulty.text : Difficulty → String
  | .normal => "normal"
  | .hard => "hard"
  | .nightmare => "nightmare"

inductive BuffKey where
  | none
  | assault
  | guard
  | focus
  deriving DecidableEq, Repr

def BuffKey.text : BuffKey → String
  | .none => "none"
  | .assault => "assault"
  | .guard => "guard"
  | .focus => "focus"

structure BossChallengeAction where
  family : BossFamily
  bossKey : Key
  difficulty : Difficulty
  selectedSkillKeys : { keys : List String // keys.length ≤ 3 }
  buffKey : BuffKey
  affixKey : Option String
  targetSlot : Key
  useMaterialBoost : Bool

inductive RegisteredAction where
  | idleCollect
  | bossChallenge (action : BossChallengeAction)
  | bossAssist (bossKey : Key)
  | professionSettle
  | professionEnqueue (actionKey : Key) (count : { n : Int // 1 ≤ n })
  | professionSupplyEquip (supplyType itemKey : Key)
  | dailyClaim (point : Nat)
  | questClaim (questKey : Key)
  | achievementClaim (achievementKey : Key)
  | codexClaim (rewardKey : Key)
  | mailClaim (mailId : Key)

namespace RegisteredAction

def family : RegisteredAction → ActionFamily
  | .idleCollect => .idle
  | .bossChallenge action => action.family.family
  | .bossAssist _ => .worldBoss
  | .professionSettle | .professionEnqueue _ _ | .professionSupplyEquip _ _ => .profession
  | .dailyClaim _ | .questClaim _ | .achievementClaim _ | .codexClaim _ | .mailClaim _ =>
    .safeReward

end RegisteredAction

/-! ## Fields -/

namespace Wires

def key : Wire Key := Wire.str.subtype fun s => 1 ≤ s.length

def reason : Wire Reason := Wire.str.subtype fun s => isReason s = true

def skillKeys : Wire { keys : List String // keys.length ≤ 3 } :=
  (Wire.list Wire.str).subtype fun keys => keys.length ≤ 3

def count : Wire { n : Int // 1 ≤ n } := Wire.int.subtype fun n => 1 ≤ n

theorem str_ne_null (s : String) (h : Wire.str.write s = Json.null) : False := by cases h

def affixKey : Wire (Option String) := Wire.nullable Wire.str str_ne_null

def family : Wire ActionFamily :=
  Wire.literal [.idle, .personalBoss, .ordinaryBoss, .worldBoss, .profession, .safeReward]
    ActionFamily.text (fun f => by cases f <;> decide) ActionFamily.text_injective

def bossFamily : Wire BossFamily :=
  Wire.literal [.personalBoss, .ordinaryBoss] (fun f => f.family.text)
    (fun f => by cases f <;> decide) fun a b h => by
      cases a <;> cases b <;> first | rfl | exact absurd h (by decide)

def difficulty : Wire Difficulty :=
  Wire.literal [.normal, .hard, .nightmare] Difficulty.text (fun d => by cases d <;> decide)
    fun a b h => by cases a <;> cases b <;> first | rfl | exact absurd h (by decide)

def buffKey : Wire BuffKey :=
  Wire.literal [.none, .assault, .guard, .focus] BuffKey.text (fun b => by cases b <;> decide)
    fun a b h => by cases a <;> cases b <;> first | rfl | exact absurd h (by decide)

/-- A `Literal` with one value and that value as its default. -/
def tag (text : String) : Wire Unit :=
  Wire.str.via (fun _ => text) (fun s => if s = text then some () else none) fun _ => by simp

end Wires

/-! ## Actions -/

namespace RegisteredAction

/-- `model_dump(mode="json", by_alias=True)`. -/
def toJson : RegisteredAction → Json
  | .idleCollect => .obj [("family", .str "idle"), ("kind", .str "idle_collect")]
  | .bossChallenge a =>
    .obj
      [("family", Wires.bossFamily.write a.family), ("kind", .str "boss_challenge"),
        ("bossKey", Wires.key.write a.bossKey), ("difficulty", Wires.difficulty.write a.difficulty),
        ("selectedSkillKeys", Wires.skillKeys.write a.selectedSkillKeys),
        ("buffKey", Wires.buffKey.write a.buffKey), ("affixKey", Wires.affixKey.write a.affixKey),
        ("targetSlot", Wires.key.write a.targetSlot),
        ("useMaterialBoost", Wire.bool.write a.useMaterialBoost)]
  | .bossAssist bossKey =>
    .obj [("family", .str "world_boss"), ("kind", .str "boss_assist"),
      ("bossKey", Wires.key.write bossKey)]
  | .professionSettle => .obj [("family", .str "profession"), ("kind", .str "profession_settle")]
  | .professionEnqueue actionKey count =>
    .obj [("family", .str "profession"), ("kind", .str "profession_enqueue"),
      ("actionKey", Wires.key.write actionKey), ("count", Wires.count.write count)]
  | .professionSupplyEquip supplyType itemKey =>
    .obj [("family", .str "profession"), ("kind", .str "profession_supply_equip"),
      ("supplyType", Wires.key.write supplyType), ("itemKey", Wires.key.write itemKey)]
  | .dailyClaim point =>
    .obj [("family", .str "safe_reward"), ("kind", .str "daily_claim"),
      ("point", Wire.nat.write point)]
  | .questClaim questKey =>
    .obj [("family", .str "safe_reward"), ("kind", .str "quest_claim"),
      ("questKey", Wires.key.write questKey)]
  | .achievementClaim achievementKey =>
    .obj [("family", .str "safe_reward"), ("kind", .str "achievement_claim"),
      ("achievementKey", Wires.key.write achievementKey)]
  | .codexClaim rewardKey =>
    .obj [("family", .str "safe_reward"), ("kind", .str "codex_claim"),
      ("rewardKey", Wires.key.write rewardKey)]
  | .mailClaim mailId =>
    .obj [("family", .str "safe_reward"), ("kind", .str "mail_claim"),
      ("mailId", Wires.key.write mailId)]

/-- A model whose family and kind are fixed: no other keys, and the literals as they are. -/
def tagged (family kind : String) (specs : List (List String)) (fields : List (String × Json))
    (rest : Option RegisteredAction) : Option RegisteredAction :=
  if Wire.noExtra (["family"] :: ["kind"] :: specs) fields then do
    (Wires.tag family).fieldD ["family"] () fields
    (Wires.tag kind).fieldD ["kind"] () fields
    rest
  else none

def readBossChallenge (fields : List (String × Json)) : Option RegisteredAction :=
  if Wire.noExtra [["family"], ["kind"], ["bossKey", "boss_key"], ["difficulty"],
      ["selectedSkillKeys", "selected_skill_keys"], ["buffKey", "buff_key"],
      ["affixKey", "affix_key"], ["targetSlot", "target_slot"],
      ["useMaterialBoost", "use_material_boost"]] fields then do
    let family ← Wires.bossFamily.fieldD ["family"] .personalBoss fields
    (Wires.tag "boss_challenge").fieldD ["kind"] () fields
    let bossKey ← Wires.key.field ["bossKey", "boss_key"] fields
    let difficulty ← Wires.difficulty.field ["difficulty"] fields
    let selectedSkillKeys ←
      Wires.skillKeys.field ["selectedSkillKeys", "selected_skill_keys"] fields
    let buffKey ← Wires.buffKey.field ["buffKey", "buff_key"] fields
    let affixKey ← Wires.affixKey.field ["affixKey", "affix_key"] fields
    let targetSlot ← Wires.key.field ["targetSlot", "target_slot"] fields
    let useMaterialBoost ← Wire.bool.field ["useMaterialBoost", "use_material_boost"] fields
    return .bossChallenge
      { family, bossKey, difficulty, selectedSkillKeys, buffKey, affixKey, targetSlot,
        useMaterialBoost }
  else none

/-- The model that `kind` selects. -/
def readKind (kind : String) (fields : List (String × Json)) : Option RegisteredAction :=
  match kind with
  | "idle_collect" => tagged "idle" kind [] fields (some .idleCollect)
  | "boss_challenge" => readBossChallenge fields
  | "boss_assist" =>
    tagged "world_boss" kind [["bossKey", "boss_key"]] fields
      ((Wires.key.field ["bossKey", "boss_key"] fields).map .bossAssist)
  | "profession_settle" => tagged "profession" kind [] fields (some .professionSettle)
  | "profession_enqueue" =>
    tagged "profession" kind [["actionKey", "action_key"], ["count"]] fields do
      let actionKey ← Wires.key.field ["actionKey", "action_key"] fields
      let count ← Wires.count.field ["count"] fields
      return .professionEnqueue actionKey count
  | "profession_supply_equip" =>
    tagged "profession" kind [["supplyType", "supply_type"], ["itemKey", "item_key"]] fields do
      let supplyType ← Wires.key.field ["supplyType", "supply_type"] fields
      let itemKey ← Wires.key.field ["itemKey", "item_key"] fields
      return .professionSupplyEquip supplyType itemKey
  | "daily_claim" =>
    tagged "safe_reward" kind [["point"]] fields
      ((Wire.nat.field ["point"] fields).map .dailyClaim)
  | "quest_claim" =>
    tagged "safe_reward" kind [["questKey", "quest_key"]] fields
      ((Wires.key.field ["questKey", "quest_key"] fields).map .questClaim)
  | "achievement_claim" =>
    tagged "safe_reward" kind [["achievementKey", "achievement_key"]] fields
      ((Wires.key.field ["achievementKey", "achievement_key"] fields).map .achievementClaim)
  | "codex_claim" =>
    tagged "safe_reward" kind [["rewardKey", "reward_key"]] fields
      ((Wires.key.field ["rewardKey", "reward_key"] fields).map .codexClaim)
  | "mail_claim" =>
    tagged "safe_reward" kind [["mailId", "mail_id"]] fields
      ((Wires.key.field ["mailId", "mail_id"] fields).map .mailClaim)
  | _ => none

/-- Validation of the union, discriminated by `kind`. -/
def fromJson : Json → Option RegisteredAction
  | .obj fields =>
    match fields.lookup "kind" with
    | some (.str kind) => readKind kind fields
    | _ => none
  | _ => none

theorem fromJson_toJson (a : RegisteredAction) : fromJson (toJson a) = some a := by
  cases a <;>
    simp [toJson, fromJson, readKind, tagged, readBossChallenge, Wire.noExtra, Wire.field,
      Wire.fieldD, Wire.field?, List.lookup_cons, List.lookup_nil, Wires.tag, Wire.via, Wire.str]

end RegisteredAction

end Plans

end PlaceGame
