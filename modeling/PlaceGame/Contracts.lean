import PlaceGame.Errors
import PlaceGame.Json

/-!
# PlaceGame.Contracts

Actors, identifiers and time.

Rows and games are named as the source names them: `AccountId` and `PlanId` are the UUIDs of rows,
a game account id and a session token are strings. `Time` is an instant in microseconds, the
resolution of `datetime` and of the database.
-/

namespace PlaceGame

abbrev AccountId := Nat
abbrev PlanId := Nat
abbrev JobId := Nat

abbrev Time := Int

namespace Time

def seconds (n : Nat) : Time := (n * 1000000 : Int)
def minutes (n : Nat) : Time := seconds (n * 60)
def hours (n : Nat) : Time := minutes (n * 60)

end Time

inductive ActorKind where
  | scheduler
  | webui
  | mcp
  deriving DecidableEq, Repr

def ActorKind.text : ActorKind → String
  | .scheduler => "scheduler"
  | .webui => "webui"
  | .mcp => "mcp"

structure Actor where
  kind : ActorKind
  actorId : String
  deriving DecidableEq, Repr

/-- `f"{actor.kind}:{actor.actor_id}"`. -/
def Actor.value (actor : Actor) : String := actor.kind.text ++ ":" ++ actor.actorId

def isIdentifierChar (c : Char) : Bool :=
  c.isAlphanum || c == '_' || c == '.' || c == ':' || c == '@' || c == '-'

/-- `_IDENTIFIER.fullmatch(value)`. -/
@[irreducible] def isIdentifier (value : String) : Bool :=
  decide (1 ≤ value.length) && decide (value.length ≤ 128) && value.toList.all isIdentifierChar

/-- The characters that `str.strip` removes. -/
def isPySpace (c : Char) : Bool :=
  let n := c.toNat
  (9 ≤ n && n ≤ 13) || (28 ≤ n && n ≤ 32) || n == 0x85 || n == 0xa0 || n == 0x1680 ||
    (0x2000 ≤ n && n ≤ 0x200a) || n == 0x2028 || n == 0x2029 || n == 0x202f || n == 0x205f ||
    n == 0x3000

/-- `value.strip()`. -/
@[irreducible] def pyStrip (value : String) : String :=
  String.ofList ((value.toList.dropWhile isPySpace).reverse.dropWhile isPySpace).reverse

end PlaceGame
