import Mathlib.Data.List.Sort

/-!
# PlaceGame.Json

The values that cross the boundaries of the program: JSON documents as Python holds them after
decoding, and the encoding `json.dumps(value, sort_keys=True, separators=(",", ":"))`. An object
keeps the order of its entries; a key occurs once.
-/

namespace PlaceGame

inductive Json where
  | null
  | bool (b : Bool)
  | int (i : Int)
  | str (s : String)
  | arr (items : List Json)
  | obj (fields : List (String × Json))

namespace Json

/-- `value.get(key)` of a mapping; anything else has no entries. -/
def get? : Json → String → Option Json
  | .obj fields, key => fields.lookup key
  | _, _ => none

def isStr (text : String) : Option Json → Bool
  | some (.str s) => s == text
  | _ => false

def ofNat? : Option Nat → Json
  | none => .null
  | some n => .int n

def hexDigit (n : Nat) : Char := (Nat.digitChar (n % 16))

/-- `\uXXXX`. -/
def unicodeEscape (n : Nat) : List Char :=
  ['\\', 'u', hexDigit (n / 4096), hexDigit (n / 256), hexDigit (n / 16), hexDigit n]

/-- One character inside a string literal; `ascii` is `ensure_ascii`. -/
def escapeChar (ascii : Bool) (c : Char) : List Char :=
  if c = '"' then ['\\', '"']
  else if c = '\\' then ['\\', '\\']
  else if c = '\n' then ['\\', 'n']
  else if c = '\r' then ['\\', 'r']
  else if c = '\t' then ['\\', 't']
  else if c.toNat = 12 then ['\\', 'f']
  else if c.toNat = 8 then ['\\', 'b']
  else if c.toNat < 32 then unicodeEscape c.toNat
  else if ascii = true ∧ 126 < c.toNat then
    if c.toNat < 65536 then unicodeEscape c.toNat
    else
      unicodeEscape (55296 + (c.toNat - 65536) / 1024) ++
        unicodeEscape (56320 + (c.toNat - 65536) % 1024)
  else [c]

def quote (ascii : Bool) (s : String) : String :=
  "\"" ++ String.ofList (s.toList.flatMap (escapeChar ascii)) ++ "\""

mutual

def dumps (ascii : Bool) : Json → String
  | .null => "null"
  | .bool b => if b then "true" else "false"
  | .int i => toString i
  | .str s => quote ascii s
  | .arr items => "[" ++ ",".intercalate (dumpsItems ascii items) ++ "]"
  | .obj fields =>
    let entries := (dumpsFields ascii fields).insertionSort fun a b => a.1 ≤ b.1
    "\x7b" ++ ",".intercalate (entries.map fun e => quote ascii e.1 ++ ":" ++ e.2) ++ "\x7d"

def dumpsItems (ascii : Bool) : List Json → List String
  | [] => []
  | item :: items => dumps ascii item :: dumpsItems ascii items

def dumpsFields (ascii : Bool) : List (String × Json) → List (String × String)
  | [] => []
  | (key, value) :: fields => (key, dumps ascii value) :: dumpsFields ascii fields

end

end Json

end PlaceGame
