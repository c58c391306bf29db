import Mathlib.Data.List.Infix
import PlaceGame.Json

/-!
# PlaceGame.Security.Redaction

`redact` of `security/redaction.py`: the value under a sensitive key is replaced, long strings are
cut, everything else is copied.
-/

namespace PlaceGame

def sensitiveKeyParts : List String :=
  ["password", "token", "secret", "authorization", "cookie", "master_key"]

def maxRedactedStringLength : Nat := 256

/-- `str.lower` as far as it can produce ASCII: besides the ASCII capitals only the Kelvin sign and
the dotted capital I have a lower case with an ASCII letter in it. -/
def lowerChar (c : Char) : List Char :=
  if c = '\u212a' then ['k']
  else if c = '\u0130' then ['i', '\u0307']
  else [c.toLower]

def lower (s : String) : List Char := s.toList.flatMap lowerChar

def isSensitiveKey (key : String) : Bool :=
  sensitiveKeyParts.any fun part => decide (part.toList <:+: lower key)

def truncate (s : String) : String :=
  if maxRedactedStringLength < s.length then
    String.ofList (s.toList.take maxRedactedStringLength) ++ "...[TRUNCATED]"
  else s

mutual

def redact : Json → Json
  | .obj fields => .obj (redactFields fields)
  | .arr items => .arr (redactItems items)
  | .str s => .str (truncate s)
  | value => value

def redactFields : List (String × Json) → List (String × Json)
  | [] => []
  | (key, value) :: fields =>
    (key, if isSensitiveKey key then .str "[REDACTED]" else redact value) :: redactFields fields

def redactItems : List Json → List Json
  | [] => []
  | item :: items => redact item :: redactItems items

end

end PlaceGame
