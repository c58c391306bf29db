import Mathlib.Data.NNRat.Floor
import Mathlib.Data.PNat.Basic
import PlaceGame.Contracts

/-!
# PlaceGame.Game.Schemas

The game's answers that the account and idle flows read, and the handle through which they ask.
-/

namespace PlaceGame

/-- What `game_factory(session_token)` returns: every request is sent with this token. -/
structure GameApi where
  sessionToken : Option String
  deriving DecidableEq, Repr

/-- `validSeconds` is a non-negative float, `capacitySeconds` a positive integer when present. The
schema also accepts an infinite `validSeconds` (the number 1e999), on which `accumulated_seconds`
raises; it is left out. -/
structure IdleSummary where
  validSeconds : ℚ≥0
  capacitySeconds : Option ℕ+ := none

/-- Whole seconds: `int(self.valid_seconds)`. -/
def IdleSummary.accumulatedSeconds (idle : IdleSummary) : Nat := ⌊idle.validSeconds⌋₊

theorem IdleSummary.accumulatedSeconds_mono {a b : IdleSummary}
    (h : a.validSeconds ≤ b.validSeconds) : a.accumulatedSeconds ≤ b.accumulatedSeconds :=
  Nat.floor_mono h

end PlaceGame
