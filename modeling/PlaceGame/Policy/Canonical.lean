import PlaceGame.Accounts.Cycle

/-!
# PlaceGame.Policy.Canonical

`canonical_json` and `canonical_fingerprint` for projections without keyed arrays. Ordering the
entries of a mapping first, as `_normalize_projection` does, changes nothing then: the encoder sorts
them.
-/

namespace PlaceGame

def canonicalJson (value : Json) : String := value.dumps false

def canonicalFingerprint (P : Ports) (family : String) (projection : Json) : String :=
  "pgfp:v1:" ++
    P.sha256 (canonicalJson (.obj [("family", .str family), ("projection", projection)]))

end PlaceGame
