import PlaceGame.Accounts.Record

/-!
# PlaceGame.Policy.Store

`PostgresPolicyService.save`. Reading a policy is the effect `policyGet`, one statement in a session
of its own.
-/

namespace PlaceGame

open Coop

variable {T : Type}

namespace PolicyService

/-- What `save` found out under the locks. -/
inductive SaveResult where
  | unavailable
  | conflict
  | saved (policy : VersionedPolicy)

/-- `save`, inside its transaction. A missing account is reported, not raised, so the session holds
no account object then. -/
def saveLocked (accountId : AccountId) (policy : AccountPolicy) (expectedVersion : Int)
    (actor : Actor) : Tx T SaveResult := do
  await (.accountLock accountId)
  match ← await (.accountForUpdate accountId) with
  | none => return .unavailable
  | some account =>
    modifyFrame fun f => { f with loaded := some accountId, record := account }
    let policyRow ← await (.policyForUpdate accountId)
    match versioned account policyRow with
    | .error _ => return .unavailable
    | .ok current =>
      if expectedVersion ≠ current.version then
        audit actor (some accountId) "policy.save"
          (.obj [("status", .str "conflict"), ("error", .str "PolicyConflict")])
        return .conflict
      else
        let nextVersion := current.version + 1
        modifyFrame fun f =>
          { f with policy := some (accountId, ⟨policy.modelDump, nextVersion⟩) }
        modifyRecord fun r => { r with policyVersion := nextVersion }
        await .flush
        audit actor (some accountId) "policy.save"
          (.obj [("status", .str "saved"), ("version", .int nextVersion)])
        return .saved { policy with version := nextVersion, version_ge := Nat.le_add_left 1 _ }

def save (accountId : AccountId) (policy : AccountPolicy) (expectedVersion : Int)
    (actor : Actor) : Action T VersionedPolicy := do
  match ← transaction (saveLocked accountId policy expectedVersion actor) with
  | .unavailable => raise .policyUnavailable
  | .conflict => raise .policyConflict
  | .saved policy => return policy

end PolicyService

end PlaceGame
