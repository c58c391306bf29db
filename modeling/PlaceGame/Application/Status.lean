import PlaceGame.Accounts.Service
import PlaceGame.Json.Wire

/-!
# PlaceGame.Application.Status

`AccountStatusQuery.get`: one session cycle with its snapshot, the validation of the stored state,
and a read of the account in a session of its own.
-/

namespace PlaceGame

open Coop

structure IdleState where
  accumulatedSeconds : Nat
  capacitySeconds : Option ℕ+ := none
  deriving DecidableEq, Repr

structure SnapshotState where
  accountId : { s : String // 1 ≤ s.length ∧ s.length ≤ 128 }
  idle : IdleState

inductive AuthState where
  | authenticated
  | required
  | unknown
  deriving DecidableEq, Repr

structure AccountSummary where
  accountId : AccountId
  label : String
  enabled : Bool
  pausedReason : Option String
  authState : AuthState

structure AccountStatus where
  account : AccountSummary
  bootstrapAccountId : String
  idle : IdleState
  fetchedAt : Time

namespace IdleState

/-- `int` with `gt=0`. -/
def capacity : Wire ℕ+ :=
  Wire.int.via (fun n => (n : ℕ)) (fun i => if h : 0 < i.toNat then some ⟨i.toNat, h⟩ else none)
    fun n => dif_pos n.pos

def wire : Wire (Option ℕ+) := capacity.nullable fun _ => nofun

def specs : List (List String) :=
  [["accumulatedSeconds", "accumulated_seconds"], ["capacitySeconds", "capacity_seconds"]]

/-- `IdleState.model_validate(value)`. -/
def modelValidate : Json → Option IdleState
  | .obj fields =>
    if Wire.noExtra specs fields then do
      let accumulatedSeconds ←
        Wire.nat.field ["accumulatedSeconds", "accumulated_seconds"] fields
      let capacitySeconds ← wire.fieldD ["capacitySeconds", "capacity_seconds"] none fields
      some ⟨accumulatedSeconds, capacitySeconds⟩
    else none
  | _ => none

end IdleState

namespace SnapshotState

/-- `_SnapshotState.model_validate(state)`. -/
def modelValidate : Json → Option SnapshotState
  | .obj fields =>
    if Wire.noExtra [["accountId", "account_id"], ["idle"]] fields then do
      let accountId ← (Wire.str.subtype fun s => 1 ≤ s.length ∧ s.length ≤ 128).field
        ["accountId", "account_id"] fields
      let idle ← Wire.field? ["idle"] fields
      let idle ← IdleState.modelValidate idle
      some ⟨accountId, idle⟩
    else none
  | _ => none

/-- The snapshot of a session without api is not a state. -/
theorem modelValidate_empty : modelValidate (.obj []) = none := by
  simp [modelValidate, Wire.field, Wire.field?]

theorem modelValidate_idle (accumulated : Nat) (capacity : Option ℕ+) :
    IdleState.modelValidate (.obj
      [("accumulatedSeconds", .int accumulated),
        ("capacitySeconds", .ofNat? (capacity.map (·.val)))]) = some ⟨accumulated, capacity⟩ := by
  have hcapacity : Json.ofNat? (capacity.map (·.val)) = IdleState.wire.write capacity := by
    cases capacity <;> rfl
  rw [hcapacity, IdleState.modelValidate,
    if_pos (by simp [Wire.noExtra, IdleState.specs, List.lookup_cons, List.lookup_nil]),
    Wire.field_of_lookup (w := Wire.nat) (a := accumulated) rfl,
    Wire.fieldD_of_lookup (w := IdleState.wire) (a := capacity) rfl]
  rfl

/-- The snapshot of a session passes its validation again, whatever the game reported. -/
theorem modelValidate_snapshotState (identity : String) (idle : IdleSummary)
    (h : 1 ≤ identity.length ∧ identity.length ≤ 128) :
    modelValidate (snapshotState identity idle) =
      some ⟨⟨identity, h⟩, idle.accumulatedSeconds, idle.capacitySeconds⟩ := by
  rw [snapshotState, modelValidate, if_pos (by simp [Wire.noExtra, List.lookup_cons, List.lookup_nil]),
    Wire.field_of_lookup (w := Wire.str.subtype _) (a := ⟨identity, h⟩) rfl]
  simp only [Wire.field?, List.findSome?, List.lookup_cons, List.lookup_nil, Option.bind_eq_bind, Option.bind_some]
  exact congrArg (Option.bind · _) (modelValidate_idle _ _)

end SnapshotState

variable {T : Type} (P : Ports)

namespace AccountService

def get (accountId : AccountId) : Action T ManagedAccount := do
  match ← await (.accountGet accountId) with
  | none => raise .accountNotFound
  | some row => return managed accountId row

end AccountService

namespace AccountStatusQuery

def listedAuthState (account : ManagedAccount) : AuthState :=
  if account.pausedReason = some "authentication_required" then .required else .unknown

def get (accountId : AccountId) (actor : Actor) : Action T AccountStatus := do
  let snapshot ← AccountService.snapshot P accountId actor
  match SnapshotState.modelValidate snapshot.state with
  | none => raise .gameContractChanged
  | some state =>
    let account ← AccountService.get accountId
    return {
      account := {
        accountId := account.id
        label := account.label
        enabled := account.enabled
        pausedReason := account.pausedReason
        authState := if snapshot.authenticated then .authenticated else listedAuthState account }
      bootstrapAccountId := state.accountId
      idle := state.idle
      fetchedAt := snapshot.fetchedAt }

end AccountStatusQuery

end PlaceGame
