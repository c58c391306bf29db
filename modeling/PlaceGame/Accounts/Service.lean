import PlaceGame.Accounts.Cycle

/-!
# PlaceGame.Accounts.Service

The entry points of `AccountService` except `mutate`. Each is one transaction under the account's
advisory lock and its row lock; enrolment locks the game identity instead, and removal flips the
admission flag in a first transaction that takes the row lock only.
-/

namespace PlaceGame

open Coop

variable {T : Type} (P : Ports)

namespace AccountService

section Enrolment

def conflict (actor : Actor) (accountId : Option AccountId) (reason : String) : Tx T Unit :=
  audit actor accountId "account.identity.conflict"
    (.obj [("status", .str "rejected"), ("reason", .str reason)])

/-- The transaction that `add_credentials` and `add_token_only` share: `record` is the new object
without its identity and token, `none` reports a conflict. -/
def enroll (record : GameAccount) (token identity action : String) (actor : Actor) :
    Tx T (Option ManagedAccount) := do
  await (.identityLock identity)
  if ← await .hasUnresolvedIdentity then
    conflict actor none "unresolved_historical_identity"
    return none
  match ← await (.findIdentity identity) with
  | some existing =>
    conflict actor (some existing) "already_managed"
    return none
  | none =>
    let id ← await .uuid
    let row := { record with gameAccountId := some identity, sessionToken := some token }
    modifyFrame fun f =>
      { f with loaded := some id, record := row, sessionToken := some (some token) }
    if ← await (.flushIdentity id identity) then
      audit actor (some id) action (.obj [("status", .str "succeeded"), ("bootstrap", .bool true)])
      return some (managed id row)
    else raise .integrityError

def addCredentials (label username password : String) (actor : Actor) :
    Action T ManagedAccount := do
  let normalized ← normalizeLabel label
  let login ← loginAndBootstrap P username password
  let now ← clock
  raiseIf (login.identity = "") .authenticationRequired
  let record : GameAccount :=
    { label := normalized
      authMode := .credentials
      gameUsername := some username
      password := some password
      sessionExpiresAt := login.expiry
      lastSuccessAt := some now }
  match ← transaction
      (enroll record login.token login.identity "account.add_credentials" actor) with
  | some account => return account
  | none => raise .accountIdentityConflict

/-- The bootstrap of a token that is not stored yet. -/
def bootstrapProposed {σ : Type} (sessionToken : String) : Coro (sig T) σ String := do
  match ← attempt (await (.bootstrap ⟨some sessionToken⟩)) with
  | .ok identity => return identity
  | .error .sessionRejected => raise .authenticationRequired
  | .error e => raise e

def addTokenOnly (label sessionToken : String) (actor : Actor) : Action T ManagedAccount := do
  let normalized ← normalizeLabel label
  raiseIf (sessionToken = "") (.valueError "session token is required")
  let identity ← bootstrapProposed sessionToken
  raiseIf (identity = "") .authenticationRequired
  let now ← clock
  let record : GameAccount :=
    { label := normalized
      authMode := .tokenOnly
      sessionExpiresAt := P.tokenExpiry sessionToken
      lastSuccessAt := some now }
  match ← transaction (enroll record sessionToken identity "account.add_token_only" actor) with
  | some account => return account
  | none => raise .accountIdentityConflict

end Enrolment

/-- `async with account_lock(...)` followed by `_require_for_update`. -/
def lockAccount (accountId : AccountId) : Tx T Unit := do
  await (.accountLock accountId)
  requireForUpdate accountId

def updateLabel (accountId : AccountId) (label : String) (actor : Actor) :
    Action T ManagedAccount := do
  let normalized ← normalizeLabel label
  transaction do
    lockAccount accountId
    let r ← record
    rejectRemovalMarker r
    modifyRecord fun r => { r with label := normalized }
    audit actor (some accountId) "account.label.update" (status "succeeded")
      (some (.obj [("label", .str r.label)])) (some (.obj [("label", .str normalized)]))
    return managed accountId { r with label := normalized }

section CredentialEdits

/-- A record without an identity is bound to the identity of what it stores before it is edited;
the answer is the error that the edit is rejected with. -/
def bindLegacy (accountId : AccountId) (actor : Actor) : Tx T (Option Exc) := do
  let r ← record
  if r.gameAccountId.isSome then return none
  match ← attempt (resolveStoredIdentity P) with
  | .error .authenticationRequired => return some .authenticationRequired
  | .error e => raise e
  | .ok identity =>
    if ← bindOrMatchIdentity accountId identity actor then return none
    else return some .accountIdentityConflict

/-- The login with the proposed credentials; account errors are swallowed. -/
def verifyProposed (proposed : Option String) (password : String) : Tx T (Option Login) :=
  match proposed with
  | none => return none
  | some username => do
    if username = "" then return none
    match ← attempt (loginAndBootstrap P username password) with
    | .ok login => return some login
    | .error e => if e.isAccountError then return none else raise e

/-- The audit of a rejected edit, which is committed before the error is raised. -/
def rejectEdit (accountId : AccountId) (actor : Actor) (action : String) (pending : Exc) :
    Tx T (Except Exc ManagedAccount) := do
  audit actor (some accountId) action (status "rejected")
  return .error pending

/-- The edit of `update_credentials` once nothing speaks against it so far. -/
def applyCredentials (accountId : AccountId) (username : Option String) (password : String)
    (actor : Actor) : Tx T (Except Exc ManagedAccount) := do
  let r ← record
  let proposed := if username.any (· ≠ "") then username else r.gameUsername
  match proposed, ← verifyProposed P proposed password with
  | some proposedUsername, some login =>
    if ← bindOrMatchIdentity accountId login.identity actor then
      let now ← clock
      writeToken (some login.token)
        (·.updateCredentials proposedUsername password login.token login.expiry now)
      audit actor (some accountId) "account.credentials.update" (status "succeeded")
      let r ← record
      return .ok (managed accountId r)
    else rejectEdit accountId actor "account.credentials.update" .accountIdentityConflict
  | _, _ => rejectEdit accountId actor "account.credentials.update" .authenticationRequired

def raisePending {α : Type} (outcome : Except Exc α) : Action T α :=
  match outcome with
  | .ok a => return a
  | .error e => raise e

def updateCredentials (accountId : AccountId) (username : Option String) (password : String)
    (actor : Actor) : Action T ManagedAccount := do
  raiseIf (password = "") (.valueError "password is required")
  let outcome ← transaction do
    lockAccount accountId
    let r ← record
    rejectRemovalMarker r
    match ← bindLegacy P accountId actor with
    | some pending => rejectEdit accountId actor "account.credentials.update" pending
    | none => applyCredentials P accountId username password actor
  raisePending outcome

/-- The edit of `update_token_only` once nothing speaks against it so far. -/
def applyTokenOnly (accountId : AccountId) (sessionToken : String) (actor : Actor) :
    Tx T (Except Exc ManagedAccount) := do
  match ← attempt (await (.bootstrap ⟨some sessionToken⟩)) with
  | .error .sessionRejected =>
    rejectEdit accountId actor "account.token.update" .authenticationRequired
  | .error e => raise e
  | .ok identity =>
    if ← bindOrMatchIdentity accountId identity actor then
      let now ← clock
      writeToken (some sessionToken)
        (·.updateTokenOnly sessionToken (P.tokenExpiry sessionToken) now)
      audit actor (some accountId) "account.token.update"
        (.obj [("status", .str "succeeded"), ("bootstrap", .bool (identity ≠ ""))])
      let r ← record
      return .ok (managed accountId r)
    else rejectEdit accountId actor "account.token.update" .accountIdentityConflict

def updateTokenOnly (accountId : AccountId) (sessionToken : String) (actor : Actor) :
    Action T ManagedAccount := do
  raiseIf (sessionToken = "") (.valueError "session token is required")
  let outcome ← transaction do
    lockAccount accountId
    let r ← record
    rejectRemovalMarker r
    match ← bindLegacy P accountId actor with
    | some pending => rejectEdit accountId actor "account.token.update" pending
    | none => applyTokenOnly P accountId sessionToken actor
  raisePending outcome

end CredentialEdits

section Lifecycle

def setLifecycle (accountId : AccountId) (action : String) (enabled : Bool) (actor : Actor) :
    Action T Unit :=
  transaction do
    lockAccount accountId
    let r ← record
    rejectRemovalMarker r
    modifyRecord fun r => { r with enabled := enabled }
    audit actor (some accountId) ("account." ++ action) (status (action ++ "d"))

def enable (accountId : AccountId) (actor : Actor) : Action T Unit :=
  setLifecycle accountId "enable" true actor

def disable (accountId : AccountId) (actor : Actor) : Action T Unit :=
  setLifecycle accountId "disable" false actor

def pause (accountId : AccountId) (reason : String) (actor : Actor) : Action T Unit := do
  raiseIf (pyStrip reason = "") (.valueError "pause reason is required")
  transaction do
    lockAccount accountId
    let r ← record
    rejectRemovalMarker r
    modifyRecord fun r => { r with pausedReason := some (pyStrip reason) }
    audit actor (some accountId) "account.pause" (status "paused")

def resume (accountId : AccountId) (actor : Actor) : Action T Unit :=
  transaction do
    lockAccount accountId
    let r ← record
    rejectRemoved r
    raiseIf (r.pausedReason = some "removing") .accountPaused
    modifyRecord fun r => { r with pausedReason := none }
    audit actor (some accountId) "account.resume" (status "resumed")

structure RemovalReceipt where
  accountId : AccountId
  removedAt : Time
  disabledJobCount : Nat
  deriving DecidableEq, Repr

/-- The first transaction of `disable_drain_remove`: no advisory lock, so running work is waited for
by the row lock alone. -/
def beginRemoval (accountId : AccountId) : Tx T (Option RemovalReceipt) := do
  requireForUpdate accountId
  let r ← record
  if r.pausedReason = some "removed" then
    let now ← clock
    return some ⟨accountId, now, 0⟩
  modifyRecord (·.beginRemoval)
  await .flush
  return none

/-- The second transaction of `disable_drain_remove`. -/
def drainRemoval (accountId : AccountId) (actor : Actor) : Tx T RemovalReceipt := do
  lockAccount accountId
  let jobs ← await (.enabledJobs accountId)
  modifyFrame fun f => { f with disabledJobs := jobs }
  writeToken none (·.wipe)
  audit actor (some accountId) "account.remove"
    (.obj [("status", .str "removed"), ("disabled_jobs", .int jobs.length)])
  let now ← clock
  return ⟨accountId, now, jobs.length⟩

def disableDrainRemove (accountId : AccountId) (actor : Actor) : Action T RemovalReceipt := do
  match ← transaction (beginRemoval accountId) with
  | some receipt => return receipt
  | none => transaction (drainRemoval accountId actor)

end Lifecycle

section Sessions

def ensureSession (accountId : AccountId) (actor : Actor) : Action T SessionState :=
  transaction do
    lockAccount accountId
    let resolution ← ensureLocked P accountId actor
    return resolution.state

structure LockedAccount where
  accountId : AccountId
  api : GameApi
  policy : VersionedPolicy
  snapshot : AccountSnapshot

/-- `_locked`: `body` is the code under `async with accounts.locked(...)`, run while the transaction
is open. -/
def locked {α : Type} (accountId : AccountId) (actor : Actor) (body : LockedAccount → Tx T α) :
    Action T α := do
  let outcome ← transaction do
    lockAccount accountId
    let r ← record
    requireMutable r
    let resolution ← ensureLocked P accountId actor
    match resolution.api with
    | none => return none
    | some (api, _) =>
      let snapshot ← saveSnapshot P accountId resolution true
      let policy ← await (.policyGet accountId)
      let a ← body ⟨accountId, api, policy, snapshot⟩
      return some a
  match outcome with
  | some a => return a
  | none => raise .authenticationRequired

/-- Any other user of `locked`: what it does with the api is one await that may end in any way. -/
def lockedContext (accountId : AccountId) (actor : Actor) : Action T Unit :=
  locked P accountId actor fun locked => await (.lockedBody accountId locked.api)

def snapshot (accountId : AccountId) (actor : Actor) : Action T AccountSnapshot :=
  transaction do
    lockAccount accountId
    let resolution ← ensureLocked P accountId actor
    saveSnapshot P accountId resolution resolution.api.isSome

end Sessions

end AccountService

end PlaceGame
