import PlaceGame.Accounts.Record

/-!
# PlaceGame.Accounts.Cycle

The session cycle of `AccountService`: logging in, matching the game's identity with the record,
renewing or pausing a session, and the diagnostic snapshot. Every function here runs inside the
transaction of its caller, with the account row loaded for update.
-/

namespace PlaceGame

open Coop

/-- What the application hands to the services: the token expiry resolver and SHA-256 as the hex
digest of a text's UTF-8 bytes. -/
structure Ports where
  tokenExpiry : String → Option Time
  sha256 : String → String

variable {T : Type} (P : Ports)

/-- The tuple that `_login_and_bootstrap` returns. -/
structure Login where
  token : String
  expiry : Option Time
  api : GameApi
  identity : String

section Login

variable {σ : Type}

/-- The body of the `try` in `_login_and_bootstrap`. -/
def loginOnce (username password : String) : Coro (sig T) σ Login := do
  let token ← await (.login username password)
  let api : GameApi := ⟨some token⟩
  let identity ← await (.bootstrap api)
  return ⟨token, P.tokenExpiry token, api, identity⟩

/-- The loop of `_login_and_bootstrap` with `left` attempts to go. -/
def loginAttempts (username password : String) : Nat → Coro (sig T) σ Login
  | 0 => raise .authenticationRequired
  | left + 1 => do
    match ← attempt (loginOnce P username password) with
    | .ok login => return login
    | .error .sessionRejected =>
      if 0 < left then await .sleep
      loginAttempts username password left
    | .error e => raise e

def loginAndBootstrap (username password : String) : Coro (sig T) σ Login :=
  loginAttempts P username password 3

end Login

def identityMismatch (accountId : AccountId) (actor : Actor) : Tx T Unit := do
  let now ← clock
  modifyRecord (·.identityMismatch now)
  audit actor (some accountId) "account.identity.mismatch"
    (.obj [("status", .str "paused"), ("severity", .str "critical")])

/-- `_bind_or_match_identity`. A failed flush is undone to the savepoint and the record refreshed,
so nothing of the attempt stays. -/
def bindOrMatchIdentity (accountId : AccountId) (bootstrapId : String) (actor : Actor) :
    Tx T Bool := do
  if bootstrapId = "" then return false
  let r ← record
  match r.gameAccountId with
  | none =>
    let existing ← await (.findIdentity bootstrapId)
    if existing.any (· ≠ accountId) then
      identityMismatch accountId actor
      return false
    if ← await (.flushIdentity accountId bootstrapId) then
      modifyRecord (·.bindIdentity bootstrapId)
      return true
    else
      identityMismatch accountId actor
      return false
  | some bound =>
    if bound = bootstrapId then return true
    else
      identityMismatch accountId actor
      return false

def resolveStoredIdentity : Tx T String := do
  let r ← record
  match r.authMode with
  | .credentials =>
    match r.gameUsername, r.password with
    | some username, some password =>
      raiseIf (username = "" ∨ password = "") .authenticationRequired
      let login ← loginAndBootstrap P username password
      return login.identity
    | _, _ => raise .authenticationRequired
  | .tokenOnly =>
    match r.sessionToken with
    | some token =>
      raiseIf (token = "") .authenticationRequired
      match ← attempt (await (.bootstrap ⟨some token⟩)) with
      | .ok identity => return identity
      | .error .sessionRejected => raise .authenticationRequired
      | .error e => raise e
    | none => raise .authenticationRequired

structure SessionState where
  accountId : AccountId
  authenticated : Bool
  refreshed : Bool
  expiresAt : Option Time
  pausedReason : Option String
  deriving DecidableEq, Repr

/-- `_SessionResolution`; the api and the identity it was bootstrapped to come together. -/
structure SessionResolution where
  state : SessionState
  api : Option (GameApi × String)

/-- A resolution without a session, as most branches of `_ensure_locked` return it. -/
def unauthenticated (accountId : AccountId) : Tx T SessionResolution := do
  let r ← record
  return ⟨⟨accountId, false, false, r.sessionExpiresAt, r.pausedReason⟩, none⟩

def pauseForRefresh (accountId : AccountId) (actor : Actor) : Tx T SessionResolution := do
  let now ← clock
  modifyRecord (·.pauseForRefresh now)
  audit actor (some accountId) "account.session.refresh_required"
    (.obj [("status", .str "paused"), ("severity", .str "critical")])
  unauthenticated accountId

def recordAuthFailure (accountId : AccountId) (actor : Actor) : Tx T SessionResolution := do
  let now ← clock
  modifyRecord (·.recordAuthFailure now)
  let r ← record
  audit actor (some accountId) "account.session.refresh_failed"
    (.obj
      [("status", .str (if r.isPaused then "paused" else "failed")),
        ("severity", .str (if r.isPaused then "critical" else "warning"))])
  unauthenticated accountId

/-- A session whose bootstrap matched the record. -/
def authenticated (accountId : AccountId) (api : GameApi) (identity : String) (now : Time) :
    Tx T SessionResolution := do
  modifyRecord (·.succeed now)
  let r ← record
  return ⟨⟨accountId, true, false, r.sessionExpiresAt, none⟩, some (api, identity)⟩

/-- `_ensure_locked`, a stored token that was bootstrapped. -/
def matchSession (accountId : AccountId) (actor : Actor) (api : GameApi) (identity : String)
    (now : Time) : Tx T SessionResolution := do
  if ← bindOrMatchIdentity accountId identity actor then authenticated accountId api identity now
  else unauthenticated accountId

/-- `_ensure_locked`, token-only account with a token that needs no renewal. -/
def ensureTokenOnly (accountId : AccountId) (actor : Actor) (token : String) (now : Time) :
    Tx T SessionResolution := do
  let api : GameApi := ⟨some token⟩
  match ← attempt (await (.bootstrap api)) with
  | .error .sessionRejected => pauseForRefresh accountId actor
  | .error e => raise e
  | .ok identity => matchSession accountId actor api identity now

/-- `_ensure_locked`, stored token of a credentials account; `none` when the game rejected it. -/
def useStoredToken (accountId : AccountId) (actor : Actor) (token : String) (now : Time) :
    Tx T (Option SessionResolution) := do
  let api : GameApi := ⟨some token⟩
  match ← attempt (await (.bootstrap api)) with
  | .error .sessionRejected => return none
  | .error e => raise e
  | .ok identity =>
    let resolution ← matchSession accountId actor api identity now
    return some resolution

/-- `_ensure_locked`, new login with the stored credentials. -/
def renewSession (accountId : AccountId) (actor : Actor) (now : Time) : Tx T SessionResolution := do
  let r ← record
  match r.gameUsername, r.password with
  | some username, some password =>
    raiseIf (username = "" ∨ password = "") .authenticationRequired
    let login ← loginAndBootstrap P username password
    if ← bindOrMatchIdentity accountId login.identity actor then
      writeToken (some login.token) (·.renew login.token login.expiry now)
      return ⟨⟨accountId, true, true, login.expiry, none⟩, some (login.api, login.identity)⟩
    else unauthenticated accountId
  | _, _ => raise .authenticationRequired

/-- The `try` block of `_ensure_locked`: the record is not paused. -/
def ensureUnpaused (accountId : AccountId) (actor : Actor) (now : Time) :
    Tx T SessionResolution := do
  let r ← record
  let needsRefresh := r.sessionToken = none ∨
    r.sessionExpiresAt.any (fun expiry => expiry ≤ now + renewalWindow) = true
  match r.authMode, r.sessionToken with
  | .tokenOnly, none => pauseForRefresh accountId actor
  | .tokenOnly, some token =>
    if needsRefresh then pauseForRefresh accountId actor
    else ensureTokenOnly accountId actor token now
  | .credentials, none => renewSession P accountId actor now
  | .credentials, some token =>
    if needsRefresh then renewSession P accountId actor now
    else
      match ← useStoredToken accountId actor token now with
      | some resolution => return resolution
      | none => renewSession P accountId actor now

def ensureLocked (accountId : AccountId) (actor : Actor) : Tx T SessionResolution := do
  let now ← clock
  let r ← record
  if r.pausedReason.isSome then unauthenticated accountId
  else
    match ← attempt (ensureUnpaused P accountId actor now) with
    | .ok resolution => return resolution
    | .error .authenticationRequired => recordAuthFailure accountId actor
    | .error e => raise e

structure AccountSnapshot where
  accountId : AccountId
  enabled : Bool
  pausedReason : Option String
  authenticated : Bool
  sessionExpiresAt : Option Time
  state : Json
  stateFingerprint : String
  fetchedAt : Time
  expiresAt : Time

def snapshotState (identity : String) (idle : IdleSummary) : Json :=
  .obj
    [("accountId", .str identity),
      ("idle", .obj
        [("accumulatedSeconds", .int idle.accumulatedSeconds),
          ("capacitySeconds", .ofNat? (idle.capacitySeconds.map (·.val)))])]

/-- The state that `_save_snapshot` stores. -/
def readState (accountId : AccountId) (resolution : SessionResolution) (authenticated : Bool) :
    Tx T Json :=
  match resolution.api with
  | some (api, identity) =>
    if authenticated then do
      let idle ← await (.idleSummary accountId api)
      return snapshotState identity idle
    else return .obj []
  | none => return .obj []

def saveSnapshot (accountId : AccountId) (resolution : SessionResolution) (authenticated : Bool) :
    Tx T AccountSnapshot := do
  let state ← readState accountId resolution authenticated
  let fetched ← clock
  let expires := fetched + snapshotTtl
  let fingerprint := P.sha256 (state.dumps true)
  modifyFrame fun f =>
    { f with snapshots := f.snapshots ++ [⟨accountId, state, fingerprint, fetched, expires⟩] }
  await .flush
  let r ← record
  return ⟨accountId, r.enabled, r.pausedReason, authenticated, r.sessionExpiresAt, state,
    fingerprint, fetched, expires⟩

end PlaceGame
