import PlaceGame.Admin.Auth
import PlaceGame.Security.Redaction
import PlaceGame.System

/-!
# PlaceGame.Admin.Routes

The handlers of the administration routes, over `AdminAuthService` and the calls of the account
system. A request is what the handlers read of it, and a route carries its validated body; routing
and the validation of bodies are the framework's.
-/

namespace PlaceGame

open Coop

inductive WebOp where
  | auth (o : AuthOp)
  /-- A call of the account service or of a use case. -/
  | service (call : Call)
  /-- `account_service.get`. -/
  | getAccount (accountId : AccountId)
  /-- `account_service.list_accounts`. -/
  | listAccounts
  /-- `uuid4().hex`. -/
  | newCorrelationId

namespace WebOp

abbrev Val : WebOp → Type
  | .auth o => o.Val
  | .service _ => Returned Unit
  | .getAccount _ => ManagedAccount
  | .listAccounts => List ManagedAccount
  | .newCorrelationId => String

end WebOp

abbrev webSig : Sig := ⟨WebOp, WebOp.Val, AuthError⟩

abbrev Web (α : Type) : Type := Coro webSig Unit α

/-! ## Requests and replies -/

structure WebRequest where
  /-- The session cookie. -/
  cookie : Option String
  origin : Option String
  /-- `request.url.netloc`. -/
  netloc : String
  contentType : Option String

inductive AdminRoute where
  | authStatus
  | setup (password : String)
  | login (password : String)
  | logout
  | changePassword (currentPassword newPassword : String)
  | accountsList
  | accountStatus (accountId : AccountId)
  | idlePreview (accountId : AccountId)
  | createCredentials (label username password : String)
  | createTokenOnly (label sessionToken : String)
  | updateLabel (accountId : AccountId) (label : String)
  | updateCredentials (accountId : AccountId) (username : Option String) (password : String)
  | updateTokenOnly (accountId : AccountId) (sessionToken : String)
  | enable (accountId : AccountId)
  | disable (accountId : AccountId)
  | pause (accountId : AccountId) (reason : String)
  | resume (accountId : AccountId)
  | remove (accountId : AccountId)

inductive WebBody where
  | error (code : String)
  | authStatus (setupRequired authenticated : Bool)
  | authenticated
  | empty
  /-- `account_response` of an account that was read. -/
  | account (account : ManagedAccount)
  /-- `account_response` of what a call returned. -/
  | created (result : Returned Unit)
  /-- Each account with its `auth_state`. -/
  | accounts (accounts : List (ManagedAccount × String))
  /-- `model_dump` of what a call returned. -/
  | dump (result : Returned Unit)

inductive CookieEdit where
  | keep
  | set (token : String)
  | clear

structure WebReply where
  status : Nat
  body : WebBody
  cookie : CookieEdit := .keep

def errorReply (status : Nat) (code : String) : WebReply := ⟨status, .error code, .keep⟩

def unauthorizedReply : WebReply := errorReply 401 "unauthorized"

/-- `isinstance(error, Exception)`. -/
def AuthError.isException : AuthError → Bool
  | .failed exc => exc.isException
  | _ => true

/-- `_ERROR_CODES`. -/
def errorCode : Exc → String × Nat
  | .accountNotFound => ("account_not_found", 404)
  | .accountIdentityConflict => ("account_identity_conflict", 409)
  | .accountDisabled => ("account_disabled", 409)
  | .accountPaused => ("account_paused", 409)
  | .accountRemoved => ("account_removed", 409)
  | .authenticationRequired => ("authentication_required", 409)
  | .policyUnavailable => ("policy_unavailable", 409)
  | .reconciliationRequired => ("reconciliation_required", 409)
  | .planPreconditionFailed => ("plan_precondition_failed", 409)
  | .sessionRejected => ("session_rejected", 409)
  | .clientVersionRejected => ("game_client_version_rejected", 409)
  | .contractChanged => ("game_contract_changed", 409)
  | .gameSchemaMismatch _ => ("game_contract_changed", 409)
  | .inventoryFull => ("inventory_full", 409)
  | .insufficientResource => ("insufficient_resource", 409)
  | .gameConflict _ => ("game_conflict", 409)
  | .gameRateLimited => ("game_rate_limited", 429)
  | .ambiguousMutation _ => ("ambiguous_mutation", 409)
  | .gameUnavailable _ => ("game_unavailable", 503)
  | .gameHttpError _ => ("game_unavailable", 503)
  | _ => ("internal_error", 500)

def errorResponse : AuthError → WebReply
  | .passwordTooShort => errorReply 422 "password_too_short"
  | .setupAlreadyComplete => errorReply 409 "setup_already_complete"
  | .unauthorized => unauthorizedReply
  | .failed .planInProgress => errorReply 409 "plan_in_progress"
  | .failed .gameContractChanged => errorReply 409 "game_contract_changed"
  | .failed .idleReconciliationRequired => errorReply 409 "reconciliation_required"
  | .failed exc =>
    if exc.isValueError then errorReply 422 "invalid_request"
    else errorReply (errorCode exc).2 (errorCode exc).1

/-! ## The handlers -/

/-- What the router is built with. `urlsplit` gives the scheme and the host of an origin, or raises
`ValueError`. -/
structure AdminApp where
  service : AdminAuthService
  urlsplit : String → Except Exc (String × String)

def webuiActor : Actor := ⟨.webui, "operator"⟩

def accountListPayload (account : ManagedAccount) : ManagedAccount × String :=
  (account, if account.pausedReason = some "authentication_required" then "required" else "unknown")

def liftProc {α : Type} : Proc authSig α → Proc webSig α
  | .ret a => .ret a
  | .call o k => .call (.auth o) fun r => liftProc (k r)

/-- A method of the authentication service, called by a handler. -/
def liftAuth {α : Type} (c : Auth α) : Web α := fun s => liftProc (c s)

def AdminAuthService.isSetup : Auth Bool := do
  return (← AdminAuthService.await .readPasswordHash).isSome

namespace AdminApp

variable (app : AdminApp) (request : WebRequest)

def await (o : WebOp) : Web o.Val := Coro.await (S := webSig) o

def invoke {α : Type} (operation : Web α) : Web (Except WebReply α) := do
  match ← Coro.attempt (S := webSig) operation with
  | .ok result => return .ok result
  | .error e =>
    if e.isException then return .error (errorResponse e)
    else Coro.raise (S := webSig) e

def sameOrigin : Web (Option WebReply) :=
  match request.origin with
  | none => return none
  | some origin =>
    match app.urlsplit origin with
    | .error e => Coro.raise (S := webSig) (.failed e)
    | .ok (scheme, netloc) =>
      if (scheme ≠ "http" ∧ scheme ≠ "https") ∨ lower netloc ≠ lower request.netloc then
        return some (errorReply 403 "origin_forbidden")
      else return none

def isJson : Bool :=
  "application/json".toList.isPrefixOf (lower (request.contentType.getD ""))

def requireJson : Option WebReply :=
  if isJson request then none else some (errorReply 415 "content_type_required")

/-- `write_guard`; the handlers of `setup`, `login` and `logout` make the same two checks. -/
def writeGuard : Web (Option WebReply) := do
  match ← sameOrigin app request with
  | some reply => return some reply
  | none => return requireJson request

def requireAdmin : Web (Except WebReply (Option AdminSession)) :=
  match request.cookie with
  | none => return .ok none
  | some token =>
    if isSessionToken token = false then return .ok none
    else do
      match ← Coro.attempt (S := webSig) (liftAuth (app.service.validate (some token))) with
      | .ok session => return .ok session
      | .error e =>
        if e.isException then return .error (errorReply 500 "internal_error")
        else Coro.raise (S := webSig) e

def refusal : Except WebReply (Option AdminSession) → Option WebReply
  | .error reply => some reply
  | .ok none => some unauthorizedReply
  | .ok (some _) => none

def writeAccess (session : Except WebReply (Option AdminSession)) : Web (Option WebReply) := do
  match ← writeGuard app request with
  | some reply => return some reply
  | none => return refusal session

def authenticatedWrite {α : Type} (session : Except WebReply (Option AdminSession))
    (operation : Web α) : Web (Except WebReply α) := do
  match ← writeAccess app request session with
  | some reply => return .error reply
  | none => invoke operation

def accountAfter (accountId : AccountId) (session : Except WebReply (Option AdminSession))
    (call : Call) : Web WebReply := do
  match ← authenticatedWrite app request session (await (.service call)) with
  | .error reply => return reply
  | .ok _ =>
    match ← invoke (await (.getAccount accountId)) with
    | .error reply => return reply
    | .ok account => return ⟨200, .account account, .keep⟩

def requireAccountMode (accountId : AccountId) (expected : AuthMode) : Web (Option WebReply) := do
  match ← invoke (await (.getAccount accountId)) with
  | .error reply => return some reply
  | .ok account =>
    if account.authMode ≠ expected then
      return some (errorReply 409 "account_auth_mode_conflict")
    else return none

/-- The two edits of secrets check the mode of the account before their write. -/
def secretsUpdate (accountId : AccountId) (expected : AuthMode) (call : Call) : Web WebReply := do
  let session ← requireAdmin app request
  match ← writeAccess app request session with
  | some reply => return reply
  | none =>
    match ← requireAccountMode accountId expected with
    | some reply => return reply
    | none => accountAfter app request accountId session call

/-- The handlers that only write an account and answer it. -/
def accountWrite (accountId : AccountId) (call : Call) : Web WebReply := do
  let session ← requireAdmin app request
  accountAfter app request accountId session call

def accountCreate (call : Call) : Web WebReply := do
  let session ← requireAdmin app request
  match ← authenticatedWrite app request session (await (.service call)) with
  | .error reply => return reply
  | .ok result => return ⟨201, .created result, .keep⟩

def accountRead {α : Type} (operation : Web α) (body : α → WebBody) : Web WebReply := do
  let session ← requireAdmin app request
  match refusal session with
  | some reply => return reply
  | none =>
    match ← invoke operation with
    | .error reply => return reply
    | .ok result => return ⟨200, body result, .keep⟩

def authStatus : Web WebReply := do
  match ← invoke (liftAuth AdminAuthService.isSetup) with
  | .error reply => return reply
  | .ok isSetup =>
    if isSetup = false then return ⟨200, .authStatus true false, .keep⟩
    else
      match ← requireAdmin app request with
      | .error reply => return reply
      | .ok session => return ⟨200, .authStatus false session.isSome, .keep⟩

def authSetup (password : String) : Web WebReply := do
  match ← writeGuard app request with
  | some reply => return reply
  | none =>
    match ← invoke (liftAuth (AdminAuthService.setup password)) with
    | .error reply => return reply
    | .ok _ => return ⟨201, .authStatus false false, .keep⟩

def authLogin (password : String) : Web WebReply := do
  match ← writeGuard app request with
  | some reply => return reply
  | none =>
    match ← invoke (liftAuth (app.service.login password)) with
    | .error reply => return reply
    | .ok result => return ⟨200, .authenticated, .set result.token⟩

/-- The handlers that end sessions. -/
def endSessions (operation : Auth Unit) : Web WebReply := do
  let session ← requireAdmin app request
  match ← writeAccess app request session with
  | some reply => return reply
  | none =>
    match ← invoke (liftAuth operation) with
    | .error reply => return reply
    | .ok _ => return ⟨204, .empty, .clear⟩

/-- `idle_preview`, which draws its correlation identifier outside of `invoke`. -/
def idlePreview (accountId : AccountId) : Web WebReply := do
  let session ← requireAdmin app request
  match refusal session with
  | some reply => return reply
  | none =>
    let correlationId ← await .newCorrelationId
    match ← invoke (await (.service (.preview accountId webuiActor correlationId))) with
    | .error reply => return reply
    | .ok result => return ⟨200, .dump result, .keep⟩

def handle : AdminRoute → Web WebReply
  | .authStatus => authStatus app request
  | .setup password => authSetup app request password
  | .login password => authLogin app request password
  | .logout => endSessions app request (app.service.logout request.cookie)
  | .changePassword currentPassword newPassword =>
    endSessions app request (app.service.changePassword currentPassword newPassword)
  | .accountsList => accountRead app request (await .listAccounts) fun accounts =>
    .accounts (accounts.map accountListPayload)
  | .accountStatus a =>
    accountRead app request (await (.service (.accountStatus a webuiActor))) .dump
  | .idlePreview a => idlePreview app request a
  | .createCredentials label username password =>
    accountCreate app request (.addCredentials label username password webuiActor)
  | .createTokenOnly label sessionToken =>
    accountCreate app request (.addTokenOnly label sessionToken webuiActor)
  | .updateLabel a label => accountWrite app request a (.updateLabel a label webuiActor)
  | .updateCredentials a username password =>
    secretsUpdate app request a .credentials (.updateCredentials a username password webuiActor)
  | .updateTokenOnly a sessionToken =>
    secretsUpdate app request a .tokenOnly (.updateTokenOnly a sessionToken webuiActor)
  | .enable a => accountWrite app request a (.enable a webuiActor)
  | .disable a => accountWrite app request a (.disable a webuiActor)
  | .pause a reason => accountWrite app request a (.pause a reason webuiActor)
  | .resume a => accountWrite app request a (.resume a webuiActor)
  | .remove a => accountWrite app request a (.disableDrainRemove a webuiActor)

end AdminApp

/-! ## All requests -/

/-- The calls of the account system are answered somehow, and leave the sessions alone. -/
def AdminStore.Serves (s : AdminStore) : (o : WebOp) → webSig.Ans o → AdminStore → Prop
  | .auth o, r, s' => s.Performs o r s'
  | _, _, s' => s' = s

/-- Any number of requests over one store, while time passes. -/
abbrev adminRoutes (app : AdminApp) : Machine webSig AdminStore where
  Call := WebRequest × AdminRoute
  Res := Except AuthError WebReply
  prog call := Coro.toProc () (app.handle call.1 call.2)
  perform _ s o r s' := s.Serves o r s'
  crash _ s := s
  env s s' := ∃ now, s.now ≤ now ∧ s' = { s with now }

end PlaceGame
