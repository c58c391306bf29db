import PlaceGame.Contracts
import PlaceGame.Coop.System

/-!
# PlaceGame.Admin.Auth

`AdminAuthService` over `PostgresAdminAuthStore`: one administrator, and the sessions that its
logins open.

Every method of the store is one transaction. It commits, or it fails before or after its commit;
the service goes on with what it was told.
-/

namespace PlaceGame

open Coop

structure AdminCredential where
  passwordHash : String
  createdAt : Time
  updatedAt : Time
  deriving DecidableEq, Repr

structure AdminSession where
  tokenDigest : String
  createdAt : Time
  absoluteExpiresAt : Time
  lastSeenAt : Time
  deriving DecidableEq, Repr

/-- `now >= record.absolute_expires_at or now >= idle_expiry`. -/
def AdminSession.expired (record : AdminSession) (idleSeconds : ℕ) (now : Time) : Bool :=
  record.absoluteExpiresAt ≤ now || record.lastSeenAt + Time.seconds idleSeconds ≤ now

inductive AuthError where
  | passwordTooShort
  | setupAlreadyComplete
  | unauthorized
  /-- A failure of the store or of the process. -/
  | failed (exc : Exc)
  deriving DecidableEq, Repr

inductive AuthOp where
  /-- `self._now()`. -/
  | now
  /-- `secrets.token_urlsafe(32)`. -/
  | newToken
  /-- `self.hasher.hash`, with its random salt. -/
  | hash (password : String)
  | setup (passwordHash : String) (now : Time)
  | readPasswordHash
  | updatePasswordHash (passwordHash : String) (now : Time)
  | createSession (tokenDigest : String) (now absoluteExpiresAt : Time)
  | findSession (tokenDigest : String) (now : Time) (idleSeconds : ℕ)
  | deleteSession (tokenDigest : String)
  | deleteAllSessions

namespace AuthOp

abbrev Val : AuthOp → Type
  | .now => Time
  | .newToken => String
  | .hash _ => String
  | .setup _ _ => Bool
  | .readPasswordHash => Option String
  | .updatePasswordHash _ _ => Unit
  | .createSession _ _ _ => AdminSession
  | .findSession _ _ _ => Option AdminSession
  | .deleteSession _ => Unit
  | .deleteAllSessions => Unit

end AuthOp

abbrev authSig : Sig := ⟨AuthOp, AuthOp.Val, AuthError⟩

abbrev Auth (α : Type) : Type := Coro authSig Unit α

/-! ## The store -/

/-- The rows of `admin_credentials` and `admin_sessions`, and the time. -/
structure AdminStore where
  credential : Option AdminCredential := none
  sessions : String → Option AdminSession := fun _ => none
  now : Time := 0

namespace AdminStore

abbrev Outcome (o : AuthOp) : Type := authSig.Ans o × AdminStore

def passwordHash (s : AdminStore) : Option String := s.credential.map (·.passwordHash)

/-- The primary key of the singleton row rejects a second one. -/
def setup (s : AdminStore) (passwordHash : String) (now : Time) :
    Except AuthError Bool × AdminStore :=
  match s.credential with
  | some _ => (.error .setupAlreadyComplete, s)
  | none => (.ok true, { s with credential := some ⟨passwordHash, now, now⟩ })

def updatePasswordHash (s : AdminStore) (passwordHash : String) (now : Time) :
    Except AuthError Unit × AdminStore :=
  match s.credential with
  | none => (.error .unauthorized, s)
  | some record => (.ok (), { s with credential := some { record with passwordHash, updatedAt := now } })

/-- The digest of a session is unique. -/
def createSession (s : AdminStore) (tokenDigest : String) (now absoluteExpiresAt : Time) :
    Except AuthError AdminSession × AdminStore :=
  match s.sessions tokenDigest with
  | some _ => (.error (.failed .integrityError), s)
  | none =>
    let record : AdminSession := ⟨tokenDigest, now, absoluteExpiresAt, now⟩
    (.ok record, { s with sessions := Function.update s.sessions tokenDigest (some record) })

def findSession (s : AdminStore) (tokenDigest : String) (now : Time) (idleSeconds : ℕ) :
    Except AuthError (Option AdminSession) × AdminStore :=
  match s.sessions tokenDigest with
  | none => (.ok none, s)
  | some record =>
    if record.expired idleSeconds now then
      (.ok none, { s with sessions := Function.update s.sessions tokenDigest none })
    else
      let seen := { record with lastSeenAt := now }
      (.ok (some seen), { s with sessions := Function.update s.sessions tokenDigest (some seen) })

def deleteSession (s : AdminStore) (tokenDigest : String) : AdminStore :=
  { s with sessions := Function.update s.sessions tokenDigest none }

def deleteAllSessions (s : AdminStore) : AdminStore := { s with sessions := fun _ => none }

/-- What an effect answers and leaves when nothing fails. Tokens and hashes are not the store's. -/
def effect (s : AdminStore) : (o : AuthOp) → authSig.Ans o → Except AuthError o.Val × AdminStore
  | .now, _ => (.ok s.now, s)
  | .newToken, reply => (reply, s)
  | .hash _, reply => (reply, s)
  | .setup passwordHash now, _ => s.setup passwordHash now
  | .readPasswordHash, _ => (.ok s.passwordHash, s)
  | .updatePasswordHash passwordHash now, _ => s.updatePasswordHash passwordHash now
  | .createSession tokenDigest now expiry, _ => s.createSession tokenDigest now expiry
  | .findSession tokenDigest now idleSeconds, _ => s.findSession tokenDigest now idleSeconds
  | .deleteSession tokenDigest, _ => (.ok (), s.deleteSession tokenDigest)
  | .deleteAllSessions, _ => (.ok (), s.deleteAllSessions)

/-- The effect happens, or its task sees a failure: before the commit, or after it. -/
inductive Performs (s : AdminStore) : (o : AuthOp) → authSig.Ans o → AdminStore → Prop where
  | done {o : AuthOp} (reply : authSig.Ans o) :
      Performs s o (s.effect o reply).1 (s.effect o reply).2
  | failed {o : AuthOp} (exc : Exc) : Performs s o (.error (.failed exc)) s
  | lost {o : AuthOp} (reply : authSig.Ans o) (exc : Exc) :
      Performs s o (.error (.failed exc)) (s.effect o reply).2

end AdminStore

/-! ## The service -/

/-- What the service is built with. `verify` is `PasswordHasher.verify`, and `tokenDigest` the
SHA-256 of a token. -/
structure AdminAuthService where
  verify : String → String → Bool
  tokenDigest : String → String
  idleSeconds : ℕ := 30 * 60
  absoluteSeconds : ℕ := 12 * 60 * 60

structure LoginSession where
  token : String
  session : AdminSession
  deriving DecidableEq, Repr

def isTokenChar (c : Char) : Bool := c.isAlphanum || c == '_' || c == '-'

/-- `SESSION_TOKEN_PATTERN.fullmatch`. -/
def isSessionToken (s : String) : Bool := decide (s.length = 43) && s.toList.all isTokenChar

namespace AdminAuthService

variable (service : AdminAuthService)

def await (o : AuthOp) : Auth o.Val := Coro.await (S := authSig) o

def raise {α : Type} (e : AuthError) : Auth α := Coro.raise (S := authSig) e

def requirePassword (password : String) : Auth Unit :=
  Coro.raiseIf (S := authSig) (pyStrip password = "") .passwordTooShort

def setup (password : String) : Auth Unit := do
  requirePassword password
  let passwordHash ← await (.hash password)
  let now ← await .now
  let created ← await (.setup passwordHash now)
  Coro.raiseIf (S := authSig) (created = false) .setupAlreadyComplete

/-- The checks that `login` and `change_password` share. -/
def verifyStored (password : String) : Auth Unit := do
  match ← await .readPasswordHash with
  | none => raise .unauthorized
  | some passwordHash =>
    Coro.raiseIf (S := authSig) (service.verify passwordHash password = false) .unauthorized

def login (password : String) : Auth LoginSession := do
  service.verifyStored password
  let now ← await .now
  let token ← await .newToken
  let record ← await (.createSession (service.tokenDigest token) now
    (now + Time.seconds service.absoluteSeconds))
  return ⟨token, record⟩

def changePassword (currentPassword newPassword : String) : Auth Unit := do
  service.verifyStored currentPassword
  requirePassword newPassword
  let passwordHash ← await (.hash newPassword)
  let now ← await .now
  await (.updatePasswordHash passwordHash now)
  await .deleteAllSessions

def validate (rawToken : Option String) : Auth (Option AdminSession) :=
  match rawToken with
  | none => return none
  | some token =>
    if isSessionToken token = false then return none
    else do
      let now ← await .now
      await (.findSession (service.tokenDigest token) now service.idleSeconds)

def logout (rawToken : Option String) : Auth Unit :=
  match rawToken with
  | none => return ()
  | some token =>
    if isSessionToken token = false then return ()
    else await (.deleteSession (service.tokenDigest token))

end AdminAuthService

/-! ## All calls -/

inductive AuthCall where
  | setup (password : String)
  | login (password : String)
  | changePassword (currentPassword newPassword : String)
  | validate (rawToken : Option String)
  | logout (rawToken : Option String)

inductive AuthReturned where
  | unit
  | login (session : LoginSession)
  | session (record : Option AdminSession)
  deriving DecidableEq, Repr

def AuthCall.run (service : AdminAuthService) : AuthCall → Auth AuthReturned
  | .setup password => do
    AdminAuthService.setup password
    return .unit
  | .login password => return .login (← service.login password)
  | .changePassword currentPassword newPassword => do
    service.changePassword currentPassword newPassword
    return .unit
  | .validate rawToken => return .session (← service.validate rawToken)
  | .logout rawToken => do
    service.logout rawToken
    return .unit

/-- Any number of calls over one store, while time passes. -/
abbrev admin (service : AdminAuthService) : Machine authSig AdminStore where
  Call := AuthCall
  Res := Except AuthError AuthReturned
  prog call := Coro.toProc () (call.run service)
  perform _ s o r s' := s.Performs o r s'
  crash _ s := s
  env s s' := ∃ now, s.now ≤ now ∧ s' = { s with now }

end PlaceGame
