import Mathlib.Data.NNRat.Floor
import PlaceGame.Coop.Proc
import PlaceGame.Errors
import PlaceGame.Game.Registry
import PlaceGame.Json

/-!
# PlaceGame.Game.Client

`HttpGameClient`: one request to the game with its retries, and the interpretation of the answer.

A read is repeated after a failure of the transport; any request is repeated once when the game
refuses its client version and names another one. The version is held by an object that all clients
share, so reading and adopting it are effects.
-/

namespace PlaceGame

open Coop

/-! ## Client versions -/

/-- `0|[1-9]\d*`. -/
def isVersionNumber : List Char → Bool
  | [] => false
  | ['0'] => true
  | c :: rest => c.isDigit && c != '0' && rest.all Char.isDigit

def isVersionSuffixChar (c : Char) : Bool := c.isAlphanum || c == '.' || c == '-'

/-- What may follow the three numbers: nothing, or `-[0-9A-Za-z.-]{1,32}`. -/
def isVersionSuffix : List Char → Bool
  | [] => true
  | c :: rest =>
    c == '-' && decide (1 ≤ rest.length) && decide (rest.length ≤ 32) &&
      rest.all isVersionSuffixChar

/-- `CLIENT_VERSION_PATTERN.fullmatch`; the numbers contain no hyphen. -/
def isClientVersion (s : String) : Bool :=
  let core := s.toList.takeWhile (· ≠ '-')
  let parts := core.splitOn '.'
  decide (parts.length = 3) && parts.all isVersionNumber &&
    isVersionSuffix (s.toList.dropWhile (· ≠ '-'))

/-- The value that a `GameClientVersion` holds. -/
abbrev ClientVersion : Type := { s : String // isClientVersion s = true }

/-- `adopt`: the new value, and whether it is news. -/
def ClientVersion.adopt (value : ClientVersion) (candidate : String) : Bool × ClientVersion :=
  if h : isClientVersion candidate = true then
    if candidate = value.1 then (false, value) else (true, ⟨candidate, h⟩)
  else (false, value)

/-! ## Answers -/

/-- A decoded response body. Numbers stay literals: the client itself reads none. -/
inductive Payload where
  | null
  | bool (b : Bool)
  | number (literal : String)
  | str (s : String)
  | arr (items : List Payload)
  | obj (fields : List (String × Payload))

/-- `payload.get(key)` of a mapping. -/
def Payload.get? : Payload → String → Option Payload
  | .obj fields, key => fields.lookup key
  | _, _ => none

def Payload.str? : Payload → Option String
  | .str s => some s
  | _ => none

structure Response where
  statusCode : Nat
  headers : List (String × String) := []
  /-- `response.json()`; `none` when it raises the `TypeError` or `ValueError` that the client catches.
  Documents that are too deep for the interpreter are left out. -/
  json : Option Payload

/-- What one transmission brings: `httpx.HTTPError`, or a response. -/
inductive Answer where
  | transportFailure
  | response (r : Response)

inductive FailureKind where
  | ambiguous
  | unavailable
  | sessionRejected
  | contractChanged
  | clientVersionRejected
  | inventoryFull
  | insufficientResource
  | conflict
  | rateLimited
  | schemaMismatch
  | httpError
  deriving DecidableEq, Repr

structure Metadata where
  statusCode : Nat
  errorCode : Option String := none
  deriving DecidableEq, Repr

structure Failure where
  kind : FailureKind
  metadata : Option Metadata := none
  code : Option String := none
  retryAfter : Option ℚ := none
  requiredVersion : Option String := none

def stableErrorCodes : List String := ["conflict", "insufficient_resource", "inventory_full"]

def safeErrorCode (r : Response) : Option String := do
  let payload ← r.json
  let candidate :=
    match payload.get? "error" with
    | some (.obj error) => error.lookup "code"
    | _ => payload.get? "code"
  let code ← (← candidate).str?
  if code ∈ stableErrorCodes then some code else none

def requiredClientVersion (r : Response) : Option String := do
  let payload ← r.json
  let data ← payload.get? "data"
  let candidate ← (← data.get? "minimumClientVersion").str?
  if isClientVersion candidate = true then some candidate else none

/-- A response model: whether it reads the whole envelope, and `model_validate`, which raises on
`none`. -/
structure ResponseModel (α : Type) where
  readsEnvelope : Bool := false
  validate : Payload → Option α

variable {α : Type}

/-- `_payload_for`; `none` is the `KeyError` of an envelope without data. -/
def payloadFor (model : ResponseModel α) (envelope : List (String × Payload)) : Option Payload :=
  if model.readsEnvelope then some (.obj envelope)
  else
    match envelope.lookup "data" with
    | some (.obj data) =>
      if (data.lookup "result").isSome && (data.lookup "statePatch").isSome then
        data.lookup "result"
      else some (.obj data)
    | data => data

def isFalse : Option Payload → Bool
  | some (.bool false) => true
  | _ => false

/-- A response outside 2xx. `retryAfter` is the delay that `_parse_retry_after` reads. -/
def interpretRefusal (retryAfter : List (String × String) → Option ℚ) (r : Response) : Failure :=
  let errorCode := safeErrorCode r
  let metadata := some ⟨r.statusCode, errorCode⟩
  if r.statusCode = 401 ∨ r.statusCode = 403 then { kind := .sessionRejected }
  else if r.statusCode = 426 then
    { kind := .clientVersionRejected, metadata, requiredVersion := requiredClientVersion r }
  else if 500 ≤ r.statusCode then { kind := .unavailable }
  else if errorCode = some "inventory_full" then { kind := .inventoryFull }
  else if errorCode = some "insufficient_resource" then { kind := .insufficientResource, metadata }
  else if r.statusCode = 409 then { kind := .conflict, code := errorCode }
  else if r.statusCode = 429 then { kind := .rateLimited, retryAfter := retryAfter r.headers }
  else { kind := .httpError, metadata }

def interpretSuccess (model : ResponseModel α) (r : Response) : Except Failure α :=
  let mismatch : Failure := { kind := .schemaMismatch, metadata := some ⟨r.statusCode, none⟩ }
  match r.json with
  | some (.obj envelope) =>
    if isFalse (envelope.lookup "ok") then .error { kind := .conflict, code := safeErrorCode r }
    else
      match (payloadFor model envelope).bind model.validate with
      | some result => .ok result
      | none => .error mismatch
  | _ => .error mismatch

def interpretResponse (retryAfter : List (String × String) → Option ℚ) (model : ResponseModel α)
    (r : Response) : Except Failure α :=
  if 200 ≤ r.statusCode ∧ r.statusCode < 300 then interpretSuccess model r
  else .error (interpretRefusal retryAfter r)

inductive GameError where
  | ambiguousMutation (operation : OperationName)
  | gameUnavailable (operation : OperationName)
  | sessionRejected
  | contractChanged
  | clientVersionRejected
  | inventoryFull
  | insufficientResource (metadata : Option Metadata)
  | gameConflict (code : Option String)
  | gameRateLimited (retryAfter : Option ℚ)
  | gameSchemaMismatch (operation : OperationName) (metadata : Option Metadata)
  | gameHttpError (operation : OperationName) (metadata : Option Metadata)

def publicError (operation : OperationName) (failure : Failure) : GameError :=
  match failure.kind with
  | .ambiguous => .ambiguousMutation operation
  | .unavailable => .gameUnavailable operation
  | .sessionRejected => .sessionRejected
  | .contractChanged => .contractChanged
  | .clientVersionRejected => .clientVersionRejected
  | .inventoryFull => .inventoryFull
  | .insufficientResource => .insufficientResource failure.metadata
  | .conflict => .gameConflict failure.code
  | .rateLimited => .gameRateLimited failure.retryAfter
  | .schemaMismatch => .gameSchemaMismatch operation failure.metadata
  | .httpError => .gameHttpError operation failure.metadata

/-! ## Requests -/

structure Request where
  method : Method
  url : String
  headers : List (String × String)
  json : Option Json

/-- What ends a request besides its result. -/
inductive ClientError where
  | game (error : GameError)
  /-- `AssertionError("unreachable")`. -/
  | unreachable
  /-- Whatever ends the await of a transmission or of a pause otherwise. -/
  | raised (exc : Exc)

inductive ClientOp where
  /-- `self._client_version.value`, read when the headers are built. -/
  | declare
  | adopt (candidate : String)
  | transmit (request : Request)
  /-- The pause after the attempt of this number. -/
  | sleep (attempt : Nat)

namespace ClientOp

abbrev Val : ClientOp → Type
  | .declare => ClientVersion
  | .adopt _ => Bool
  | .transmit _ => Answer
  | .sleep _ => Unit

end ClientOp

abbrev clientSig : Sig := ⟨ClientOp, ClientOp.Val, ClientError⟩

abbrev Client (α : Type) : Type := Coro clientSig Unit α

/-- What a client object holds besides the shared version. -/
structure HttpGameClient where
  baseUrl : String
  sessionToken : Option String
  retryAfter : List (String × String) → Option ℚ

namespace HttpGameClient

variable (client : HttpGameClient)

def await (o : ClientOp) : Client o.Val := Coro.await (S := clientSig) o

def headers (operation : OperationName) (version : ClientVersion) : List (String × String) :=
  [("Accept", "application/json"), ("x-placegame-client-platform", "cli"),
    ("x-placegame-client-version", version.1), ("x-placegame-response-state", "omit")] ++
    match client.sessionToken with
    | some token =>
      if operation ≠ .login then [("Authorization", "Bearer " ++ token)] else []
    | none => []

def request (operation : OperationName) (version : ClientVersion) (payload : Option Json) :
    Request where
  method := (registry operation).method
  url := client.baseUrl ++ (registry operation).path
  headers := client.headers operation version
  json := payload

/-- `_send_once`. The rate limiter makes the transmission wait after the headers are built. -/
def sendOnce (operation : OperationName) (payload : Option Json) : Client Answer := do
  let version ← await .declare
  await (.transmit (client.request operation version payload))

/-- The loop of `_attempt` with `left` rounds to go of `attempts`. -/
def attemptLoop (operation : OperationName) (model : ResponseModel α) (payload : Option Json)
    (attempts : Nat) : Nat → Client (Except Failure α)
  | 0 => Coro.raise (S := clientSig) .unreachable
  | left + 1 => do
    match ← client.sendOnce operation payload with
    | .transportFailure =>
      if (registry operation).mutation then return .error { kind := .ambiguous }
      else if left = 0 then return .error { kind := .unavailable }
      else
        await (.sleep (attempts - (left + 1)))
        attemptLoop operation model payload attempts left
    | .response r =>
      match interpretResponse client.retryAfter model r with
      | .error failure =>
        if failure.kind = .unavailable ∧ (registry operation).mutation = true then
          return .error { kind := .ambiguous }
        else return .error failure
      | .ok result => return .ok result

def attempt (operation : OperationName) (model : ResponseModel α) (payload : Option Json) :
    Client (Except Failure α) :=
  let attempts := if (registry operation).mutation then 1 else 3
  client.attemptLoop operation model payload attempts attempts

def requestOutcome (operation : OperationName) (model : ResponseModel α) (payload : Option Json) :
    Client (Except Failure α) := do
  match ← client.attempt operation model payload with
  | .error failure =>
    if failure.kind = .clientVersionRejected then
      match failure.requiredVersion with
      | some version =>
        if ← await (.adopt version) then client.attempt operation model payload
        else return .error failure
      | none => return .error failure
    else return .error failure
  | .ok result => return .ok result

/-- `_request`. -/
def requestResult (operation : OperationName) (model : ResponseModel α) (payload : Option Json) :
    Client α := do
  match ← client.requestOutcome operation model payload with
  | .error failure => Coro.raise (S := clientSig) (.game (publicError operation failure))
  | .ok result => return result

end HttpGameClient

end PlaceGame
