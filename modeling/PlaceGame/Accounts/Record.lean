import PlaceGame.Session

/-!
# PlaceGame.Accounts.Record

The assignments that `accounts/service.py` makes to an account object, one definition for each group
of assignments that stands together in the source, and the checks it makes on the removal markers.
-/

namespace PlaceGame

open Coop

def renewalWindow : Time := Time.hours 24
def authFailureWindow : Time := Time.hours 1
def snapshotTtl : Time := Time.minutes 5

namespace GameAccount

/-- `_bind_or_match_identity`, legacy record. -/
def bindIdentity (g : String) (r : GameAccount) : GameAccount := { r with gameAccountId := some g }

def identityMismatch (now : Time) (r : GameAccount) : GameAccount :=
  { r with
    enabled := false
    pausedReason := some "account_identity_mismatch"
    lastErrorAt := some now }

def pauseForRefresh (now : Time) (r : GameAccount) : GameAccount :=
  { r with pausedReason := some "session_refresh_required", lastErrorAt := some now }

/-- The failure counter of `_record_auth_failure`, before the pause. -/
def countAuthFailure (now : Time) (r : GameAccount) : GameAccount :=
  match r.authFailureWindowStartedAt with
  | none => { r with authFailureWindowStartedAt := some now, authFailureCount := 1 }
  | some started =>
    if authFailureWindow ≤ now - started then
      { r with authFailureWindowStartedAt := some now, authFailureCount := 1 }
    else { r with authFailureCount := r.authFailureCount + 1 }

def recordAuthFailure (now : Time) (r : GameAccount) : GameAccount :=
  let r := { r.countAuthFailure now with lastErrorAt := some now }
  if 3 ≤ r.authFailureCount then { r with pausedReason := some "authentication_required" } else r

def succeed (now : Time) (r : GameAccount) : GameAccount := { r with lastSuccessAt := some now }

/-- A session renewed by `_ensure_locked`. -/
def renew (token : String) (expiry : Option Time) (now : Time) (r : GameAccount) : GameAccount :=
  { r with
    sessionToken := some token
    sessionExpiresAt := expiry
    authFailureCount := 0
    authFailureWindowStartedAt := none
    lastSuccessAt := some now }

/-- `update_credentials` after the proposed login was verified. -/
def updateCredentials (username password token : String) (expiry : Option Time) (now : Time)
    (r : GameAccount) : GameAccount :=
  { r with
    authMode := .credentials
    gameUsername := some username
    password := some password
    sessionToken := some token
    sessionExpiresAt := expiry
    pausedReason := none
    authFailureCount := 0
    authFailureWindowStartedAt := none
    lastSuccessAt := some now }

/-- `update_token_only` after the proposed token was verified. -/
def updateTokenOnly (token : String) (expiry : Option Time) (now : Time) (r : GameAccount) :
    GameAccount :=
  { r with
    authMode := .tokenOnly
    gameUsername := none
    password := none
    sessionToken := some token
    sessionExpiresAt := expiry
    pausedReason := none
    authFailureCount := 0
    authFailureWindowStartedAt := none
    lastSuccessAt := some now }

/-- The first transaction of `disable_drain_remove`. -/
def beginRemoval (r : GameAccount) : GameAccount :=
  { r with enabled := false, pausedReason := some "removing" }

/-- The second transaction of `disable_drain_remove`. -/
def wipe (r : GameAccount) : GameAccount :=
  { r with
    enabled := false
    pausedReason := some "removed"
    gameUsername := none
    password := none
    sessionToken := none
    sessionExpiresAt := none }

end GameAccount

/-- The account as `_managed` shows it, without the row timestamps. -/
structure ManagedAccount where
  id : AccountId
  label : String
  authMode : AuthMode
  enabled : Bool
  pausedReason : Option String
  sessionExpiresAt : Option Time
  deriving DecidableEq, Repr

def managed (id : AccountId) (r : GameAccount) : ManagedAccount where
  id := id
  label := r.label
  authMode := r.authMode
  enabled := r.enabled
  pausedReason := r.pausedReason
  sessionExpiresAt := r.sessionExpiresAt

variable {T : Type}

/-- `_audit`: the ORM redacts the payloads. -/
def audit (actor : Actor) (accountId : Option AccountId) (action : String) (result : Json)
    (before : Option Json := none) (after : Option Json := none) (planId : Option PlanId := none) :
    Tx T Unit :=
  addAudit
    { actor := actor.value
      source := actor.kind.text
      accountId := accountId
      planId := planId
      action := action
      result := some (redact result)
      before := before.map redact
      after := after.map redact }

def status (text : String) : Json := .obj [("status", .str text)]

/-- `_require_for_update`. A row that the session already holds keeps its attributes. -/
def requireForUpdate (accountId : AccountId) : Tx T Unit := do
  match ← await (.accountForUpdate accountId) with
  | none => raise .accountNotFound
  | some row =>
    modifyFrame fun f =>
      if f.loaded = some accountId then f else { f with loaded := some accountId, record := row }

def rejectRemoved (r : GameAccount) : Tx T Unit :=
  raiseIf (r.pausedReason = some "removed") .accountRemoved

def rejectRemovalMarker (r : GameAccount) : Tx T Unit := do
  rejectRemoved r
  raiseIf (r.pausedReason = some "removing") .accountPaused

/-- The truth value of `record.paused_reason`. -/
def GameAccount.isPaused (r : GameAccount) : Prop := r.pausedReason.any (· ≠ "") = true

instance (r : GameAccount) : Decidable r.isPaused := inferInstanceAs (Decidable (_ = true))

def requireMutable (r : GameAccount) : Tx T Unit := do
  rejectRemovalMarker r
  raiseIf (r.enabled = false) .accountDisabled
  raiseIf r.isPaused .accountPaused

def normalizeLabel {σ : Type} (label : String) : Coro (sig T) σ String := do
  let normalized := pyStrip label
  raiseIf (¬ (1 ≤ normalized.length ∧ normalized.length ≤ 120))
    (.valueError "label must be between 1 and 120 characters")
  return normalized

end PlaceGame
