/-!
# PlaceGame.Errors

The exceptions of `errors.py`, `application/errors.py` and `policy/models.py`, the Python ones that
the modelled functions raise themselves, and everything else as `other`. `cancelled` is
`asyncio.CancelledError`: it is not an `Exception`, so `except Exception` lets it pass.
-/

namespace PlaceGame

inductive Exc where
  | cancelled
  -- AccountError
  | accountNotFound
  | accountIdentityConflict
  | accountDisabled
  | accountPaused
  | accountRemoved
  | authenticationRequired
  | policyUnavailable
  | policyConflict
  | reconciliationRequired
  | planPreconditionFailed
  -- GameError
  | sessionRejected
  | contractChanged
  | clientVersionRejected
  | inventoryFull
  | insufficientResource
  | gameConflict (code : Option String)
  | gameRateLimited
  | ambiguousMutation (operation : String)
  | gameUnavailable (operation : String)
  | gameSchemaMismatch (operation : String)
  | gameHttpError (operation : String)
  -- ApplicationError
  | planInProgress
  | gameContractChanged
  | idleReconciliationRequired
  -- the rest
  | valueError (message : String)
  | integrityError
  | assertionError
  | other (name : String)
  deriving DecidableEq, Repr

namespace Exc

/-- `isinstance(exc, Exception)`. -/
def isException : Exc → Bool
  | .cancelled => false
  | _ => true

def isAccountError : Exc → Bool
  | .accountNotFound | .accountIdentityConflict | .accountDisabled | .accountPaused
  | .accountRemoved | .authenticationRequired | .policyUnavailable | .policyConflict
  | .reconciliationRequired | .planPreconditionFailed => true
  | _ => false

def isGameError : Exc → Bool
  | .sessionRejected | .contractChanged | .clientVersionRejected | .inventoryFull
  | .insufficientResource | .gameConflict _ | .gameRateLimited | .ambiguousMutation _
  | .gameUnavailable _ | .gameSchemaMismatch _ | .gameHttpError _ => true
  | _ => false

/-- `isinstance(exc, ValueError)`. The three named classes derive from it. -/
def isValueError : Exc → Bool
  | .valueError _ => true
  | .other name => name == "ValidationError" || name == "UnicodeDecodeError" || name == "InvalidSecret"
  | _ => false

def isGameConflict : Exc → Bool
  | .gameConflict _ => true
  | _ => false

/-- `type(exc).__name__`. -/
def typeName : Exc → String
  | .cancelled => "CancelledError"
  | .accountNotFound => "AccountNotFound"
  | .accountIdentityConflict => "AccountIdentityConflict"
  | .accountDisabled => "AccountDisabled"
  | .accountPaused => "AccountPaused"
  | .accountRemoved => "AccountRemoved"
  | .authenticationRequired => "AuthenticationRequired"
  | .policyUnavailable => "PolicyUnavailable"
  | .policyConflict => "PolicyConflict"
  | .reconciliationRequired => "ReconciliationRequired"
  | .planPreconditionFailed => "PlanPreconditionFailed"
  | .sessionRejected => "SessionRejected"
  | .contractChanged => "ContractChanged"
  | .clientVersionRejected => "ClientVersionRejected"
  | .inventoryFull => "InventoryFull"
  | .insufficientResource => "InsufficientResource"
  | .gameConflict _ => "GameConflict"
  | .gameRateLimited => "GameRateLimited"
  | .ambiguousMutation _ => "AmbiguousMutation"
  | .gameUnavailable _ => "GameUnavailable"
  | .gameSchemaMismatch _ => "GameSchemaMismatch"
  | .gameHttpError _ => "GameHttpError"
  | .planInProgress => "PlanInProgress"
  | .gameContractChanged => "GameContractChanged"
  | .idleReconciliationRequired => "IdleReconciliationRequired"
  | .valueError _ => "ValueError"
  | .integrityError => "IntegrityError"
  | .assertionError => "AssertionError"
  | .other name => name

end Exc

end PlaceGame
