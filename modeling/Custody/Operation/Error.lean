/-! # Errors of operations

Each constructor is one way in which an operation cannot be written, read or proposed.
-/

namespace Custody

/-- A failure to write, read or propose an operation. -/
inductive OperationError where
  | fieldTooLarge (field : String) (size limit : Nat)
  | truncated (field : String) (needed remaining : Nat)
  | tooManyOwners (count limit : Nat)
  | invalidPublicKey (reason : String)
  | invalidUuid (text : String)
  | unsupportedChain (code : UInt8)
  | unsupportedAction (action : String) (chain : UInt8)
  | invalidBase64 (reason : String)
deriving DecidableEq, Repr

namespace OperationError

def message : OperationError → String
  | fieldTooLarge field size limit => s!"{field} too large: {size} bytes exceeds {limit}"
  | truncated field needed remaining =>
    s!"truncated {field}: need {needed} bytes, {remaining} remaining"
  | tooManyOwners count limit => s!"too many owners: {count} exceeds {limit}"
  | invalidPublicKey reason => s!"invalid public key: {reason}"
  | invalidUuid text => s!"invalid uuid: {text}"
  | unsupportedChain code => s!"invalid chain: {code.toNat}"
  | unsupportedAction action chain =>
    s!"action {action} is not available on chain {chain.toNat}"
  | invalidBase64 reason => s!"invalid base64: {reason}"

end OperationError

end Custody
