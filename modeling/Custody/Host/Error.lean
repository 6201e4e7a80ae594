import Custody.Error
import Custody.Operation.Error

/-! # Errors as the host sees them

The host tells apart what its user can act on: a chain or key or address that is wrong, missing
funds, a transaction that cannot be built, a signature that cannot be made, and an operation that
cannot be used. The text of the cause is kept.
-/

namespace Custody

/-- A failure as the host sees it. -/
inductive HostError where
  | unsupportedChain (reason : String)
  | invalidKey (reason : String)
  | invalidAddress (reason : String)
  | insufficientFunds (required available shortfall : UInt64)
  | transactionFailed (reason : String)
  | signingFailed (reason : String)
  | invalidOperation (reason : String)
deriving DecidableEq, Repr

namespace HostError

def message : HostError → String
  | unsupportedChain reason => s!"Unsupported chain: {reason}"
  | invalidKey reason => s!"Invalid key: {reason}"
  | invalidAddress reason => s!"Invalid address: {reason}"
  | insufficientFunds required available shortfall =>
    s!"Insufficient funds: required {required.toNat} available {available.toNat} "
      ++ s!"shortfall {shortfall.toNat}"
  | transactionFailed reason => s!"Transaction build failed: {reason}"
  | signingFailed reason => s!"Signing failed: {reason}"
  | invalidOperation reason => s!"Invalid operation: {reason}"

end HostError

/-- A failure of transaction or message work as the host sees it. -/
def Error.toHost (error : Error) : HostError :=
  match error with
  | .unsupportedChain _ => .unsupportedChain error.message
  | .invalidPrivateKey _ | .invalidPublicKey _ => .invalidKey error.message
  | .invalidAddress _ => .invalidAddress error.message
  | .invalidSignature _ | .signatureMismatch _ | .signing _ | .missingPartialSignature _ =>
    .signingFailed error.message
  | .insufficientMain input output => .insufficientFunds output input error.shortfall
  | .insufficientFee required available => .insufficientFunds required available error.shortfall
  | _ => .transactionFailed error.message

def OperationError.toHost (error : OperationError) : HostError :=
  match error with
  | .unsupportedChain _ => .unsupportedChain error.message
  | _ => .invalidOperation error.message

end Custody
