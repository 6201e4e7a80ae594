import Custody.Network

/-! # Errors of transaction, packet, message and node work

Each constructor is one kind of failure a host may want to tell apart; the texts it carries say
what in particular went wrong. `Error.message` is the only place that words a failure as a whole.
-/

namespace Custody

inductive Error where
  | unsupportedChain (id : UInt8)
  | invalidPrivateKey (reason : String)
  | invalidPublicKey (reason : String)
  | invalidAddress (reason : String)
  | invalidScript (reason : String)
  | invalidSequence (sequence : UInt32)
  | invalidInput (reason : String)
  | mixedInputAddress (expected found : String)
  | insufficientMain (input output : UInt64)
  | insufficientFee (required available : UInt64)
  | payloadTooLarge (size limit : Nat)
  | estimationExceeded (actual estimate : Nat)
  | weightExceeded (weight limit : Nat)
  | sanity (reason : String)
  | nonStandard (reason : String)
  | build (reason : String)
  | packet (reason : String)
  | packetRoundTrip (reason : String)
  | missingPartialSignature (input : Nat)
  | invalidSignature (reason : String)
  | signatureMismatch (reason : String)
  | signing (reason : String)
  | rpc (reason : String)
deriving DecidableEq, Repr

namespace Error

def message : Error → String
  | unsupportedChain id => s!"unsupported chain: {id.toNat}"
  | invalidPrivateKey reason => s!"invalid private key: {reason}"
  | invalidPublicKey reason => s!"invalid public key: {reason}"
  | invalidAddress reason => s!"invalid address: {reason}"
  | invalidScript reason => s!"unrecognized script shape: {reason}"
  | invalidSequence sequence => s!"invalid sequence: {sequence.toNat}"
  | invalidInput reason => s!"invalid input: {reason}"
  | mixedInputAddress expected found => s!"mixed input address: {expected} {found}"
  | insufficientMain input output =>
    s!"insufficient main: input {input.toNat} output {output.toNat}"
  | insufficientFee required available =>
    s!"insufficient fee: required {required.toNat} available {available.toNat}"
  | payloadTooLarge size limit => s!"payload too large: {size} > {limit}"
  | estimationExceeded actual estimate =>
    s!"transaction too large: serialized {actual} bytes exceeds estimate {estimate}"
  | weightExceeded weight limit => s!"transaction too large: weight {weight} exceeds {limit}"
  | sanity reason => s!"transaction sanity check failed: {reason}"
  | nonStandard reason => s!"transaction not standard: {reason}"
  | build reason => s!"transaction build error: {reason}"
  | packet reason => s!"psbt error: {reason}"
  | packetRoundTrip reason => s!"psbt round trip mismatch: {reason}"
  | missingPartialSignature input => s!"missing partial signature for input {input}"
  | invalidSignature reason => s!"invalid signature: {reason}"
  | signatureMismatch reason => s!"signature verification failed: {reason}"
  | signing reason => s!"signing error: {reason}"
  | rpc reason => s!"rpc error: {reason}"

/-- Whether a failure reports missing funds, so that the host can add inputs and try again. -/
def isInsufficient : Error → Bool
  | insufficientMain .. | insufficientFee .. => true
  | _ => false

/-- The missing amount; zero for a failure that is not about funds. -/
def shortfall : Error → UInt64
  | insufficientMain input output => if input < output then output - input else 0
  | insufficientFee required available => if available < required then required - available else 0
  | _ => 0

end Error

def Network.ofChainId (id : UInt8) : Except Error Network :=
  match ofChainId? id with
  | some network => .ok network
  | none => .error (.unsupportedChain id)

end Custody
