import Custody.CompactSize
import Custody.Signing
import Custody.Text.Base64

/-! # Signed messages

The digest of a message covers the network's header and the message, each after its length, so no
two messages or networks share the bytes that are hashed. Owners approve and revoke by signing
texts of a fixed form.
-/

namespace Custody.Message

/-- The bytes whose double hash is signed for a message. -/
def preimage (message : String) (network : Network) : Bytes :=
  CompactSize.sized (Bytes.ofText network.params.messageHeader)
    ++ CompactSize.sized (Bytes.ofText message)

def digest (message : String) (network : Network) : Bytes :=
  Sha256.doubleHash (preimage message network)

/-- Signs a message; the signature is DER in base 64. -/
def sign (message privateKey : String) (network : Network) : Except Error String := do
  let key ← parsePrivateKey privateKey
  return Base64.encode (signDigest (digest message network) key)

def verify (publicKey message signature : String) (network : Network) : Except Error Unit :=
  match Base64.decode? signature with
  | none => .error (.invalidSignature "invalid base64: a character or the length is wrong")
  | some der => verifySignatureText publicKey (digest message network) der

/-- The text by which an owner approves an account at an address, or a transaction by its hash. -/
def approval (id tail : String) : String :=
  s!"APPROVE:{id}:{tail}"

/-- The text by which an owner revokes a transaction. -/
def revocation (id tail : String) : String :=
  s!"REVOKE:{id}:{tail}"

end Custody.Message
