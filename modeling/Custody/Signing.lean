import Custody.Error
import Custody.Secp256k1.Ecdsa

/-! # Keys and signatures as texts and bytes

Keys come from the host as hexadecimal text and signatures as DER bytes, perhaps with a sighash type
behind them.
-/

namespace Custody

open Secp256k1

def parsePrivateKey (text : String) : Except Error SecretKey :=
  match SecretKey.parse text with
  | .ok key => .ok key
  | .error fault => .error (.invalidPrivateKey fault.message)

def parsePublicKey (text : String) : Except Error PublicKey :=
  match PublicKey.parse text with
  | .ok key => .ok key
  | .error fault => .error (.invalidPublicKey fault.message)

def parseSignature (bytes : Bytes) : Except Error Signature :=
  match Signature.read? bytes with
  | some signature => .ok signature
  | none => .error (.invalidSignature "malformed DER: malformed signature")

/-- The signature of a digest as DER. -/
def signDigest (digest : Bytes) (key : SecretKey) : Bytes :=
  (sign key digest).der

def verifySignature (key : PublicKey) (digest signature : Bytes) : Except Error Unit := do
  if digest.length ≠ 32 then
    throw (.invalidSignature
      "invalid digest: message was not 32 bytes (do you need to hash?)")
  let parsed ← parseSignature signature
  if !verify key digest parsed then
    throw (.signatureMismatch s!"{Hex.encode key.bytes} over {Hex.encode digest}")

/-- Verifies a signature of a digest under a key given as text. -/
def verifySignatureText (publicKey : String) (digest signature : Bytes) : Except Error Unit := do
  let key ← parsePublicKey publicKey
  verifySignature key digest signature

end Custody
