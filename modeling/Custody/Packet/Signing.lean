import Custody.Packet.Digest
import Custody.Packet.Transport
import Custody.Signing

/-! # Signing packets

A party signs every input of a packet and leaves its signatures under its compressed public key.
Signing stops at the first input that has no digest; signatures made before it stay.
-/

namespace Custody.Packet

open Secp256k1

/-- Signs the input at `index` and the `count` inputs in all from there. Returns the packet that is
left and what stopped the signing, if anything did. -/
def signFrom (key : SecretKey) (publicKey : Bytes) : Nat → Nat → Packet → Packet × Except Error Unit
  | 0, _, packet => (packet, .ok ())
  | count + 1, index, packet =>
    match packet.sighash index with
    | .error error => (packet, .error error)
    | .ok digest =>
      signFrom key publicKey count (index + 1)
        (packet.modifyInput index (·.sign publicKey (signDigest digest key)))

/-- Signs every input. Returns the packet that is left and whether all inputs were signed. -/
def sign (packet : Packet) (key : SecretKey) : Packet × Except Error Unit :=
  signFrom key key.publicKey.bytes packet.inputs.length 0 packet

def verifyInput (packet : Packet) (key : PublicKey) (index : Nat) : Except Error Unit := do
  match packet.partialSignature? index key.bytes with
  | none => throw (.missingPartialSignature index)
  | some signature =>
    let digest ← packet.sighash index
    verifySignature key digest signature

/-- Verifies the signatures by a key on all inputs, of which there must be one. -/
def verifySignatures (packet : Packet) (key : PublicKey) : Except Error Unit := do
  if packet.inputs.isEmpty then throw Fault.noInputs.toError
  (List.range packet.inputs.length).forM (packet.verifyInput key)

/-- Whether a key has signed every input. -/
def isSignedBy (packet : Packet) (key : PublicKey) : Bool :=
  (packet.verifySignatures key).isOk

/-- Reads a packet, signs every input and writes the packet as hexadecimal text. -/
def signText (raw privateKey : String) : Except Error String := do
  let packet ← (decode (Bytes.ofText raw)).mapError Fault.toError
  let key ← parsePrivateKey privateKey
  let (signed, outcome) := packet.sign key
  outcome
  signed.toHex

/-- Whether the packet that a hexadecimal text spells is signed by the key that another text
spells. -/
def isTextSignedBy (raw publicKey : String) : Bool :=
  match Hex.decode raw with
  | .error _ => false
  | .ok bytes =>
    match parse bytes, parsePublicKey publicKey with
    | .ok packet, .ok key => packet.isSignedBy key
    | _, _ => false

end Custody.Packet
