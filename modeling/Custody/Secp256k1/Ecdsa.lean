import Custody.Hash.Sha256
import Custody.Secp256k1.Key
import Custody.Secp256k1.Signature

/-! # Signing and verifying digests

Nonces are derived from the key and the digest by the keyed hash (RFC 6979), so signing is a
function of the two. Signatures come out normalized.
-/

namespace Custody.Secp256k1

/-- The state of a nonce generator. -/
structure Nonces where
  key : Bytes
  value : Bytes

namespace Nonces

/-- Takes a separating byte and data into the state. -/
def mix (n : Nonces) (separator : UInt8) (data : Bytes) : Nonces :=
  let key := Sha256.keyed n.key (n.value ++ separator :: data)
  ⟨key, Sha256.keyed key n.value⟩

/-- The generator seeded with some bytes. -/
def seeded (seed : Bytes) : Nonces :=
  ((⟨List.replicate 32 0, List.replicate 32 1⟩ : Nonces).mix 0 seed).mix 1 seed

/-- The next 32 bytes of output, as a number, and the state after a refusal of it. -/
def next (n : Nonces) : Nat × Nonces :=
  let value := Sha256.keyed n.key n.value
  (Bytes.toNatBE value, (⟨n.key, value⟩ : Nonces).mix 0 [])

end Nonces

/-- The number that a digest stands for in signatures. -/
def digestScalar (digest : Bytes) : Nat :=
  Bytes.toNatBE digest % order

/-- The signature of a digest with a given nonce, unless the nonce is out of range or one of the
scalars comes out zero. -/
def signWith? (key : SecretKey) (digest : Bytes) (nonce : Nat) : Option Signature :=
  if nonce = 0 || order ≤ nonce then none
  else
    match (Point.generator.toJacobian.mul nonce).toPoint? with
    | none => none
    | some point =>
      let r := point.x % order
      let s := invMod order nonce * (digestScalar digest + r * key.scalar) % order
      if r = 0 || s = 0 then none
      else
        some (Signature.normalize ⟨r, s, Nat.mod_lt _ order_pos, Nat.mod_lt _ order_pos⟩)

/-- The signature with the first usable nonce among the next `attempts`. -/
def signFrom (key : SecretKey) (digest : Bytes) : Nat → Nonces → Signature
  | 0, _ => ⟨1, 1, one_lt_order, one_lt_order⟩
  | attempts + 1, nonces =>
    let (nonce, later) := nonces.next
    match signWith? key digest nonce with
    | some signature => signature
    | none => signFrom key digest attempts later

/-- The signature of a digest. A nonce is refused with probability below `2⁻¹²⁷`, so the bound on
attempts is never met. -/
def sign (key : SecretKey) (digest : Bytes) : Signature :=
  signFrom key digest 128 (Nonces.seeded (key.bytes ++ Bytes.ofNatBE 32 (digestScalar digest)))

def verify (key : PublicKey) (digest : Bytes) (signature : Signature) : Bool :=
  if signature.r = 0 || signature.s = 0 then false
  else
    let w := invMod order signature.s
    match combine (digestScalar digest * w % order) (signature.r * w % order) key.point with
    | some point => point.x % order = signature.r
    | none => false

end Custody.Secp256k1
