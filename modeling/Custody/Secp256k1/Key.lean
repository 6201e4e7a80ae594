import Custody.Secp256k1.Point
import Custody.Text.Hex

/-! # Keys of secp256k1

A secret key is a scalar between 1 and the group order. A public key is a point that its own
33-byte encoding gives back, so equal encodings mean equal keys, and whatever holds a public key
can write it and read it again.
-/

namespace Custody.Secp256k1

/-- A scalar that can sign. -/
structure SecretKey where
  scalar : Nat
  positive : 0 < scalar
  below : scalar < order

/-- A point that can verify. -/
structure PublicKey where
  point : Point
  decodes : Point.decompress? point.compress = some point
deriving DecidableEq

namespace PublicKey

/-- A point as a key, if its encoding gives it back. -/
def ofPoint? (point : Point) : Option PublicKey :=
  if decodes : Point.decompress? point.compress = some point then some ⟨point, decodes⟩ else none

def generator : PublicKey :=
  ⟨Point.generator, by decide +kernel⟩

/-- The encoding in 33 bytes. -/
def bytes (key : PublicKey) : Bytes :=
  key.point.compress

def ofBytes? (bytes : Bytes) : Option PublicKey :=
  (Point.decompress? bytes).bind ofPoint?

@[simp] theorem length_bytes (key : PublicKey) : key.bytes.length = 33 := by
  simp [bytes, Point.compress]

@[simp] theorem ofBytes?_bytes (key : PublicKey) : ofBytes? key.bytes = some key := by
  simp [ofBytes?, bytes, key.decodes, ofPoint?]

theorem bytes_inj {a b : PublicKey} : a.bytes = b.bytes ↔ a = b := by
  constructor
  · intro same
    have read := congrArg ofBytes? same
    simpa using read
  · rintro rfl; rfl

end PublicKey

namespace SecretKey

/-- The key that 32 bytes hold, most significant first. -/
def ofBytes? (bytes : Bytes) : Option SecretKey :=
  let scalar := Bytes.toNatBE bytes
  if range : bytes.length = 32 ∧ 0 < scalar ∧ scalar < order then
    some ⟨scalar, range.2.1, range.2.2⟩
  else none

def bytes (key : SecretKey) : Bytes :=
  Bytes.ofNatBE 32 key.scalar

/-- The public key of a secret key: the multiple of the generator by the scalar. Such a multiple
is a point with an encoding; the last alternative only makes the function total. -/
def publicKey (key : SecretKey) : PublicKey :=
  match (Point.generator.toJacobian.mul key.scalar).toPoint? with
  | some point => (PublicKey.ofPoint? point).getD PublicKey.generator
  | none => PublicKey.generator

end SecretKey

/-- Why a text is not a key. -/
inductive KeyFault where
  | hex (fault : Hex.Fault)
  | secretKey
  | size (bytes : Nat)
  | publicKey
deriving DecidableEq

def KeyFault.message : KeyFault → String
  | .hex fault => "invalid hex: " ++ fault.message
  | .secretKey => "invalid secret key: malformed or out-of-range secret key"
  | .size bytes => s!"expected 33 compressed bytes, got {bytes}"
  | .publicKey => "malformed public key"

/-- Reads a secret key from 64 hexadecimal digits. -/
def SecretKey.parse (text : String) : Except KeyFault SecretKey :=
  match Hex.decode text with
  | .error fault => .error (.hex fault)
  | .ok bytes =>
    match ofBytes? bytes with
    | some key => .ok key
    | none => .error .secretKey

/-- Reads a public key from the hexadecimal digits of its 33-byte encoding. -/
def PublicKey.parse (text : String) : Except KeyFault PublicKey :=
  match Hex.decode text with
  | .error fault => .error (.hex fault)
  | .ok bytes =>
    if bytes.length ≠ 33 then .error (.size bytes.length)
    else
      match ofBytes? bytes with
      | some key => .ok key
      | none => .error .publicKey

end Custody.Secp256k1
