import Custody.Hash.Ripemd160
import Custody.Packet.Codec
import Custody.Packet.Tree
import Custody.Secp256k1.Signature

/-! # Fields of the standard

The standard for packets (BIP 174, with BIP 371 for taproot) gives a form to the entries of some key
types. A `Rule` reads the data behind the type of a key and the value: it fails unless both are in
form, and gives them back as the standard writes them, with what orders entries of the type.
Entries of other types are carried along.
-/

namespace Custody.Packet

/-- What the standard makes of a key's data and a value. -/
structure Content where
  /-- Orders the contents of a key type. -/
  order : List Bytes
  data : Bytes
  value : Bytes

/-- How the entries of a key type are read. -/
abbrev Rule := Bytes → Bytes → Option Content

namespace Field

def keep (check : Bytes → Bool) (bytes : Bytes) : Option Bytes :=
  if check bytes then some bytes else none

/-- Keeps a string of a given length. -/
def sized (length : Nat) : Bytes → Option Bytes :=
  keep (·.length = length)

def transaction : Bytes → Option Bytes :=
  keep fun bytes => (Transaction.ofBytes? bytes).isSome

def output : Bytes → Option Bytes :=
  keep fun bytes => (TxOut.ofBytes? bytes).isSome

def witness : Bytes → Option Bytes :=
  keep fun bytes =>
    match TxIn.decodeWitness? bytes with
    | some (_, []) => true
    | _ => false

/-- A public key, written in 33 bytes. -/
def publicKey (bytes : Bytes) : Option Bytes :=
  (Secp256k1.Point.decode? bytes).map Secp256k1.Point.compress

/-- The first coordinate of a public key. -/
def halfKey : Bytes → Option Bytes :=
  keep fun bytes => (Secp256k1.Point.decompress? (2 :: bytes)).isSome

/-- A key's fingerprint and the path of its derivation. -/
def source : Bytes → Option Bytes :=
  keep fun bytes => 4 ≤ bytes.length && bytes.length % 4 = 0

def sighashTypes : List UInt8 := [0x01, 0x02, 0x03, 0x81, 0x82, 0x83]

/-- A DER signature with its sighash type. -/
def signature (bytes : Bytes) : Option Bytes :=
  match bytes.getLast? with
  | none => none
  | some sighashType =>
    if sighashTypes.contains sighashType then
      (Secp256k1.Signature.ofDer? bytes.dropLast).map (·.der ++ [sighashType])
    else none

/-- A signature of 64 bytes, with its sighash type unless that is zero. -/
def schnorr (bytes : Bytes) : Option Bytes :=
  if bytes.length = 64 then some bytes
  else if bytes.length = 65 then
    let sighashType := bytes.getLast?.getD 0
    if sighashType = 0 then some bytes.dropLast
    else keep (fun _ => sighashTypes.contains sighashType) bytes
  else none

/-- A script with its version. -/
def leaf : Bytes → Option Bytes :=
  keep fun bytes =>
    match bytes.getLast? with
    | some version => Leaf.isVersion version
    | none => false

/-- A counted list of hashes, then a key's source. -/
def leafSource : Bytes → Option Bytes :=
  keep fun bytes =>
    match readCounted? (Bytes.split? 32) bytes with
    | some (_, rest) => (source rest).isSome
    | none => false

/-- The leaves of a taproot tree, which are written in their own order. -/
def tree (bytes : Bytes) : Option Bytes :=
  (Subtree.ofBytes? bytes).map Subtree.encode

/-- A value under a key without data. -/
def single (read : Bytes → Option Bytes) : Rule := fun data value =>
  if data.isEmpty then (read value).map (⟨[], [], ·⟩) else none

/-- A value under a key whose data has a form too. -/
def keyed (readData readValue : Bytes → Option Bytes) : Rule := fun data value => do
  let data ← readData data
  let value ← readValue value
  return ⟨[data], data, value⟩

/-- A signature by a public key: of 33 bytes, or of 65 bytes with tag 4, which come first. -/
def signedBy : Rule := fun data value => do
  let point ← Secp256k1.Point.decode? data
  if data.length ≠ 33 && data.head? ≠ some 4 then none
  else
    let value ← signature value
    let compressed : UInt8 := if data.length = 33 then 1 else 0
    return ⟨[compressed :: point.compress], data, value⟩

/-- A value under its own hash. -/
def preimage (hash : Bytes → Bytes) : Rule := fun data value =>
  if data = hash value then some ⟨[data], data, value⟩ else none

/-- A taproot signature under a key's first coordinate and the hash of a leaf. -/
def leafSignature : Rule :=
  keyed (fun data => do
    let (key, hash) ← Bytes.split? 32 data
    let key ← halfKey key
    let hash ← sized 32 hash
    return key ++ hash) schnorr

/-- A leaf under the block that proves it: version and parity, key, and the hashes on the way to the
root. Leaves of the first version come first. -/
def provenLeaf : Rule := fun data value => do
  let head ← data.head?
  let (key, path) ← Bytes.split? 32 data.tail
  let version := head &&& 0xFE
  let value ← leaf value
  if Leaf.isVersion version && (halfKey key).isSome && path.length % 32 = 0
      && path.length / 32 ≤ Leaf.maxDepth then
    let later : UInt8 := if version = 0xC0 then 0 else 1
    return ⟨[later :: data], data, value⟩
  else none

/-- First bytes of extended keys of the main network. -/
def mainKey : Bytes := [0x04, 0x88, 0xB2, 0x1E]

def testKey : Bytes := [0x04, 0x35, 0x87, 0xCF]

/-- The source of an extended key: network, depth, fingerprint of the parent, number, chain code and
public key. Keys are ordered by their public keys before their chain codes. -/
def extendedKey : Rule := fun data value => do
  let (network, rest) ← Bytes.split? 4 data
  let (place, rest) ← Bytes.split? 9 rest
  let (chainCode, key) ← Bytes.split? 32 rest
  let key ← keep (fun bytes => (Secp256k1.Point.decompress? bytes).isSome) key
  let value ← source value
  let test : UInt8 := if network = mainKey then 0 else 1
  if network = mainKey || network = testKey then
    return ⟨[test :: (place ++ key ++ chainCode)], data, value⟩
  else none

/-- The most bytes of an owner's own data in a key. -/
def maxOwnData : Nat := 1024

/-- An entry that belongs to an owner: a sized prefix, a subtype and the owner's own data. -/
def proprietary : Rule := fun data value => do
  let (owner, rest) ← CompactSize.readSized? data
  let (subtype, own) ← Bytes.split? 1 rest
  if own.length ≤ maxOwnData then return ⟨[owner, subtype, own], data, value⟩ else none

/-- The rules of the global map without its transaction. The only version is zero. -/
def globalRule? : UInt8 → Option Rule
  | 0x00 => some fun _ _ => none
  | 0x01 => some extendedKey
  | 0xFB => some (single (keep (· = [0, 0, 0, 0])))
  | 0xFC => some proprietary
  | _ => none

def inputRule? : UInt8 → Option Rule
  | 0x00 => some (single transaction)
  | 0x01 => some (single output)
  | 0x02 => some signedBy
  | 0x03 => some (single (sized 4))
  | 0x04 => some (single some)
  | 0x05 => some (single some)
  | 0x06 => some (keyed publicKey source)
  | 0x07 => some (single some)
  | 0x08 => some (single witness)
  | 0x0A => some (preimage Ripemd160.hash)
  | 0x0B => some (preimage Sha256.hash)
  | 0x0C => some (preimage Ripemd160.hash160)
  | 0x0D => some (preimage Sha256.doubleHash)
  | 0x13 => some (single schnorr)
  | 0x14 => some leafSignature
  | 0x15 => some provenLeaf
  | 0x16 => some (keyed halfKey leafSource)
  | 0x17 => some (single halfKey)
  | 0x18 => some (single (sized 32))
  | 0xFC => some proprietary
  | _ => none

def outputRule? : UInt8 → Option Rule
  | 0x00 => some (single some)
  | 0x01 => some (single some)
  | 0x02 => some (keyed publicKey source)
  | 0x05 => some (single halfKey)
  | 0x06 => some (single tree)
  | 0x07 => some (keyed halfKey leafSource)
  | 0xFC => some proprietary
  | _ => none

end Field

end Custody.Packet
