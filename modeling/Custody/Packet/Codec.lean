import Custody.Packet
import Custody.Secp256k1.Key

/-! # The binary form of packets

A packet is a magic number, the global map, and a map for each input and output of the transaction
that the global map holds under the key `00`. A map is a sequence of keys and values, each after
its length, and an empty key at the end. Written maps list their keys in ascending order; maps are
read in any order, but no key twice.
-/

namespace Custody

namespace KeyMap

def encode (map : KeyMap) : Bytes :=
  (map.entries.flatMap fun (key, value) => CompactSize.sized key ++ CompactSize.sized value) ++ [0]

end KeyMap

namespace InputFields

/-- Key of the output that an input spends. -/
def utxoKey : UInt8 := 0x01

/-- First byte of the keys of signatures; the public key follows. -/
def signatureKey : UInt8 := 0x02

def sighashKey : UInt8 := 0x03

def scriptKey : UInt8 := 0x05

/-- Sets a key of one byte to a value that may be absent. -/
def putOptional (key : UInt8) (value? : Option Bytes) (map : KeyMap) : KeyMap :=
  match value? with
  | some value => map.insert [key] value
  | none => map

/-- The fields as a map: typed fields over what is carried along. -/
def toMap (fields : InputFields) : KeyMap :=
  let map := putOptional utxoKey (fields.witnessUtxo.map TxOut.encode) fields.unknown
  let map := fields.partialSignatures.entries.foldl
    (fun map (publicKey, signature) => map.insert (signatureKey :: publicKey) signature) map
  let map := putOptional sighashKey
    (fields.sighashType.map fun value => Bytes.ofNatLE 4 value.toNat) map
  putOptional scriptKey fields.witnessScript map

end InputFields

namespace Packet

/-- The bytes in front of every packet. -/
def magic : Bytes := [0x70, 0x73, 0x62, 0x74, 0xff]

def transactionKey : Bytes := [0x00]

def serialize (packet : Packet) : Bytes :=
  magic ++ (packet.globals.insert transactionKey packet.unsignedTx.encode).encode
    ++ packet.inputs.flatMap (·.toMap.encode) ++ packet.outputs.flatMap KeyMap.encode

/-- The most bytes that a key or value takes with its length. -/
def maxEntry : Nat := 4000000

/-- Reads a key or value. -/
def readItem? (bytes : Bytes) : Option (Bytes × Bytes) :=
  match CompactSize.readSized? bytes with
  | none => none
  | some (entry, rest) =>
    if CompactSize.size entry.length + entry.length ≤ maxEntry then some (entry, rest) else none

theorem length_of_readItem? {bytes entry rest : Bytes}
    (read : readItem? bytes = some (entry, rest)) : rest.length < bytes.length := by
  unfold readItem? at read
  split at read
  · simp at read
  · rename_i found
    simp only [Option.ite_none_right_eq_some, Option.some.injEq, Prod.mk.injEq] at read
    obtain ⟨_, rfl, rfl⟩ := read
    exact CompactSize.length_of_readSized? found

/-- Reads the rest of a map after the entries of `map`. -/
def readMap (map : KeyMap) (bytes : Bytes) : Except Fault (KeyMap × Bytes) :=
  match _keyRead : readItem? bytes with
  | none => .error .entry
  | some (key, afterKey) =>
    if key.isEmpty then .ok (map, afterKey)
    else
      match _valueRead : readItem? afterKey with
      | none => .error .entry
      | some (value, rest) =>
        if map.contains key then .error (.duplicateKey key)
        else readMap (map.insert key value) rest
termination_by bytes.length
decreasing_by
  exact Nat.lt_trans (length_of_readItem? (by assumption)) (length_of_readItem? (by assumption))

/-- Takes an entry of the map of input `index` into its fields. -/
def readField (index : Nat) (fields : InputFields) (entry : Bytes × Bytes) :
    Except Fault InputFields :=
  let (key, value) := entry
  match key with
  | [] => .ok { fields with unknown := fields.unknown.insert key value }
  | keyType :: data =>
    if keyType = InputFields.signatureKey then
      if (Secp256k1.Point.decode? data).isNone then .error (.signatureKey index)
      else if value.isEmpty then .error (.emptySignature index)
      else .ok (fields.sign data value)
    else if keyType = InputFields.utxoKey && data.isEmpty then
      match TxOut.ofBytes? value with
      | some utxo => .ok { fields with witnessUtxo := some utxo }
      | none => .error (.witnessUtxo index)
    else if keyType = InputFields.sighashKey && data.isEmpty then
      if value.length = 4 then
        .ok { fields with sighashType := some (UInt32.ofNat (Bytes.toNatLE value)) }
      else .error (.sighashSize index value.length)
    else if keyType = InputFields.scriptKey && data.isEmpty then
      .ok { fields with witnessScript := some value }
    else if keyType = InputFields.utxoKey || keyType = InputFields.sighashKey
        || keyType = InputFields.scriptKey then
      .error (.keyData index keyType)
    else .ok { fields with unknown := fields.unknown.insert key value }

/-- The fields of a map, taken in ascending order of its keys. -/
def readFields (index : Nat) (map : KeyMap) : Except Fault InputFields :=
  map.entries.foldlM (readField index) {}

/-- Reads the fields of `count` inputs, in front of those read so far (reversed). -/
def readInputs : Nat → List InputFields → Bytes → Except Fault (List InputFields × Bytes)
  | 0, done, bytes => .ok (done.reverse, bytes)
  | count + 1, done, bytes => do
    let (map, rest) ← readMap KeyMap.empty bytes
    let fields ← readFields done.length map
    readInputs count (fields :: done) rest

/-- Reads `count` maps, in front of those read so far (reversed). -/
def readMaps : Nat → List KeyMap → Bytes → Except Fault (List KeyMap × Bytes)
  | 0, done, bytes => .ok (done.reverse, bytes)
  | count + 1, done, bytes => do
    let (map, rest) ← readMap KeyMap.empty bytes
    readMaps count (map :: done) rest

/-- Takes the transaction out of the global map. -/
def takeTransaction (globals : KeyMap) : Except Fault (Transaction × KeyMap) := do
  match globals.get? transactionKey with
  | none => throw .noTransaction
  | some wire =>
    match Transaction.ofBytes? wire with
    | none => throw .transaction
    | some tx =>
      checkUnsigned tx
      return (tx, globals.erase transactionKey)

/-- Reads the maps behind the magic number. -/
def parseMaps (bytes : Bytes) : Except Fault Packet := do
  let (globals, rest) ← readMap KeyMap.empty bytes
  let (tx, globals) ← takeTransaction globals
  let (inputs, rest) ← readInputs tx.inputs.length [] rest
  let (outputs, rest) ← readMaps tx.outputs.length [] rest
  if !rest.isEmpty then throw (.trailing rest.length)
  return ⟨tx, globals, inputs, outputs⟩

def parse (bytes : Bytes) : Except Fault Packet :=
  if magic.isPrefixOf bytes then parseMaps (bytes.drop magic.length) else .error .magic

/-- The binary form of a packet, after a check that it is read back as the same bytes. -/
def marshal (packet : Packet) : Except Error Bytes :=
  let bytes := packet.serialize
  match parse bytes with
  | .error fault =>
    .error (.packetRoundTrip s!"serialized packet does not parse: {fault.toError.message}")
  | .ok reread =>
    if reread.serialize = bytes then .ok bytes
    else .error (.packetRoundTrip s!"packet {packet.hash} reserializes differently")

end Packet

end Custody
