import Custody.Transaction

/-! # The wire form of transactions

The form without witnesses lists version, inputs, outputs and lock time. The form with witnesses
has a zero count and a flag in front of the inputs, and one witness for each input behind the
outputs. It is the form of a transaction that has a witness, and also of one without inputs, whose
plain form could not be told from it. Readers accept the form that the writer chooses, and no
other.
-/

namespace Custody

def readUInt32? (bytes : Bytes) : Option (UInt32 × Bytes) :=
  (Bytes.split? 4 bytes).map fun (digits, rest) => (UInt32.ofNat (Bytes.toNatLE digits), rest)

def readUInt64? (bytes : Bytes) : Option (UInt64 × Bytes) :=
  (Bytes.split? 8 bytes).map fun (digits, rest) => (UInt64.ofNat (Bytes.toNatLE digits), rest)

/-- Reads `count` items, in front of the items read so far (reversed). -/
def readMany? {α : Type} (read? : Bytes → Option (α × Bytes)) :
    Nat → List α → Bytes → Option (List α × Bytes)
  | 0, done, bytes => some (done.reverse, bytes)
  | count + 1, done, bytes =>
    match read? bytes with
    | none => none
    | some (item, rest) => readMany? read? count (item :: done) rest

/-- Reads a count and that many items. -/
def readCounted? {α : Type} (read? : Bytes → Option (α × Bytes)) (bytes : Bytes) :
    Option (List α × Bytes) :=
  (CompactSize.decode? bytes).bind fun (count, rest) => readMany? read? count [] rest

def writeCounted {α : Type} (write : α → Bytes) (items : List α) : Bytes :=
  CompactSize.encode items.length ++ items.flatMap write

namespace TxIn

/-- The wire form of an input, without its witness. -/
def encode (input : TxIn) : Bytes :=
  input.previous.txid.bytes ++ Bytes.ofNatLE 4 input.previous.vout.toNat
    ++ CompactSize.sized input.signatureScript ++ Bytes.ofNatLE 4 input.sequence.toNat

def decode? (bytes : Bytes) : Option (TxIn × Bytes) :=
  match split : Bytes.split? 32 bytes with
  | none => none
  | some (txid, rest) => do
    let (vout, rest) ← readUInt32? rest
    let (script, rest) ← CompactSize.readSized? rest
    let (sequence, rest) ← readUInt32? rest
    let txid : Txid := ⟨txid, (Bytes.split?_eq_some_iff.mp split).1⟩
    return (⟨⟨txid, vout⟩, script, sequence, []⟩, rest)

def encodeWitness (input : TxIn) : Bytes :=
  writeCounted CompactSize.sized input.witness

/-- The most bytes that the items of one witness take. -/
def maxWitness : Nat := 4000000

def decodeWitness? (bytes : Bytes) : Option (List Bytes × Bytes) :=
  match CompactSize.decode? bytes with
  | none => none
  | some (count, rest) =>
    if maxWitness < count then none
    else
      match readMany? CompactSize.readSized? count [] rest with
      | none => none
      | some (items, rest) =>
        if items.foldr (fun item total => CompactSize.size item.length + item.length + total) 0
            ≤ maxWitness then
          some (items, rest)
        else none

end TxIn

namespace TxOut

def encode (output : TxOut) : Bytes :=
  Bytes.ofNatLE 8 output.value.toNat ++ CompactSize.sized output.script

def decode? (bytes : Bytes) : Option (TxOut × Bytes) := do
  let (value, rest) ← readUInt64? bytes
  let (script, rest) ← CompactSize.readSized? rest
  return (⟨value, script⟩, rest)

def ofBytes? (bytes : Bytes) : Option TxOut :=
  match decode? bytes with
  | some (output, []) => some output
  | _ => none

end TxOut

namespace Transaction

def encodeVersion (tx : Transaction) : Bytes :=
  Bytes.ofNatLE 4 tx.version.toUInt32.toNat

/-- The wire form without witnesses. -/
def encodePlain (tx : Transaction) : Bytes :=
  tx.encodeVersion ++ writeCounted TxIn.encode tx.inputs ++ writeCounted TxOut.encode tx.outputs
    ++ Bytes.ofNatLE 4 tx.lockTime.toNat

def encodeWithWitness (tx : Transaction) : Bytes :=
  tx.encodeVersion ++ [0, 1] ++ writeCounted TxIn.encode tx.inputs
    ++ writeCounted TxOut.encode tx.outputs ++ tx.inputs.flatMap TxIn.encodeWitness
    ++ Bytes.ofNatLE 4 tx.lockTime.toNat

def hasWitness (tx : Transaction) : Bool :=
  tx.inputs.any (!·.witness.isEmpty)

def encode (tx : Transaction) : Bytes :=
  if tx.hasWitness || tx.inputs.isEmpty then tx.encodeWithWitness else tx.encodePlain

/-- Reads a witness for each input. -/
def readWitnesses? : List TxIn → Bytes → Option (List TxIn × Bytes)
  | [], bytes => some ([], bytes)
  | input :: inputs, bytes => do
    let (witness, rest) ← TxIn.decodeWitness? bytes
    let (inputs, rest) ← readWitnesses? inputs rest
    return ({ input with witness } :: inputs, rest)

/-- Reads outputs and lock time behind the inputs of the plain form. -/
def decodePlainTail? (version : Int32) (inputs : List TxIn) (bytes : Bytes) :
    Option (Transaction × Bytes) := do
  let (outputs, rest) ← readCounted? TxOut.decode? bytes
  let (lockTime, rest) ← readUInt32? rest
  return (⟨version, lockTime, inputs, outputs⟩, rest)

/-- Reads the form with witnesses behind the flag. -/
def decodeWitnessTail? (version : Int32) (bytes : Bytes) : Option (Transaction × Bytes) := do
  let (inputs, rest) ← readCounted? TxIn.decode? bytes
  let (outputs, rest) ← readCounted? TxOut.decode? rest
  let (inputs, rest) ← readWitnesses? inputs rest
  if !inputs.isEmpty && inputs.all (·.witness.isEmpty) then none
  else
    let (lockTime, rest) ← readUInt32? rest
    return (⟨version, lockTime, inputs, outputs⟩, rest)

def decode? (bytes : Bytes) : Option (Transaction × Bytes) := do
  let (version, rest) ← readUInt32? bytes
  let (inputs, rest) ← readCounted? TxIn.decode? rest
  if inputs.isEmpty then
    match rest with
    | 1 :: rest => decodeWitnessTail? version.toInt32 rest
    | _ => none
  else decodePlainTail? version.toInt32 inputs rest

/-- Reads a transaction that fills a byte string. -/
def ofBytes? (bytes : Bytes) : Option Transaction :=
  match decode? bytes with
  | some (tx, []) => some tx
  | _ => none

/-- The identifier: the double hash of the form without witnesses. -/
def txid (tx : Transaction) : Txid :=
  ⟨Sha256.doubleHash tx.encodePlain, Sha256.length_doubleHash _⟩

/-- The number of bytes without witnesses. -/
def baseSize (tx : Transaction) : Nat :=
  tx.encodePlain.length

/-- The weight: a byte outside the witnesses counts four, one in the witnesses or their marking
one. -/
def weight (tx : Transaction) : Nat :=
  3 * tx.baseSize + tx.encode.length

end Transaction

end Custody
