import Custody.Error
import Custody.KeyMap
import Custody.Transaction.Codec

/-! # Packets

A packet carries an unsigned transaction between the parties that sign it, with a map of fields for
each input and output. Input fields that signing needs are typed; every other entry is carried
along unread.
-/

namespace Custody

/-- What is known of one input. -/
structure InputFields where
  /-- The output that the input spends. -/
  witnessUtxo : Option TxOut := none
  /-- The script that a signature commits to. -/
  witnessScript : Option Script := none
  sighashType : Option UInt32 := none
  /-- Signatures by public key. -/
  partialSignatures : KeyMap := KeyMap.empty
  /-- Entries that are carried along, by whole key. -/
  unknown : KeyMap := KeyMap.empty
deriving DecidableEq, Inhabited

/-- Adds a signature, over any earlier one by the same key. -/
def InputFields.sign (fields : InputFields) (publicKey signature : Bytes) : InputFields :=
  { fields with partialSignatures := fields.partialSignatures.insert publicKey signature }

/-- An unsigned transaction with what its signers need to know. -/
structure Packet where
  unsignedTx : Transaction
  /-- Entries about the whole packet, other than the transaction. -/
  globals : KeyMap
  inputs : List InputFields
  outputs : List KeyMap
deriving DecidableEq

namespace Packet

/-- Why bytes are no packet, or a packet lacks what is asked of it. -/
inductive Fault where
  | magic
  | entry
  | duplicateKey (key : Bytes)
  | noTransaction
  | transaction
  | signedInput (input : Nat)
  | witnessUtxo (input : Nat)
  | signatureKey (input : Nat)
  | emptySignature (input : Nat)
  | sighashSize (input bytes : Nat)
  | keyData (input : Nat) (keyType : UInt8)
  | trailing (bytes : Nat)
  | notText
  | notDigits
  | inputMaps (maps inputs : Nat)
  | outputMaps (maps outputs : Nat)
  | scriptWithoutUtxo (input : Nat)
  | outOfRange (input : Nat)
  | noWitnessUtxo (input : Nat)
  | noWitnessScript (input : Nat)
  | noInputs
deriving DecidableEq

def Fault.message : Fault → String
  | .magic => "missing psbt magic"
  | .entry => "invalid map entry: no length and as many bytes"
  | .duplicateKey key => s!"duplicate key {Hex.encode key}"
  | .noTransaction => "missing unsigned transaction"
  | .transaction => "invalid unsigned transaction: not the wire form of one"
  | .signedInput input =>
    s!"unsigned transaction input {input} carries a signature script or witness"
  | .witnessUtxo input => s!"input {input} invalid witness utxo: not the wire form of an output"
  | .signatureKey input => s!"input {input} invalid partial sig key: malformed public key"
  | .emptySignature input => s!"input {input} empty partial signature"
  | .sighashSize input bytes => s!"input {input} sighash type is {bytes} bytes"
  | .keyData input keyType => s!"input {input} key type 0x{Hex.encode [keyType]} carries key data"
  | .trailing bytes => s!"{bytes} trailing bytes after packet"
  | .notText => "packet is neither binary nor text"
  | .notDigits => "packet is neither hex nor base64: a character or the length is wrong"
  | .inputMaps maps inputs => s!"{maps} input maps for {inputs} inputs"
  | .outputMaps maps outputs => s!"{maps} output maps for {outputs} outputs"
  | .scriptWithoutUtxo input => s!"input {input} has a witness script without a witness utxo"
  | .outOfRange input => s!"input {input} out of range"
  | .noWitnessUtxo input => s!"input {input} missing witness utxo"
  | .noWitnessScript input => s!"input {input} missing witness script"
  | .noInputs => "packet has no inputs"

def Fault.toError (fault : Fault) : Error :=
  .packet fault.message

/-- Checks that no input is signed; `index` inputs came before. -/
def checkUnsignedInputs (index : Nat) : List TxIn → Except Fault Unit
  | [] => .ok ()
  | input :: rest =>
    if input.signatureScript.isEmpty && input.witness.isEmpty then
      checkUnsignedInputs (index + 1) rest
    else .error (.signedInput index)

def checkUnsigned (tx : Transaction) : Except Fault Unit :=
  checkUnsignedInputs 0 tx.inputs

/-- A packet around a transaction, with empty maps. -/
def ofTransaction (tx : Transaction) : Packet where
  unsignedTx := tx
  globals := KeyMap.empty
  inputs := tx.inputs.map fun _ => {}
  outputs := tx.outputs.map fun _ => KeyMap.empty

/-- A packet around an unsigned transaction, with empty maps. -/
def new (tx : Transaction) : Except Fault Packet := do
  checkUnsigned tx
  return ofTransaction tx

/-- The identifier of the transaction, as it is shown. -/
def hash (packet : Packet) : String :=
  packet.unsignedTx.txid.display

def inputCount (packet : Packet) : Nat :=
  packet.inputs.length

/-- Sum of the amounts that the inputs spend, if all are known. -/
def inputTotal? (packet : Packet) : Option Nat :=
  (packet.inputs.mapM InputFields.witnessUtxo).map fun utxos =>
    utxos.foldr (fun utxo total => utxo.value.toNat + total) 0

def outputTotal (packet : Packet) : Nat :=
  packet.unsignedTx.outputs.foldr (fun output total => output.value.toNat + total) 0

/-- The fee: known if every input says what it spends, both sums are amounts, and no more is paid
than spent. -/
def fee? (packet : Packet) : Option UInt64 :=
  match packet.inputTotal? with
  | none => none
  | some spent =>
    if spent < UInt64.size && packet.outputTotal ≤ spent then
      some (UInt64.ofNat (spent - packet.outputTotal))
    else none

def partialSignature? (packet : Packet) (index : Nat) (publicKey : Bytes) : Option Bytes :=
  packet.inputs[index]?.bind fun fields => fields.partialSignatures.get? publicKey

def fields (packet : Packet) (index : Nat) : Except Fault InputFields :=
  match packet.inputs[index]? with
  | some fields => .ok fields
  | none => .error (.outOfRange index)

def modifyInput (packet : Packet) (index : Nat) (change : InputFields → InputFields) : Packet :=
  { packet with inputs := packet.inputs.modify index change }

/-- Records a signature on an input, over any earlier one by the same key. -/
def insertSignature (packet : Packet) (index : Nat) (publicKey signature : Bytes) :
    Except Fault Packet := do
  let _ ← packet.fields index
  return packet.modifyInput index (·.sign publicKey signature)

/-- Checks that no input has a script without the output it spends; `index` inputs came before. -/
def checkScripts (index : Nat) : List InputFields → Except Fault Unit
  | [] => .ok ()
  | fields :: rest =>
    if fields.witnessUtxo.isNone && fields.witnessScript.isSome then
      .error (.scriptWithoutUtxo index)
    else checkScripts (index + 1) rest

/-- Checks that the maps of a packet fit its transaction. -/
def checkSanity (packet : Packet) : Except Fault Unit := do
  checkUnsigned packet.unsignedTx
  let tx := packet.unsignedTx
  if packet.inputs.length ≠ tx.inputs.length then
    throw (.inputMaps packet.inputs.length tx.inputs.length)
  if packet.outputs.length ≠ tx.outputs.length then
    throw (.outputMaps packet.outputs.length tx.outputs.length)
  checkScripts 0 packet.inputs

end Packet

end Custody
