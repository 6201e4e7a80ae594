import Custody.Error
import Custody.Transaction.Codec

/-! # Relay policy

What nodes want of a transaction before they pass it on: a known version, a lock time that has
passed, a bounded weight, inputs that push data only, and outputs that are standard and worth
spending, with at most one that carries data.
-/

namespace Custody.Relay

def maxVersion : Nat := 2

def maxWeight : Nat := 400000

/-- The largest script of an input. -/
def maxSignatureScript : Nat := 1650

/-- Lock times below this are block heights, others are seconds. -/
def lockTimeThreshold : UInt32 := 500000000

/-- Why a transaction is not standard. -/
inductive Fault where
  | version (version : Int32)
  | notFinal
  | weight (weight : Nat)
  | scriptSize (input size : Nat)
  | notPushOnly (input : Nat)
  | outputScript (output : Nat) (script : Script)
  | dust (output : Nat) (value : UInt64)
  | nullData
deriving DecidableEq

def Fault.message : Fault → String
  | .version number =>
    s!"transaction version {number.toInt} is not in the valid range of 1-{maxVersion}"
  | .notFinal => "transaction is not finalized"
  | .weight total =>
    s!"weight of transaction {total} is larger than max allowed weight of {maxWeight}"
  | .scriptSize input size =>
    s!"input {input} signature script size {size} is larger than max allowed size "
      ++ toString maxSignatureScript
  | .notPushOnly input => s!"input {input} signature script is not push only"
  | .outputScript output script =>
    s!"output {output} has non-standard script {Hex.encode script}"
  | .dust output value => s!"output {output} payment of {value.toNat} is dust"
  | .nullData => "more than one transaction output in a nulldata script"

/-- Whether a transaction can be in a block of some height after some median time: its lock time is
zero, or has passed, or every input waives it. -/
def isFinalized (tx : Transaction) (height : UInt32) (medianTime : UInt64) : Bool :=
  let now := if tx.lockTime < lockTimeThreshold then height.toNat else medianTime.toNat
  tx.lockTime = 0 || tx.lockTime.toNat < now || tx.inputs.all (·.sequence = 0xFFFFFFFF)

/-- The least value worth spending: three times the bytes of the output and of an input that
spends it. -/
def dustLimit (output : TxOut) : Nat :=
  let spend := if output.script.isWitnessProgram then 26 else 107
  3 * (output.encode.length + 41 + spend)

/-- Checks the scripts of inputs, of which `index` came before. -/
def checkInputs (index : Nat) : List TxIn → Except Fault Unit
  | [] => .ok ()
  | input :: rest =>
    let size := input.signatureScript.length
    if maxSignatureScript < size then .error (.scriptSize index size)
    else if !input.signatureScript.isPushOnly then .error (.notPushOnly index)
    else checkInputs (index + 1) rest

/-- Checks outputs, of which `index` came before, and counts those that carry data. -/
def checkOutputs (index data : Nat) : List TxOut → Except Fault Nat
  | [] => .ok data
  | output :: rest =>
    if output.script.isNullData then checkOutputs (index + 1) (data + 1) rest
    else if output.script.template?.isNone then .error (.outputScript index output.script)
    else if output.value.toNat < dustLimit output then .error (.dust index output.value)
    else checkOutputs (index + 1) data rest

/-- Checks a transaction at a height and median time. -/
def find (tx : Transaction) (height : UInt32) (medianTime : UInt64) : Except Fault Unit := do
  if tx.version < 1 || Int32.ofNat maxVersion < tx.version then throw (.version tx.version)
  if !isFinalized tx height medianTime then throw .notFinal
  if maxWeight < tx.weight then throw (.weight tx.weight)
  checkInputs 0 tx.inputs
  let data ← checkOutputs 0 0 tx.outputs
  if 1 < data then throw .nullData

/-- Checks a transaction at a height and median time, with a failure that quotes the fault. -/
def check (tx : Transaction) (height : UInt32) (medianTime : UInt64) : Except Error Unit :=
  match find tx height medianTime with
  | .ok _ => .ok ()
  | .error fault => .error (.nonStandard fault.message)

end Custody.Relay
