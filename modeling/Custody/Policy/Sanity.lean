import Std.Data.HashSet
import Custody.Error
import Custody.Transaction.Codec

/-! # Consensus sanity

What every transaction must satisfy whatever the state of the chain: it spends and pays something,
is not too large, creates no more than all the coins there are, spends no output twice, and only a
transaction of mined coins names the null outpoint.
-/

namespace Custody.Sanity

/-- All the coins there are, in satoshi. -/
def maxSatoshi : Nat := 2100000000000000

/-- The largest size without witnesses. -/
def maxSize : Nat := 1000000

/-- Why a transaction is not sane. -/
inductive Fault where
  | noInputs
  | noOutputs
  | tooBig (size : Nat)
  | outputValue (index : Nat) (value : UInt64)
  | totalValue
  | duplicateInput (outpoint : OutPoint)
  | coinbaseScript (size : Nat)
  | nullOutpoint
deriving DecidableEq

def Fault.message : Fault → String
  | .noInputs => "transaction has no inputs"
  | .noOutputs => "transaction has no outputs"
  | .tooBig size => s!"serialized transaction is too big: {size} > {maxSize}"
  | .outputValue index value => s!"output {index} value {value.toNat} exceeds max {maxSatoshi}"
  | .totalValue => "total output value exceeds max"
  | .duplicateInput outpoint => s!"duplicate input {outpoint.display}"
  | .coinbaseScript size => s!"coinbase script length {size} out of range"
  | .nullOutpoint => "input references a null outpoint"

/-- Checks the values of outputs, of which `index` with the sum `total` came before. -/
def checkValues (index total : Nat) : List TxOut → Except Fault Unit
  | [] => .ok ()
  | output :: rest =>
    if maxSatoshi < output.value.toNat then .error (.outputValue index output.value)
    else if maxSatoshi < total + output.value.toNat then .error .totalValue
    else checkValues (index + 1) (total + output.value.toNat) rest

/-- Checks that no input names an outpoint in `seen` or that of an input before it. -/
def checkDistinct (seen : Std.HashSet OutPoint) : List TxIn → Except Fault Unit
  | [] => .ok ()
  | input :: rest =>
    if seen.contains input.previous then .error (.duplicateInput input.previous)
    else checkDistinct (seen.insert input.previous) rest

/-- Checks the use of the null outpoint. -/
def checkNull (tx : Transaction) : Except Fault Unit :=
  if tx.isCoinbase then
    let size := (tx.inputs.head?.map (·.signatureScript.length)).getD 0
    if 2 ≤ size && size ≤ 100 then .ok () else .error (.coinbaseScript size)
  else if tx.inputs.any (·.previous = OutPoint.null) then .error .nullOutpoint
  else .ok ()

def find (tx : Transaction) : Except Fault Unit := do
  if tx.inputs.isEmpty then throw .noInputs
  if tx.outputs.isEmpty then throw .noOutputs
  if maxSize < tx.baseSize then throw (.tooBig tx.baseSize)
  checkValues 0 0 tx.outputs
  checkDistinct ∅ tx.inputs
  checkNull tx

/-- Checks a transaction, with a failure that quotes the fault. -/
def check (tx : Transaction) : Except Error Unit :=
  match find tx with
  | .ok _ => .ok ()
  | .error fault => .error (.sanity fault.message)

end Custody.Sanity
