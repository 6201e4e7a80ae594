import Custody.Proofs.Checked
import Custody.Proofs.Policy.Relay
import Custody.Proofs.Policy.Sanity

/-! # Transactions are checked without accesses out of range

Sanity looks at the first input of a transaction of mined coins, which has one. Relay policy looks
behind the first byte of a script that carries data, which has one.
-/

namespace Custody

namespace Sanity

/-- Checks the use of the null outpoint. -/
def checkNullChecked (tx : Transaction) : Checked Fault Unit := do
  if tx.isCoinbase then
    let first ← Checked.item tx.inputs 0
    let size := first.signatureScript.length
    if 2 ≤ size && size ≤ 100 then return () else throw (.coinbaseScript size)
  else if tx.inputs.any (·.previous = OutPoint.null) then throw .nullOutpoint
  else return ()

/-- Checks a transaction. -/
def findChecked (tx : Transaction) : Checked Fault Unit := do
  if tx.inputs.isEmpty then throw .noInputs
  if tx.outputs.isEmpty then throw .noOutputs
  if maxSize < tx.baseSize then throw (.tooBig tx.baseSize)
  Checked.total (checkValues 0 0 tx.outputs)
  Checked.total (checkDistinct ∅ tx.inputs)
  checkNullChecked tx

/-- Checks a transaction, with a failure that quotes the fault. -/
def checkChecked (tx : Transaction) : Checked Error Unit :=
  ExceptT.adapt (fun fault => .sanity fault.message) (findChecked tx)

theorem checkNullChecked_eq (tx : Transaction) : checkNullChecked tx = .total (checkNull tx) := by
  unfold checkNullChecked checkNull
  by_cases mined : tx.isCoinbase = true
  · obtain ⟨input, only, _⟩ := tx.isCoinbase_eq_true_iff.mp mined
    rw [if_pos mined, if_pos mined, only, Checked.item_zero, pure_bind]
    exact Checked.ite_eq_total rfl rfl
  · rw [if_neg mined, if_neg mined]
    exact Checked.ite_eq_total rfl rfl

theorem findChecked_eq (tx : Transaction) : findChecked tx = .total (find tx) := by
  refine Checked.ite_eq_total rfl ?_
  refine Checked.ite_eq_total rfl ?_
  refine Checked.ite_eq_total rfl ?_
  refine Checked.bind_eq_total rfl fun _ _ => ?_
  exact Checked.bind_eq_total rfl fun _ _ => checkNullChecked_eq tx

/-- Whatever transaction is given, its sanity is checked without an access out of range. -/
theorem checkChecked_eq (tx : Transaction) : checkChecked tx = .total (check tx) := by
  rw [checkChecked, findChecked_eq, Checked.adapt_total, check]
  cases find tx <;> rfl

end Sanity

namespace Relay

/-- Whether a script is null data: by what is behind its first byte, which must be there. -/
def isNullDataChecked (script : Script) : Checked Fault Bool := do
  if script.head? ≠ some 0x6a || Script.maxNullData < script.length then return false
  let rest ← Checked.tail script 1
  return Script.isPushOnly rest

/-- Checks outputs, of which `index` came before, and counts those that carry data. -/
def checkOutputsChecked (index data : Nat) : List TxOut → Checked Fault Nat
  | [] => return data
  | output :: rest => do
    if ← isNullDataChecked output.script then checkOutputsChecked (index + 1) (data + 1) rest
    else if output.script.template?.isNone then throw (.outputScript index output.script)
    else if output.value.toNat < dustLimit output then throw (.dust index output.value)
    else checkOutputsChecked (index + 1) data rest

/-- Checks a transaction at a height and median time. -/
def findChecked (tx : Transaction) (height : UInt32) (medianTime : UInt64) :
    Checked Fault Unit := do
  if tx.version < 1 || Int32.ofNat maxVersion < tx.version then throw (.version tx.version)
  if !isFinalized tx height medianTime then throw .notFinal
  if maxWeight < tx.weight then throw (.weight tx.weight)
  Checked.total (checkInputs 0 tx.inputs)
  let data ← checkOutputsChecked 0 0 tx.outputs
  if 1 < data then throw .nullData

/-- Checks a transaction at a height and median time, with a failure that quotes the fault. -/
def checkChecked (tx : Transaction) (height : UInt32) (medianTime : UInt64) :
    Checked Error Unit :=
  ExceptT.adapt (fun fault => .nonStandard fault.message) (findChecked tx height medianTime)

theorem isNullDataChecked_eq (script : Script) :
    isNullDataChecked script = pure script.isNullData := by
  cases script with
  | nil => rfl
  | cons opcode rest =>
    have tail : (Checked.tail (opcode :: rest) 1 : Checked Fault Bytes) = pure rest :=
      Checked.tail_of_le (Nat.le_add_left ..)
    unfold isNullDataChecked
    by_cases carries : opcode = 0x6a
    · subst carries
      by_cases large : Script.maxNullData < rest.length + 1
      · simp [large, Script.isNullData, Nat.not_le.mpr large]
      · simp [large, Script.isNullData, Nat.not_lt.mp large, tail]
    · simp [carries, Script.isNullData_eq_false carries]

theorem checkOutputsChecked_eq (index data : Nat) (outputs : List TxOut) :
    checkOutputsChecked index data outputs = .total (checkOutputs index data outputs) := by
  induction outputs generalizing index data with
  | nil => rfl
  | cons output outputs ih =>
    rw [checkOutputsChecked, checkOutputs, isNullDataChecked_eq, pure_bind]
    refine Checked.ite_eq_total (ih ..) ?_
    refine Checked.ite_eq_total rfl ?_
    exact Checked.ite_eq_total rfl (ih ..)

theorem findChecked_eq (tx : Transaction) (height : UInt32) (medianTime : UInt64) :
    findChecked tx height medianTime = .total (find tx height medianTime) := by
  refine Checked.ite_eq_total rfl ?_
  refine Checked.ite_eq_total rfl ?_
  refine Checked.ite_eq_total rfl ?_
  refine Checked.bind_eq_total rfl fun _ _ => ?_
  refine Checked.bind_eq_total (checkOutputsChecked_eq ..) fun data _ => ?_
  exact Checked.ite_eq_total rfl rfl

/-- Whatever transaction is given, relay policy is checked without an access out of range. -/
theorem checkChecked_eq (tx : Transaction) (height : UInt32) (medianTime : UInt64) :
    checkChecked tx height medianTime = .total (check tx height medianTime) := by
  rw [checkChecked, findChecked_eq, Checked.adapt_total, check]
  cases find tx height medianTime <;> rfl

end Relay

end Custody
