import Custody.Proofs.Checked
import Custody.Proofs.Node.Deposit

/-! # Deposits are confirmed without accesses out of range

The output of the raw transaction is looked up at an index that the node's description has, once the
two have as many outputs. Its script is cut behind the two bytes of a header, once it is known to
have one.
-/

namespace Custody.Node

/-- Whether a raw transaction confirms a deposit: by its output at the index, which must be there,
and by what is behind the header of that output's script. -/
def confirmsChecked (raw : Transaction) (hash : String) (outputs : Nat) (index : UInt32)
    (deposit : Deposit) (network : Network) : Checked Error Bool := do
  if raw.txid.display ≠ hash || raw.outputs.length ≠ outputs then return false
  let output ← Checked.item raw.outputs index.toNat
  if output.value ≠ deposit.satoshi then return false
  if !(output.script.isWitnessPubkeyHash || output.script.isWitnessScriptHash) then return false
  let program ← Checked.tail output.script 2
  Checked.total ((Address.encodeWitness 0 program network).map (· = deposit.address))

/-- The deposit at an output, with the node's description of its transaction. -/
def getDepositChecked (hash : String) (index : UInt32) :
    CheckedOn Error Session (Option (TxRecord × Deposit)) := do
  let tx ← Checked.totalOn (getTransaction hash)
  match describedDeposit? tx index with
  | none => return none
  | some described =>
    let deposit ← Checked.totalOn (locate described tx.blockhash)
    let raw ← Checked.on (Checked.total (rawTransaction hash tx))
    let network := (← get).config.network
    let confirmed ← Checked.on (confirmsChecked raw hash tx.vout.length index deposit network)
    return if confirmed then some (tx, deposit) else none

section Confirms

variable {raw : Transaction} {hash : String} {outputs : Nat} {index : UInt32}

/-- Two transactions with different numbers of outputs are told apart before the output is looked
up, so that an index within the one is within the other. -/
theorem confirmsChecked_eq (inRange : index.toNat < outputs) (deposit : Deposit)
    (network : Network) :
    confirmsChecked raw hash outputs index deposit network =
      .total (confirms raw hash outputs index deposit network) := by
  unfold confirmsChecked confirms
  by_cases other :
      (decide (raw.txid.display ≠ hash) || decide (raw.outputs.length ≠ outputs)) = true
  · rw [if_pos other, if_pos other]
    rfl
  · rw [if_neg other, if_neg other]
    simp only [Bool.or_eq_true, decide_eq_true_eq, not_or, Decidable.not_not] at other
    have held := List.getElem?_eq_getElem (other.2.symm ▸ inRange)
    rw [held, Checked.item_of_getElem? held, pure_bind]
    refine Checked.ite_eq_total rfl ?_
    by_cases shaped : (raw.outputs[index.toNat].script.isWitnessPubkeyHash ||
        raw.outputs[index.toNat].script.isWitnessScriptHash) = true
    · obtain ⟨program, _, same⟩ := Script.isWitnessHash_iff.mp shaped
      have header : 2 ≤ raw.outputs[index.toNat].script.length := by
        rw [← same]
        exact Nat.le_add_left ..
      rw [shaped, Checked.tail_of_le header]
      rfl
    · rw [Bool.not_eq_true] at shaped
      rw [shaped]
      rfl

/-- An index that is not held against a description could be behind the outputs. -/
theorem confirmsChecked_behind (same : raw.txid.display = hash)
    (count : raw.outputs.length = outputs) (behind : outputs ≤ index.toNat) (deposit : Deposit)
    (network : Network) :
    (confirmsChecked raw hash outputs index deposit network).outcome? = none := by
  have none : raw.outputs[index.toNat]? = none := List.getElem?_eq_none (count ▸ behind)
  simp only [confirmsChecked, same, count, ne_eq, not_true, decide_false, Bool.or_self,
    Bool.false_eq_true, ↓reduceIte, Checked.item, none]
  rfl

end Confirms

/-- Whatever a node replies, looking up a deposit makes no access out of range. -/
theorem getDepositChecked_eq (hash : String) (index : UInt32) :
    getDepositChecked hash index = Checked.totalOn (getDeposit hash index) := by
  refine Checked.bind_eq_totalOn rfl fun tx => ?_
  cases found : describedDeposit? tx index with
  | none => rfl
  | some described =>
    have inRange := (of_describedDeposit? found).2
    refine Checked.bind_eq_totalOn rfl fun deposit => ?_
    refine Checked.bind_eq_totalOn (Checked.on_eq_totalOn rfl) fun raw => ?_
    refine Checked.bind_eq_totalOn rfl fun session => ?_
    exact Checked.bind_eq_totalOn (Checked.on_eq_totalOn (confirmsChecked_eq inRange ..))
      fun confirmed => rfl

end Custody.Node
