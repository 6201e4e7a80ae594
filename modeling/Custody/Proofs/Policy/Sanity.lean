import Custody.Policy.Sanity
import Custody.Proofs.Except
import Custody.Proofs.Transaction
import Std.Data.HashSet.Lemmas

/-! # What a sane transaction is

The checks of sanity, which stop at the first fault, accept a transaction exactly when a few
properties hold of it as a whole: the values add up to an amount of coins that can exist, and no two
inputs name one outpoint.
-/

namespace Custody

/-- The sum of the values of some outputs. -/
def TxOut.total (outputs : List TxOut) : Nat :=
  (outputs.map fun output => output.value.toNat).sum

namespace Transaction

/-- What every transaction must satisfy, whatever the state of the chain. -/
structure Sane (tx : Transaction) : Prop where
  spends : tx.inputs ≠ []
  pays : tx.outputs ≠ []
  /-- The form without witnesses is not too large. -/
  size : tx.encodePlain.length ≤ 1000000
  /-- No more is paid than all the coins there are. -/
  supply : TxOut.total tx.outputs ≤ 2100000000000000
  distinct : (tx.inputs.map TxIn.previous).Nodup
  /-- The null outpoint is named by the one input of mined coins, whose script has 2 to 100 bytes,
  or not at all. -/
  origin : (∃ input, tx.inputs = [input] ∧ input.previous = OutPoint.null ∧
      2 ≤ input.signatureScript.length ∧ input.signatureScript.length ≤ 100) ∨
    ∀ input ∈ tx.inputs, input.previous ≠ OutPoint.null

theorem isCoinbase_eq_true_iff (tx : Transaction) :
    tx.isCoinbase = true ↔ ∃ input, tx.inputs = [input] ∧ input.previous = OutPoint.null := by
  unfold isCoinbase
  split
  · rename_i input only
    simp [only]
  · rename_i several
    constructor
    · intro mined
      cases mined
    · rintro ⟨input, only, _⟩
      exact absurd only (several input)

/-- Whether a transaction is sane depends neither on the order of its inputs and of its outputs nor
on the witnesses. -/
theorem Sane.of_perm {tx tx' : Transaction} (sane : tx.Sane)
    (inputs : (tx'.inputs.map TxIn.bare).Perm (tx.inputs.map TxIn.bare))
    (outputs : tx'.outputs.Perm tx.outputs) : tx'.Sane where
  spends := by
    intro none
    rw [none, List.map_nil, List.nil_perm, List.map_eq_nil_iff] at inputs
    exact sane.spends inputs
  pays := by
    intro none
    rw [none, List.nil_perm] at outputs
    exact sane.pays outputs
  size := by
    have same : tx'.encodePlain.length = tx.encodePlain.length := baseSize_of_perm inputs outputs
    rw [same]
    exact sane.size
  supply := by
    have same : TxOut.total tx'.outputs = TxOut.total tx.outputs := (outputs.map _).sum_nat
    rw [same]
    exact sane.supply
  distinct := by
    have named := inputs.map TxIn.previous
    rw [List.map_map, List.map_map] at named
    exact named.nodup_iff.mpr sane.distinct
  origin := by
    have held {input : TxIn} (member : input ∈ tx'.inputs) :
        ∃ input' ∈ tx.inputs, input'.bare = input.bare :=
      List.mem_map.mp (inputs.mem_iff.mp (List.mem_map_of_mem member))
    rcases sane.origin with ⟨input, only, named, least, most⟩ | unnamed
    · rw [only, List.map_singleton, List.perm_singleton] at inputs
      obtain ⟨input', only', same⟩ := List.map_eq_singleton_iff.mp inputs
      have previous : input'.previous = input.previous := congrArg (·.previous) same
      have script : input'.signatureScript = input.signatureScript :=
        congrArg (·.signatureScript) same
      exact .inl ⟨input', only', by rw [previous, named], by rwa [script], by rwa [script]⟩
    · right
      intro input member
      obtain ⟨input', member', same⟩ := held member
      have previous : input'.previous = input.previous := congrArg (·.previous) same
      rw [← previous]
      exact unnamed input' member'

end Transaction

namespace Sanity

/-- Values pass one by one if their sum does not exceed all the coins there are. -/
private theorem checkValues_eq_ok_iff (index total : Nat) (outputs : List TxOut)
    (before : total ≤ maxSatoshi) :
    checkValues index total outputs = .ok () ↔ total + TxOut.total outputs ≤ maxSatoshi := by
  induction outputs generalizing index total with
  | nil => simp [checkValues, TxOut.total, before]
  | cons output outputs ih =>
    have sum : TxOut.total (output :: outputs) = output.value.toNat + TxOut.total outputs := rfl
    rw [checkValues, sum]
    split
    · simp only [reduceCtorEq, false_iff]
      omega
    · split
      · simp only [reduceCtorEq, false_iff]
        omega
      · rename_i fits
        rw [ih _ _ (Nat.not_lt.mp fits), Nat.add_assoc]

/-- Outpoints pass if they are new and pairwise distinct. -/
private theorem checkDistinct_eq_ok_iff (seen : Std.HashSet OutPoint) (inputs : List TxIn) :
    checkDistinct seen inputs = .ok () ↔
      (∀ input ∈ inputs, seen.contains input.previous = false) ∧
        (inputs.map TxIn.previous).Nodup := by
  induction inputs generalizing seen with
  | nil => simp [checkDistinct]
  | cons input inputs ih =>
    rw [checkDistinct, List.forall_mem_cons, List.map_cons, List.nodup_cons]
    split
    · rename_i old
      simp [old]
    · rename_i new
      rw [Bool.not_eq_true] at new
      rw [ih]
      simp only [new, true_and, Std.HashSet.contains_insert, Bool.or_eq_false_iff,
        beq_eq_false_iff_ne, List.mem_map, not_exists, not_and]
      constructor
      · rintro ⟨apart, distinct⟩
        exact ⟨fun other member => (apart other member).2,
          fun other member same => (apart other member).1 same.symm, distinct⟩
      · rintro ⟨fresh, apart, distinct⟩
        exact ⟨fun other member => ⟨fun same => apart other member same.symm, fresh other member⟩,
          distinct⟩

/-- The null outpoint is named by the one input of mined coins, with a script of some bytes, or not
at all. -/
private theorem checkNull_eq_ok_iff (tx : Transaction) :
    checkNull tx = .ok () ↔
      (∃ input, tx.inputs = [input] ∧ input.previous = OutPoint.null ∧
        2 ≤ input.signatureScript.length ∧ input.signatureScript.length ≤ 100) ∨
      ∀ input ∈ tx.inputs, input.previous ≠ OutPoint.null := by
  unfold checkNull
  split
  · rename_i mined
    obtain ⟨input, only, named⟩ := tx.isCoinbase_eq_true_iff.mp mined
    simp [only, named]
  · rename_i notMined
    have apart : ¬ ∃ input, tx.inputs = [input] ∧ input.previous = OutPoint.null :=
      mt tx.isCoinbase_eq_true_iff.mpr notMined
    constructor
    · intro unnamed
      exact .inr (by simpa using unnamed)
    · rintro (⟨input, only, named, _⟩ | unnamed)
      · exact absurd ⟨input, only, named⟩ apart
      · simpa using unnamed

/-- A transaction passes the checks exactly if it is sane. -/
theorem check_eq_ok_iff_sane {tx : Transaction} : check tx = .ok () ↔ tx.Sane := by
  have found : check tx = .ok () ↔ find tx = .ok () := by
    unfold check
    split
    · rename_i done
      simp [done]
    · rename_i fault failed
      simp [failed]
  have values := checkValues_eq_ok_iff 0 0 tx.outputs (Nat.zero_le _)
  have distinct := checkDistinct_eq_ok_iff ∅ tx.inputs
  simp only [Std.HashSet.contains_empty, implies_true, true_and, Nat.zero_add] at values distinct
  rw [found]
  simp only [find, Except.check_eq_ok_iff, Except.seq_eq_ok_iff, Bool.not_eq_true,
    List.isEmpty_eq_false_iff, Nat.not_lt, values, distinct, checkNull_eq_ok_iff]
  constructor
  · rintro ⟨spends, pays, size, supply, distinct, origin⟩
    exact ⟨spends, pays, size, supply, distinct, origin⟩
  · intro sane
    exact ⟨sane.spends, sane.pays, sane.size, sane.supply, sane.distinct, sane.origin⟩

/-- An unsigned transaction is sane if it spends and pays something, is not too large, pays no more
than all the coins there are, and names no outpoint twice and the null outpoint not at all. -/
theorem check_eq_ok_iff {tx : Transaction} (unsigned : tx.Unsigned) :
    check tx = .ok () ↔
      tx.inputs ≠ [] ∧ tx.outputs ≠ [] ∧ tx.baseSize ≤ maxSize ∧
        TxOut.total tx.outputs ≤ maxSatoshi ∧ (tx.inputs.map TxIn.previous).Nodup ∧
        ∀ input ∈ tx.inputs, input.previous ≠ OutPoint.null := by
  rw [check_eq_ok_iff_sane]
  constructor
  · intro sane
    refine ⟨sane.spends, sane.pays, sane.size, sane.supply, sane.distinct, ?_⟩
    rcases sane.origin with ⟨input, only, _, least, _⟩ | unnamed
    · -- Mined coins have a script, an unsigned input has none.
      rw [(unsigned input (only ▸ List.mem_singleton_self input)).1] at least
      cases least
    · exact unnamed
  · rintro ⟨spends, pays, size, supply, distinct, unnamed⟩
    exact ⟨spends, pays, size, supply, distinct, .inr unnamed⟩

/-- A transaction passes the checks exactly if it is sane. Whether it does depends neither on the
order of its inputs, nor on that of its outputs, nor on any witness. -/
theorem sane_exact (tx : Transaction) :
    (check tx = .ok () ↔ tx.Sane) ∧
      ∀ inputs outputs, (inputs.map TxIn.bare).Perm (tx.inputs.map TxIn.bare) →
        outputs.Perm tx.outputs →
          (check { tx with inputs, outputs } = .ok () ↔ check tx = .ok ()) := by
  refine ⟨check_eq_ok_iff_sane, fun inputs outputs spent paid => ?_⟩
  rw [check_eq_ok_iff_sane, check_eq_ok_iff_sane]
  exact ⟨fun sane => sane.of_perm spent.symm paid.symm, fun sane => sane.of_perm spent paid⟩

/-- A transaction of mined coins, all that there are, to two outputs. -/
def mined : Transaction where
  version := 1
  lockTime := 0
  inputs := [{ previous := OutPoint.null, signatureScript := [0x01, 0x00] }]
  outputs := [⟨1, []⟩, ⟨2099999999999999, [0x51]⟩]

/-- It stays sane with a witness and its outputs in the other order. -/
theorem sane_exact_mined :
    check mined = .ok () ∧
      check { mined with
        inputs := [{ previous := OutPoint.null, signatureScript := [0x01, 0x00], witness := [[7]] }]
        outputs := [⟨2099999999999999, [0x51]⟩, ⟨1, []⟩] } = .ok () := by
  have sane : mined.Sane := {
    spends := by decide
    pays := by decide
    size := by decide
    supply := by decide
    distinct := by decide
    origin := .inl ⟨_, rfl, rfl, by decide, by decide⟩ }
  obtain ⟨passes, reordered⟩ := sane_exact mined
  have passed := passes.mpr sane
  exact ⟨passed, (reordered _ _ (.refl _) (.swap ..)).mpr passed⟩

end Sanity

end Custody
