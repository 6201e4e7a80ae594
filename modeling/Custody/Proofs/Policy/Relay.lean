import Custody.Policy.Relay
import Custody.Proofs.Except
import Custody.Proofs.Script.Pushes
import Custody.Proofs.Transaction

/-! # What a standard transaction is

The checks of relay policy accept a transaction exactly when a few properties hold of it as a whole,
of which only that of the lock time depends on the height and the time of the check. Of an unsigned
transaction of version 2 without lock time there is little left to check: its weight is bounded and
its outputs are standard, with at most one that carries data.
-/

namespace Custody

/-- Whether an output is worth spending: its value is at least three times the bytes of the output
and of an input that spends it, which are fewer if it spends a witness program. -/
def TxOut.Worth (output : TxOut) : Prop :=
  (output.script.PaysToWitness →
      3 * (8 + (CompactSize.sized output.script).length + 67) ≤ output.value.toNat) ∧
    (¬ output.script.PaysToWitness →
      3 * (8 + (CompactSize.sized output.script).length + 148) ≤ output.value.toNat)

namespace Transaction

/-- Whether the lock time of a transaction has passed at a height or median time, by which of the
two it counts, or every input waives it. -/
def Final (tx : Transaction) (height : UInt32) (medianTime : UInt64) : Prop :=
  tx.lockTime = 0 ∨
    tx.lockTime.toNat < 500000000 ∧ tx.lockTime.toNat < height.toNat ∨
    500000000 ≤ tx.lockTime.toNat ∧ tx.lockTime.toNat < medianTime.toNat ∨
    ∀ input ∈ tx.inputs, input.sequence = 0xFFFFFFFF

/-- What a transaction must be to be passed on at a height and median time. -/
structure Standard (tx : Transaction) (height : UInt32) (medianTime : UInt64) : Prop where
  version : tx.version = 1 ∨ tx.version = 2
  final : tx.Final height medianTime
  weight : tx.weight ≤ 400000
  pushes : ∀ input ∈ tx.inputs,
    input.signatureScript.length ≤ 1650 ∧ input.signatureScript.Pushes
  outputs : ∀ output ∈ tx.outputs, output.script.NullData ∨
    (∃ template : Script.Template, template.Instance output.script) ∧ output.Worth
  /-- At most one output carries data. -/
  data : tx.outputs.Pairwise fun a b => ¬ (a.script.NullData ∧ b.script.NullData)

variable {tx tx' : Transaction} {height height' : UInt32} {medianTime medianTime' : UInt64}

/-- A lock time that has passed stays in the past. -/
theorem Final.mono (final : tx.Final height medianTime) (later : height ≤ height')
    (later' : medianTime ≤ medianTime') : tx.Final height' medianTime' := by
  have heights := UInt32.le_iff_toNat_le.mp later
  have times := UInt64.le_iff_toNat_le.mp later'
  rcases final with none | ⟨blocks, passed⟩ | ⟨seconds, passed⟩ | waived
  · exact .inl none
  · exact .inr (.inl ⟨blocks, Nat.lt_of_lt_of_le passed heights⟩)
  · exact .inr (.inr (.inl ⟨seconds, Nat.lt_of_lt_of_le passed times⟩))
  · exact .inr (.inr (.inr waived))

theorem Standard.mono (standard : tx.Standard height medianTime) (later : height ≤ height')
    (later' : medianTime ≤ medianTime') : tx.Standard height' medianTime' :=
  { standard with final := standard.final.mono later later' }

/-- Whether a transaction is standard does not depend on the order of its inputs and of its
outputs. -/
theorem Standard.of_perm {inputs : List TxIn} {outputs : List TxOut}
    (standard : tx.Standard height medianTime) (spent : inputs.Perm tx.inputs)
    (paid : outputs.Perm tx.outputs) :
    { tx with inputs, outputs : Transaction }.Standard height medianTime where
  version := standard.version
  final := by
    rcases standard.final with none | blocks | seconds | waived
    · exact .inl none
    · exact .inr (.inl blocks)
    · exact .inr (.inr (.inl seconds))
    · exact .inr (.inr (.inr fun input member => waived input (spent.mem_iff.mp member)))
  weight := by
    rw [weight_of_perm spent paid]
    exact standard.weight
  pushes := fun input member => standard.pushes input (spent.mem_iff.mp member)
  outputs := fun output member => standard.outputs output (paid.mem_iff.mp member)
  data := (paid.pairwise_iff fun apart both => apart both.symm).mpr standard.data

end Transaction

namespace Relay

/-- Whether an output carries data, or has a standard script and is worth spending. -/
def IsStandard (output : TxOut) : Prop :=
  output.script.isNullData = true ∨
    output.script.template?.isSome = true ∧ dustLimit output ≤ output.value.toNat

/-- Inputs pass if their scripts are short and only push. -/
private theorem checkInputs_eq_ok_iff {index : Nat} {inputs : List TxIn} :
    checkInputs index inputs = .ok () ↔
      ∀ input ∈ inputs, input.signatureScript.length ≤ 1650 ∧ input.signatureScript.Pushes := by
  induction inputs generalizing index with
  | nil => simp [checkInputs]
  | cons input inputs ih =>
    simp only [checkInputs, List.forall_mem_cons, ← Script.isPushOnly_eq_true_iff]
    split
    · rename_i long
      have large : ¬ input.signatureScript.length ≤ 1650 := Nat.not_le.mpr long
      simp [large]
    · rename_i short
      have small : input.signatureScript.length ≤ 1650 := Nat.not_lt.mp short
      cases input.signatureScript.isPushOnly with
      | false => simp
      | true => simp [small, ih, ← Script.isPushOnly_eq_true_iff]

/-- Outputs pass if they are standard; those that carry data are counted. -/
private theorem checkOutputs_eq_ok_iff {index data count : Nat} {outputs : List TxOut} :
    checkOutputs index data outputs = .ok count ↔
      (∀ output ∈ outputs, IsStandard output) ∧
        count = data + outputs.countP (·.script.isNullData) := by
  induction outputs generalizing index data with
  | nil => simp [checkOutputs, eq_comm]
  | cons output outputs ih =>
    rw [checkOutputs, List.forall_mem_cons, List.countP_cons]
    split
    · rename_i carries
      simp [ih, IsStandard, carries, Nat.add_assoc, Nat.add_comm 1]
    · rename_i pays
      split
      · rename_i foreign
        rw [Option.isNone_iff_eq_none] at foreign
        simp [IsStandard, pays, foreign]
      · rename_i known
        rw [Option.isNone_iff_eq_none, ← ne_eq, ← Option.isSome_iff_ne_none] at known
        split
        · rename_i dust
          simp [IsStandard, pays, Nat.not_le.mpr dust]
        · rename_i worth
          simp [IsStandard, pays, known, Nat.not_lt.mp worth, ih]

/-- The values that are worth spending are those from the limit on. -/
private theorem dustLimit_le_iff {output : TxOut} :
    dustLimit output ≤ output.value.toNat ↔ output.Worth := by
  have size : output.encode.length = 8 + (CompactSize.sized output.script).length := by
    rw [TxOut.encode, List.length_append, Bytes.length_ofNatLE]
  rw [dustLimit, TxOut.Worth, ← Script.isWitnessProgram_eq_true_iff, size]
  cases output.script.isWitnessProgram
  · simp only [Bool.false_eq_true, ↓reduceIte, false_implies, not_false_eq_true, true_implies,
      true_and, Nat.add_assoc, Nat.reduceAdd]
  · simp only [↓reduceIte, not_true_eq_false, false_implies, true_implies, and_true, Nat.add_assoc,
      Nat.reduceAdd]

/-- An output passes if it carries data, or has a standard script and is worth spending. -/
private theorem isStandard_iff {output : TxOut} :
    IsStandard output ↔ output.script.NullData ∨
      (∃ template : Script.Template, template.Instance output.script) ∧ output.Worth := by
  simp only [IsStandard, Script.isNullData_eq_true_iff, Option.isSome_iff_exists,
    Script.template?_eq_some_iff, dustLimit_le_iff]

private theorem countP_le_one_iff {α : Type} {p : α → Bool} {items : List α} :
    items.countP p ≤ 1 ↔ items.Pairwise fun a b => ¬ (p a = true ∧ p b = true) := by
  induction items with
  | nil => simp
  | cons item items ih =>
    rw [List.countP_cons, List.pairwise_cons, ← ih]
    cases p item with
    | false => simp
    | true =>
      have none : (∀ other ∈ items, ¬ (true = true ∧ p other = true)) ↔ items.countP p = 0 := by
        simp [List.countP_eq_zero]
      rw [none, if_pos rfl]
      omega

private theorem isFinalized_eq_true_iff {tx : Transaction} {height : UInt32}
    {medianTime : UInt64} :
    isFinalized tx height medianTime = true ↔ tx.Final height medianTime := by
  have counted : tx.lockTime < lockTimeThreshold ↔ tx.lockTime.toNat < 500000000 :=
    UInt32.lt_iff_toNat_lt
  simp only [isFinalized, Transaction.Final, counted, Bool.or_eq_true, decide_eq_true_eq,
    List.all_eq_true, or_assoc]
  split
  · rename_i blocks
    simp only [blocks, Nat.not_le.mpr blocks, true_and, false_and, false_or]
  · rename_i seconds
    simp only [seconds, Nat.not_lt.mp seconds, true_and, false_and, false_or]

/-- The known versions are 1 and 2. -/
private theorem version_iff {version : Int32} :
    ¬ (decide (version < 1) || decide (Int32.ofNat maxVersion < version)) = true ↔
      version = 1 ∨ version = 2 := by
  have two : (Int32.ofNat maxVersion).toInt = 2 := rfl
  simp only [Bool.or_eq_true, decide_eq_true_eq, Int32.lt_iff_toInt_lt, ← Int32.toInt_inj, two,
    Int32.toInt_one, Int32.reduceToInt]
  omega

/-- A transaction passes the checks exactly if it is standard. -/
theorem check_eq_ok_iff_standard {tx : Transaction} {height : UInt32} {medianTime : UInt64} :
    check tx height medianTime = .ok () ↔ tx.Standard height medianTime := by
  have found : check tx height medianTime = .ok () ↔ find tx height medianTime = .ok () := by
    unfold check
    split
    · rename_i done
      simp [done]
    · rename_i fault failed
      simp [failed]
  rw [found]
  simp only [find, Except.check_eq_ok_iff, Except.bind_eq_ok_iff, Except.last_check_eq_ok_iff,
    version_iff, Bool.not_eq_true', Bool.not_eq_false, isFinalized_eq_true_iff,
    checkOutputs_eq_ok_iff, isStandard_iff, Nat.not_lt, Nat.zero_add]
  have data : tx.outputs.countP (·.script.isNullData) ≤ 1 ↔
      tx.outputs.Pairwise fun a b => ¬ (a.script.NullData ∧ b.script.NullData) := by
    simp only [countP_le_one_iff, Script.isNullData_eq_true_iff]
  constructor
  · rintro ⟨version, final, weight, ⟨⟩, pushes, _, ⟨outputs, rfl⟩, few⟩
    exact ⟨version, final, weight, checkInputs_eq_ok_iff.mp pushes, outputs, data.mp few⟩
  · intro standard
    exact ⟨standard.version, standard.final, standard.weight, ⟨⟩,
      checkInputs_eq_ok_iff.mpr standard.pushes, _, ⟨standard.outputs, rfl⟩,
      data.mpr standard.data⟩

/-- An unsigned transaction of version 2 without lock time is standard at any time if its weight is
bounded, its outputs are standard and at most one of them carries data. -/
theorem check_eq_ok_iff {tx : Transaction} {height : UInt32} {medianTime : UInt64}
    (unsigned : tx.Unsigned) (version : tx.version = 2) (lockTime : tx.lockTime = 0) :
    check tx height medianTime = .ok () ↔
      tx.weight ≤ maxWeight ∧ (∀ output ∈ tx.outputs, IsStandard output) ∧
        tx.outputs.countP (·.script.isNullData) ≤ 1 := by
  rw [check_eq_ok_iff_standard, countP_le_one_iff]
  simp only [isStandard_iff, Script.isNullData_eq_true_iff]
  constructor
  · intro standard
    exact ⟨standard.weight, standard.outputs, standard.data⟩
  · rintro ⟨weight, outputs, data⟩
    refine ⟨.inr version, .inl lockTime, weight, fun input member => ?_, outputs, data⟩
    rw [(unsigned input member).1]
    exact ⟨Nat.zero_le _, [], fun _ member => (nomatch member), rfl⟩

/-- A transaction passes the checks exactly if it is standard. One that passes goes on to pass at
every later height and time, and whether it does not depend on the order of its inputs and of its
outputs. -/
theorem standard_exact (tx : Transaction) (height : UInt32) (medianTime : UInt64) :
    (check tx height medianTime = .ok () ↔ tx.Standard height medianTime) ∧
      (∀ height' medianTime', height ≤ height' → medianTime ≤ medianTime' →
        check tx height medianTime = .ok () → check tx height' medianTime' = .ok ()) ∧
      ∀ inputs outputs, inputs.Perm tx.inputs → outputs.Perm tx.outputs →
        (check { tx with inputs, outputs } height medianTime = .ok () ↔
          check tx height medianTime = .ok ()) := by
  refine ⟨check_eq_ok_iff_standard, fun height' medianTime' later later' passed => ?_,
    fun inputs outputs spent paid => ?_⟩
  · rw [check_eq_ok_iff_standard] at passed ⊢
    exact passed.mono later later'
  · rw [check_eq_ok_iff_standard, check_eq_ok_iff_standard]
    exact ⟨fun standard => standard.of_perm spent.symm paid.symm,
      fun standard => standard.of_perm spent paid⟩

/-- A transaction locked up to height 100, with the least payment to a key in the witness. -/
def timed : Transaction where
  version := 2
  lockTime := 100
  inputs := [
    { previous := ⟨Txid.zero, 0⟩, signatureScript := [0x02, 0x6a, 0xff], sequence := 0 },
    { previous := ⟨Txid.zero, 1⟩ }]
  outputs := [
    ⟨294, Script.payToWitness 0 (List.replicate 20 0)⟩,
    ⟨0, Script.nullData [0x68, 0x69]⟩]

private theorem standard_timed : timed.Standard 101 0 where
  version := .inr rfl
  final := .inr (.inl (by decide))
  weight := by decide +kernel
  pushes := by
    refine List.forall_mem_cons.mpr ⟨⟨by decide, [[0x02, 0x6a, 0xff]], ?_, rfl⟩,
      List.forall_mem_singleton.mpr ⟨by decide, [], fun _ member => (nomatch member), rfl⟩⟩
    have short : ([0x6a, 0xff] : Bytes).length ≤ 0x4b := by decide
    exact List.forall_mem_singleton.mpr (.direct short)
  outputs := by
    refine List.forall_mem_cons.mpr ⟨.inr ⟨⟨_, .witnessPubkeyHash rfl⟩, ?_⟩,
      List.forall_mem_singleton.mpr (.inl ?_)⟩
    · have witness : Script.PaysToWitness (Script.payToWitness 0 (List.replicate 20 0)) :=
        ⟨0, List.replicate 20 0, by decide, by decide, by decide, rfl⟩
      exact ⟨fun _ => by decide, fun other => absurd witness other⟩
    · exact Script.isNullData_eq_true_iff.mp (Script.isNullData_nullData (by decide))
  data := by
    have pays : ¬ Script.NullData (Script.payToWitness 0 (List.replicate 20 0)) := by
      rw [← Script.isNullData_eq_true_iff, Script.payToWitness,
        Script.isNullData_eq_false (by decide)]
      exact Bool.false_ne_true
    exact List.pairwise_pair.mpr fun both => pays both.1

/-- It passes from height 101 on, in whatever order, and not before. -/
theorem standard_exact_timed :
    check timed 101 0 = .ok () ∧ check timed 200000 5 = .ok () ∧ check timed 100 0 ≠ .ok () ∧
      check { timed with inputs := timed.inputs.reverse, outputs := timed.outputs.reverse } 101 0 =
        .ok () := by
  obtain ⟨passes, later, reordered⟩ := standard_exact timed 101 0
  have passed := passes.mpr standard_timed
  refine ⟨passed, later _ _ (by decide) (by decide) passed, ?_,
    (reordered _ _ (List.reverse_perm _) (List.reverse_perm _)).mpr passed⟩
  intro early
  have final := ((standard_exact timed 100 0).1.mp early).final
  exact absurd final (by unfold Transaction.Final; decide)

end Relay

end Custody
