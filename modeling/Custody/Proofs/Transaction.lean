import Custody.Proofs.CompactSize
import Custody.Transaction.Codec

/-! # The wire form is read exactly

The reader of transactions takes the wire form of each transaction whose counts and lengths can be
written and whose witnesses are not too large, and no other byte string. The two forms never meet:
the plain one is written only with inputs, so its first count is not the zero that marks the form
with witnesses; and the reader refuses the latter where the writer would choose the former.
-/

namespace Custody

open Bytes

/-- Sizes that are added up in one pass are those of the items. -/
theorem foldr_add_eq_sum {α : Type} (size : α → Nat) (items : List α) :
    items.foldr (fun item total => size item + total) 0 = (items.map size).sum := by
  induction items with
  | nil => rfl
  | cons item items ih => rw [List.foldr_cons, ih, List.map_cons, List.sum_cons]

theorem reads_readUInt32 : Reads readUInt32? (fun _ => True) fun n => ofNatLE 4 n.toNat := by
  intro bytes n rest
  simp only [readUInt32?, Option.map_eq_some_iff, Prod.mk.injEq, true_and]
  constructor
  · rintro ⟨⟨digits, after⟩, split, rfl, rfl⟩
    obtain ⟨length, rfl⟩ := split?_eq_some_iff.mp split
    have fits := toNatLE_lt digits
    rw [length] at fits
    have value : (UInt32.ofNat (toNatLE digits)).toNat = toNatLE digits :=
      UInt32.toNat_ofNat_of_lt' fits
    rw [value, ← length, ofNatLE_toNatLE]
  · rintro rfl
    refine ⟨_, split?_append (length_ofNatLE 4 _) rest, ?_, rfl⟩
    rw [toNatLE_ofNatLE n.toNat_lt, UInt32.ofNat_toNat]

theorem reads_readUInt64 : Reads readUInt64? (fun _ => True) fun n => ofNatLE 8 n.toNat := by
  intro bytes n rest
  simp only [readUInt64?, Option.map_eq_some_iff, Prod.mk.injEq, true_and]
  constructor
  · rintro ⟨⟨digits, after⟩, split, rfl, rfl⟩
    obtain ⟨length, rfl⟩ := split?_eq_some_iff.mp split
    have fits := toNatLE_lt digits
    rw [length] at fits
    have value : (UInt64.ofNat (toNatLE digits)).toNat = toNatLE digits :=
      UInt64.toNat_ofNat_of_lt' fits
    rw [value, ← length, ofNatLE_toNatLE]
  · rintro rfl
    refine ⟨_, split?_append (length_ofNatLE 8 _) rest, ?_, rfl⟩
    rw [toNatLE_ofNatLE n.toNat_lt, UInt64.ofNat_toNat]

section Lists

variable {α : Type} {read? : Bytes → Option (α × Bytes)} {valid : α → Prop} {write : α → Bytes}

theorem readMany?_eq_some_iff (reads : Reads read? valid write) {count : Nat} {done : List α}
    {bytes rest : Bytes} {items : List α} :
    readMany? read? count done bytes = some (items, rest) ↔
      ∃ fresh, items = done.reverse ++ fresh ∧ fresh.length = count ∧
        (∀ item ∈ fresh, valid item) ∧ bytes = fresh.flatMap write ++ rest := by
  induction count generalizing done bytes with
  | zero =>
    simp only [readMany?, Option.some.injEq, Prod.mk.injEq, List.length_eq_zero_iff]
    constructor
    · rintro ⟨rfl, rfl⟩
      exact ⟨[], by simp⟩
    · rintro ⟨_, rfl, rfl, _, rfl⟩
      simp
  | succ count ih =>
    simp only [readMany?]
    constructor
    · intro read
      split at read
      · simp at read
      · rename_i item after found
        obtain ⟨holds, rfl⟩ := (reads _ _ _).mp found
        obtain ⟨fresh, rfl, rfl, all, rfl⟩ := ih.mp read
        refine ⟨item :: fresh, by simp, rfl, ?_, by simp⟩
        exact List.forall_mem_cons.mpr ⟨holds, all⟩
    · rintro ⟨fresh, rfl, length, all, rfl⟩
      cases fresh with
      | nil => simp at length
      | cons item fresh =>
        obtain ⟨holds, others⟩ := List.forall_mem_cons.mp all
        rw [List.flatMap_cons, List.append_assoc, reads.read_append holds]
        exact ih.mpr ⟨fresh, by simp, by simpa using length, others, rfl⟩

/-- A list behind its count is read exactly if its items are. -/
theorem reads_readCounted (reads : Reads read? valid write) :
    Reads (readCounted? read?) (fun items => items.length < 2 ^ 64 ∧ ∀ item ∈ items, valid item)
      (writeCounted write) := by
  intro bytes items rest
  simp only [readCounted?, writeCounted, Option.bind_eq_some_iff, Prod.exists]
  constructor
  · rintro ⟨count, after, decoded, read⟩
    obtain ⟨fits, rfl⟩ := (CompactSize.reads_decode _ _ _).mp decoded
    obtain ⟨fresh, rfl, rfl, all, rfl⟩ := (readMany?_eq_some_iff reads).mp read
    exact ⟨⟨fits, all⟩, (List.append_assoc ..).symm⟩
  · rintro ⟨⟨fits, all⟩, rfl⟩
    refine ⟨_, _, ?_, (readMany?_eq_some_iff reads).mpr ⟨items, rfl, rfl, all, rfl⟩⟩
    rw [List.append_assoc, CompactSize.reads_decode.read_append fits]

end Lists

namespace TxIn

/-- Whether an input has no witness and its script has a length that can be written. -/
def Bare (input : TxIn) : Prop :=
  input.witness = [] ∧ input.signatureScript.length < 2 ^ 64

/-- An input without its witness. -/
def bare (input : TxIn) : TxIn :=
  { input with witness := [] }

@[simp] theorem encode_bare (input : TxIn) : input.bare.encode = input.encode := rfl

theorem length_encode (input : TxIn) :
    input.encode.length =
      40 + CompactSize.size input.signatureScript.length + input.signatureScript.length := by
  simp only [encode, List.length_append, input.previous.txid.size, length_ofNatLE,
    CompactSize.length_sized]
  omega

theorem script_lt_length_encode (input : TxIn) :
    input.signatureScript.length < input.encode.length := by
  rw [length_encode]
  omega

theorem reads_decode : Reads decode? Bare encode := by
  intro bytes input rest
  unfold decode? encode
  constructor
  · intro read
    split at read
    · simp at read
    · rename_i txid after split
      obtain ⟨size, rfl⟩ := split?_eq_some_iff.mp split
      simp only [bind, Option.bind_eq_some_iff, Prod.exists, pure, Option.some.injEq,
        Prod.mk.injEq] at read
      obtain ⟨vout, _, readVout, script, _, readScript, sequence, _, readSequence, rfl, rfl⟩ := read
      obtain ⟨_, rfl⟩ := (reads_readUInt32 _ _ _).mp readVout
      obtain ⟨length, rfl⟩ := (CompactSize.reads_readSized _ _ _).mp readScript
      obtain ⟨_, rfl⟩ := (reads_readUInt32 _ _ _).mp readSequence
      exact ⟨⟨rfl, length⟩, by simp only [List.append_assoc]⟩
  · rintro ⟨⟨plain, length⟩, rfl⟩
    obtain ⟨⟨⟨txid, size⟩, vout⟩, script, sequence, witness⟩ := input
    obtain rfl : witness = [] := plain
    dsimp only
    split
    · rename_i split
      simp [split?_append size] at split
    · rename_i taken after split
      obtain ⟨rfl, rfl⟩ : taken = txid ∧ after = _ := by
        simpa [split?_append size, eq_comm] using split
      simp only [bind, Option.bind_eq_some_iff, Prod.exists, pure, Option.some.injEq,
        Prod.mk.injEq]
      exact ⟨vout, _, reads_readUInt32.read_append trivial _, script, _,
        CompactSize.reads_readSized.read_append length _, sequence, _,
        reads_readUInt32.read_append trivial _, rfl, rfl⟩

/-- Whether a witness is one that is read: neither its items nor their number exceed the limit. -/
def WitnessFits (items : List Bytes) : Prop :=
  items.length ≤ maxWitness ∧
    (items.map fun item => CompactSize.size item.length + item.length).sum ≤ maxWitness

theorem WitnessFits.nil : WitnessFits [] := by
  simp [WitnessFits, maxWitness]

private theorem item_le_sum {items : List Bytes} {item : Bytes} (member : item ∈ items) :
    item.length ≤ (items.map fun item => CompactSize.size item.length + item.length).sum := by
  induction items with
  | nil => simp at member
  | cons head tail ih =>
    simp only [List.map_cons, List.sum_cons]
    rcases List.mem_cons.mp member with rfl | later
    · omega
    · have := ih later
      omega

theorem reads_decodeWitness :
    Reads decodeWitness? WitnessFits (writeCounted CompactSize.sized) := by
  intro bytes items rest
  unfold decodeWitness? writeCounted
  simp only [foldr_add_eq_sum fun item : Bytes => CompactSize.size item.length + item.length]
  constructor
  · intro read
    split at read
    · simp at read
    · rename_i count after decoded
      obtain ⟨fits, rfl⟩ := (CompactSize.reads_decode _ _ _).mp decoded
      split at read
      · simp at read
      · rename_i few
        split at read
        · simp at read
        · rename_i found after readItems
          obtain ⟨fresh, rfl, rfl, all, rfl⟩ :=
            (readMany?_eq_some_iff CompactSize.reads_readSized).mp readItems
          simp only [Option.ite_none_right_eq_some, Option.some.injEq, Prod.mk.injEq] at read
          obtain ⟨small, rfl, rfl⟩ := read
          exact ⟨⟨Nat.not_lt.mp few, small⟩, (List.append_assoc ..).symm⟩
  · rintro ⟨⟨few, small⟩, rfl⟩
    have count : items.length < 2 ^ 64 := by unfold maxWitness at few; omega
    have sizes : ∀ item ∈ items, item.length < 2 ^ 64 := by
      intro item member
      have bound := item_le_sum member
      unfold maxWitness at small
      omega
    have readItems : readMany? CompactSize.readSized? items.length []
        (items.flatMap CompactSize.sized ++ rest) = some (items, rest) :=
      (readMany?_eq_some_iff CompactSize.reads_readSized).mpr ⟨items, rfl, rfl, sizes, rfl⟩
    simp only [List.append_assoc, CompactSize.reads_decode.read_append count, Nat.not_lt.mpr few,
      readItems, small, ↓reduceIte]

end TxIn

namespace TxOut

theorem length_encode (output : TxOut) :
    output.encode.length = 8 + CompactSize.size output.script.length + output.script.length := by
  simp only [encode, List.length_append, length_ofNatLE, CompactSize.length_sized]
  omega

theorem script_lt_length_encode (output : TxOut) :
    output.script.length < output.encode.length := by
  rw [length_encode]
  omega

theorem reads_decode : Reads decode? (·.script.length < 2 ^ 64) encode := by
  intro bytes output rest
  simp only [decode?, encode, bind, Option.bind_eq_some_iff, Prod.exists, pure, Option.some.injEq,
    Prod.mk.injEq]
  constructor
  · rintro ⟨value, _, readValue, script, _, readScript, rfl, rfl⟩
    obtain ⟨_, rfl⟩ := (reads_readUInt64 _ _ _).mp readValue
    obtain ⟨length, rfl⟩ := (CompactSize.reads_readSized _ _ _).mp readScript
    exact ⟨length, by simp only [List.append_assoc]⟩
  · rintro ⟨length, rfl⟩
    refine ⟨output.value, _, ?_, output.script, _,
      CompactSize.reads_readSized.read_append length _, rfl, rfl⟩
    rw [List.append_assoc, reads_readUInt64.read_append trivial]

/-- Nothing is read where an output with a script of `2⁶⁴` bytes or more is written. -/
theorem decode?_encode_of_large {output : TxOut} (large : 2 ^ 64 ≤ output.script.length)
    (rest : Bytes) : decode? (output.encode ++ rest) = none := by
  have refused : CompactSize.readSized? (CompactSize.sized output.script ++ rest) = none := by
    rw [CompactSize.sized, List.append_assoc, CompactSize.readSized?,
      CompactSize.decode?_encode_of_large large]
  simp only [decode?, encode, List.append_assoc, reads_readUInt64.read_append trivial, bind,
    Option.bind_some, refused, Option.bind_none]

/-- Outputs whose scripts have lengths that can be written are known from their wire forms, one
after the other. -/
theorem flatMap_encode_inj {outputs outputs' : List TxOut}
    (written : ∀ output ∈ outputs, output.script.length < 2 ^ 64)
    (same : outputs.flatMap encode = outputs'.flatMap encode) : outputs = outputs' := by
  have filled (output : TxOut) (rest : Bytes) : output.encode ++ rest ≠ [] := by
    rw [← List.length_pos_iff, List.length_append]
    exact Nat.lt_of_lt_of_le (Nat.zero_lt_of_lt output.script_lt_length_encode)
      (Nat.le_add_right _ _)
  induction outputs generalizing outputs' with
  | nil =>
    cases outputs' with
    | nil => rfl
    | cons output outputs' => exact absurd same.symm (filled output _)
  | cons output outputs ih =>
    obtain ⟨here, later⟩ := List.forall_mem_cons.mp written
    cases outputs' with
    | nil => exact absurd same (filled output _)
    | cons output' outputs' =>
      rw [List.flatMap_cons, List.flatMap_cons] at same
      have read := reads_decode.read_append here (outputs.flatMap encode)
      rw [same] at read
      have fits : output'.script.length < 2 ^ 64 := by
        by_contra large
        rw [decode?_encode_of_large (Nat.not_lt.mp large)] at read
        cases read
      obtain ⟨rfl, rest⟩ := reads_decode.append_inj here fits same
      rw [ih later rest]

/-- A byte string is read as an output exactly when it is the wire form of the output. -/
theorem ofBytes?_eq_some_iff {bytes : Bytes} {output : TxOut} :
    ofBytes? bytes = some output ↔ output.script.length < 2 ^ 64 ∧ bytes = output.encode := by
  have whole := reads_decode bytes output []
  rw [List.append_nil] at whole
  rw [← whole]
  unfold ofBytes?
  split <;> simp_all

end TxOut

namespace Transaction

/-- Whether a transaction has a wire form that is read. -/
structure Writable (tx : Transaction) : Prop where
  inputCount : tx.inputs.length < 2 ^ 64
  outputCount : tx.outputs.length < 2 ^ 64
  signatureScripts : ∀ input ∈ tx.inputs, input.signatureScript.length < 2 ^ 64
  witnesses : ∀ input ∈ tx.inputs, TxIn.WitnessFits input.witness
  outputScripts : ∀ output ∈ tx.outputs, output.script.length < 2 ^ 64

private theorem readWitnesses?_eq_some_iff {inputs filled : List TxIn} {bytes rest : Bytes}
    (plain : ∀ input ∈ inputs, input.witness = []) :
    readWitnesses? inputs bytes = some (filled, rest) ↔
      inputs = filled.map TxIn.bare ∧ (∀ input ∈ filled, TxIn.WitnessFits input.witness) ∧
        bytes = filled.flatMap TxIn.encodeWitness ++ rest := by
  induction inputs generalizing filled bytes with
  | nil =>
    simp only [readWitnesses?, Option.some.injEq, Prod.mk.injEq]
    constructor
    · rintro ⟨rfl, rfl⟩
      simp
    · rintro ⟨empty, _, rfl⟩
      obtain rfl := List.map_eq_nil_iff.mp empty.symm
      simp
  | cons input inputs ih =>
    obtain ⟨bare, others⟩ := List.forall_mem_cons.mp plain
    simp only [readWitnesses?, bind, Option.bind_eq_some_iff, Prod.exists, pure,
      Option.some.injEq, Prod.mk.injEq]
    constructor
    · rintro ⟨witness, _, readWitness, tail, _, readTail, rfl, rfl⟩
      obtain ⟨fits, rfl⟩ := (TxIn.reads_decodeWitness _ _ _).mp readWitness
      obtain ⟨rfl, all, rfl⟩ := (ih others).mp readTail
      refine ⟨?_, List.forall_mem_cons.mpr ⟨fits, all⟩, ?_⟩
      · simp only [List.map_cons, TxIn.bare, ← bare]
      · simp only [List.flatMap_cons, List.append_assoc]
        rfl
    · rintro ⟨same, all, rfl⟩
      cases filled with
      | nil => simp at same
      | cons head tail =>
        simp only [List.map_cons, List.cons.injEq] at same
        obtain ⟨rfl, rfl⟩ := same
        obtain ⟨fits, rest'⟩ := List.forall_mem_cons.mp all
        refine ⟨head.witness, _, ?_, tail, rest, (ih others).mpr ⟨rfl, rest', rfl⟩, rfl, rfl⟩
        rw [List.flatMap_cons, List.append_assoc]
        exact TxIn.reads_decodeWitness.read_append fits _

private theorem decodePlainTail?_eq_some_iff {version : Int32} {inputs : List TxIn}
    {tx : Transaction} {bytes rest : Bytes} :
    decodePlainTail? version inputs bytes = some (tx, rest) ↔
      tx.version = version ∧ tx.inputs = inputs ∧ tx.outputs.length < 2 ^ 64 ∧
        (∀ output ∈ tx.outputs, output.script.length < 2 ^ 64) ∧
        bytes = writeCounted TxOut.encode tx.outputs ++ (ofNatLE 4 tx.lockTime.toNat ++ rest) := by
  simp only [decodePlainTail?, bind, Option.bind_eq_some_iff, Prod.exists, pure,
    Option.some.injEq, Prod.mk.injEq]
  constructor
  · rintro ⟨outputs, _, readOutputs, lockTime, _, readLock, rfl, rfl⟩
    obtain ⟨⟨count, scripts⟩, rfl⟩ := (reads_readCounted TxOut.reads_decode _ _ _).mp readOutputs
    obtain ⟨_, rfl⟩ := (reads_readUInt32 _ _ _).mp readLock
    exact ⟨rfl, rfl, count, scripts, rfl⟩
  · rintro ⟨rfl, rfl, count, scripts, rfl⟩
    exact ⟨_, _, (reads_readCounted TxOut.reads_decode).read_append ⟨count, scripts⟩ _, _, _,
      reads_readUInt32.read_append trivial rest, rfl, rfl⟩

private theorem bare_inputs (tx : Transaction) (writable : tx.Writable) :
    (tx.inputs.map TxIn.bare).length < 2 ^ 64 ∧ ∀ input ∈ tx.inputs.map TxIn.bare, input.Bare := by
  refine ⟨by simpa using writable.inputCount, ?_⟩
  intro input member
  obtain ⟨full, present, rfl⟩ := List.mem_map.mp member
  exact ⟨rfl, writable.signatureScripts full present⟩

private theorem writeCounted_bare (inputs : List TxIn) :
    writeCounted TxIn.encode (inputs.map TxIn.bare) = writeCounted TxIn.encode inputs := by
  simp only [writeCounted, List.length_map, List.flatMap_map, TxIn.encode_bare]

private theorem hasWitness_iff (tx : Transaction) :
    (!tx.inputs.isEmpty && tx.inputs.all (·.witness.isEmpty)) = false ↔
      (tx.hasWitness || tx.inputs.isEmpty) = true := by
  have negated : tx.inputs.any (!·.witness.isEmpty) = !tx.inputs.all (·.witness.isEmpty) := by
    rw [List.not_all_eq_any_not]
  rw [hasWitness, negated]
  cases tx.inputs.isEmpty <;> cases tx.inputs.all (·.witness.isEmpty) <;> decide

private theorem decodeWitnessTail?_eq_some_iff {version : Int32} {tx : Transaction}
    {bytes rest : Bytes} :
    decodeWitnessTail? version bytes = some (tx, rest) ↔
      tx.version = version ∧ tx.Writable ∧ (tx.hasWitness || tx.inputs.isEmpty) = true ∧
        bytes = writeCounted TxIn.encode tx.inputs ++ (writeCounted TxOut.encode tx.outputs ++
          (tx.inputs.flatMap TxIn.encodeWitness ++ (ofNatLE 4 tx.lockTime.toNat ++ rest))) := by
  simp only [decodeWitnessTail?, bind, Option.bind_eq_some_iff, Prod.exists]
  constructor
  · rintro ⟨bare, _, readInputs, outputs, _, readOutputs, inputs, _, readWitnesses, read⟩
    split at read
    · simp at read
    · rename_i witnessed
      simp only [Option.bind_eq_some_iff, Prod.exists, pure, Option.some.injEq,
        Prod.mk.injEq] at read
      obtain ⟨lockTime, _, readLock, rfl, rfl⟩ := read
      obtain ⟨⟨inputCount, bareInputs⟩, rfl⟩ :=
        (reads_readCounted TxIn.reads_decode _ _ _).mp readInputs
      obtain ⟨⟨outputCount, scripts⟩, rfl⟩ :=
        (reads_readCounted TxOut.reads_decode _ _ _).mp readOutputs
      obtain ⟨rfl, fits, rfl⟩ :=
        (readWitnesses?_eq_some_iff
          fun input member => (bareInputs input member).1).mp readWitnesses
      obtain ⟨_, rfl⟩ := (reads_readUInt32 _ _ _).mp readLock
      refine ⟨rfl, ⟨by simpa using inputCount, outputCount, ?_, fits, scripts⟩, ?_, ?_⟩
      · intro input member
        exact (bareInputs _ (List.mem_map_of_mem member)).2
      · exact (hasWitness_iff _).mp (by simpa using witnessed)
      · rw [writeCounted_bare]
  · rintro ⟨rfl, writable, witnessed, rfl⟩
    have readInputs := (reads_readCounted TxIn.reads_decode).read_append (bare_inputs tx writable)
    rw [writeCounted_bare] at readInputs
    have plain : ∀ input ∈ tx.inputs.map TxIn.bare, input.witness = [] :=
      fun input member => ((bare_inputs tx writable).2 input member).1
    refine ⟨_, _, readInputs _, _, _, (reads_readCounted TxOut.reads_decode).read_append
      ⟨writable.outputCount, writable.outputScripts⟩ _, tx.inputs, _,
      (readWitnesses?_eq_some_iff plain).mpr ⟨rfl, writable.witnesses, rfl⟩, ?_⟩
    simp only [(hasWitness_iff tx).mpr witnessed, Bool.false_eq_true, ↓reduceIte,
      reads_readUInt32.read_append trivial, Option.bind_some, pure]

private theorem writable_plain {tx : Transaction} (plain : tx.hasWitness = false)
    {input : TxIn} (member : input ∈ tx.inputs) : input.witness = [] := by
  have none := List.any_eq_false.mp plain input member
  simpa using none

private theorem encodeWithWitness_append (tx : Transaction) (rest : Bytes) :
    tx.encodeWithWitness ++ rest = ofNatLE 4 tx.version.toUInt32.toNat ++ 0 :: 1 ::
      (writeCounted TxIn.encode tx.inputs ++ (writeCounted TxOut.encode tx.outputs ++
        (tx.inputs.flatMap TxIn.encodeWitness ++ (ofNatLE 4 tx.lockTime.toNat ++ rest)))) := by
  simp only [encodeWithWitness, encodeVersion, List.append_assoc, List.cons_append, List.nil_append]

private theorem encodePlain_append (tx : Transaction) (rest : Bytes) :
    tx.encodePlain ++ rest = ofNatLE 4 tx.version.toUInt32.toNat ++
      (writeCounted TxIn.encode tx.inputs ++ (writeCounted TxOut.encode tx.outputs ++
        (ofNatLE 4 tx.lockTime.toNat ++ rest))) := by
  simp only [encodePlain, encodeVersion, List.append_assoc]

/-- The plain form is read in three parts. -/
theorem exists_read_encodePlain {tx : Transaction} (writable : tx.Writable)
    (plain : tx.hasWitness = false) (rest : Bytes) :
    ∃ afterVersion afterInputs,
      readUInt32? (tx.encodePlain ++ rest) = some (tx.version.toUInt32, afterVersion) ∧
      readCounted? TxIn.decode? afterVersion = some (tx.inputs, afterInputs) ∧
      decodePlainTail? tx.version tx.inputs afterInputs = some (tx, rest) := by
  have bare : tx.inputs.length < 2 ^ 64 ∧ ∀ input ∈ tx.inputs, input.Bare :=
    ⟨writable.inputCount, fun input member =>
      ⟨writable_plain plain member, writable.signatureScripts input member⟩⟩
  rw [encodePlain_append]
  exact ⟨_, _, reads_readUInt32.read_append trivial _,
    (reads_readCounted TxIn.reads_decode).read_append bare _,
    decodePlainTail?_eq_some_iff.mpr
      ⟨rfl, rfl, writable.outputCount, writable.outputScripts, rfl⟩⟩

private theorem decode?_encode {tx : Transaction} (writable : tx.Writable) (rest : Bytes) :
    decode? (tx.encode ++ rest) = some (tx, rest) := by
  unfold encode
  simp only [decode?, bind, Option.bind_eq_some_iff, Prod.exists]
  split
  · rename_i witnessed
    have none : ([] : List TxIn).length < 2 ^ 64 ∧ ∀ input ∈ ([] : List TxIn), input.Bare :=
      ⟨by decide, by simp⟩
    have noInputs (after : Bytes) : readCounted? TxIn.decode? (0 :: after) = some ([], after) :=
      (reads_readCounted TxIn.reads_decode).read_append none after
    rw [encodeWithWitness_append]
    refine ⟨tx.version.toUInt32, _, reads_readUInt32.read_append trivial _, [], _, noInputs _, ?_⟩
    rw [if_pos List.isEmpty_nil]
    refine decodeWitnessTail?_eq_some_iff.mpr ⟨?_, writable, witnessed, rfl⟩
    rw [Int32.toInt32_toUInt32]
  · rename_i unwitnessed
    rw [Bool.not_eq_true, Bool.or_eq_false_iff] at unwitnessed
    obtain ⟨_, _, version, inputs, tail⟩ := exists_read_encodePlain writable unwitnessed.1 rest
    refine ⟨_, _, version, _, _, inputs, ?_⟩
    rwa [if_neg (by simp [unwitnessed.2]), Int32.toInt32_toUInt32]

private theorem encode_of_decode? {tx : Transaction} {bytes rest : Bytes}
    (read : decode? bytes = some (tx, rest)) : tx.Writable ∧ bytes = tx.encode ++ rest := by
  simp only [decode?, bind, Option.bind_eq_some_iff, Prod.exists] at read
  obtain ⟨version, _, readVersion, inputs, after, readInputs, read⟩ := read
  obtain ⟨_, rfl⟩ := (reads_readUInt32 _ _ _).mp readVersion
  obtain ⟨⟨inputCount, bareInputs⟩, rfl⟩ :=
    (reads_readCounted TxIn.reads_decode _ _ _).mp readInputs
  split at read
  · rename_i noInputs
    obtain rfl := List.isEmpty_iff.mp noInputs
    split at read
    · obtain ⟨same, writable, witnessed, rfl⟩ := decodeWitnessTail?_eq_some_iff.mp read
      refine ⟨writable, ?_⟩
      rw [encode, if_pos witnessed, encodeWithWitness_append, same, UInt32.toUInt32_toInt32]
      rfl
    · simp at read
  · rename_i someInputs
    obtain ⟨same, rfl, outputCount, scripts, rfl⟩ := decodePlainTail?_eq_some_iff.mp read
    have plain : (tx.hasWitness || tx.inputs.isEmpty) = false := by
      rw [Bool.or_eq_false_iff]
      refine ⟨List.any_eq_false.mpr fun input member => ?_, by simpa using someInputs⟩
      simp [(bareInputs input member).1]
    refine ⟨⟨inputCount, outputCount, fun input member => (bareInputs input member).2, ?_, scripts⟩,
      ?_⟩
    · intro input member
      rw [(bareInputs input member).1]
      exact TxIn.WitnessFits.nil
    · rw [encode, plain, if_neg Bool.false_ne_true, encodePlain_append, same,
        UInt32.toUInt32_toInt32]

/-- Transactions are read exactly. -/
theorem reads_decode : Reads decode? Writable encode := by
  intro bytes tx rest
  constructor
  · exact encode_of_decode?
  · rintro ⟨writable, rfl⟩
    exact decode?_encode writable rest

/-- A byte string is read as a transaction exactly when it is the wire form of the transaction. -/
theorem ofBytes?_eq_some_iff {bytes : Bytes} {tx : Transaction} :
    ofBytes? bytes = some tx ↔ tx.Writable ∧ bytes = tx.encode := by
  have whole := reads_decode bytes tx []
  rw [List.append_nil] at whole
  rw [← whole]
  unfold ofBytes?
  split <;> simp_all

private theorem length_le_flatMap {α : Type} {write : α → Bytes} {items : List α} {item : α}
    (member : item ∈ items) : (write item).length ≤ (items.flatMap write).length := by
  induction items with
  | nil => cases member
  | cons head items ih =>
    rw [List.flatMap_cons, List.length_append]
    rcases List.mem_cons.mp member with rfl | later
    · exact Nat.le_add_right _ _
    · exact Nat.le_add_left_of_le (ih later)

private theorem count_le_flatMap {α : Type} {write : α → Bytes} (items : List α)
    (positive : ∀ item, 0 < (write item).length) :
    items.length ≤ (items.flatMap write).length := by
  induction items with
  | nil => exact Nat.le_refl 0
  | cons item items ih =>
    have here := positive item
    simp only [List.length_cons, List.flatMap_cons, List.length_append]
    omega

private theorem length_lists_le_encode (tx : Transaction) :
    (tx.inputs.flatMap TxIn.encode).length ≤ tx.encode.length ∧
      (tx.outputs.flatMap TxOut.encode).length ≤ tx.encode.length := by
  unfold encode
  split <;>
    simp only [encodeWithWitness, encodePlain, writeCounted, List.length_append] <;> omega

private theorem writable_of_witnesses {tx : Transaction} (short : tx.encode.length < 2 ^ 64)
    (witnesses : ∀ input ∈ tx.inputs, TxIn.WitnessFits input.witness) : tx.Writable := by
  obtain ⟨inputs, outputs⟩ := length_lists_le_encode tx
  have inputPositive (input : TxIn) : 0 < input.encode.length :=
    Nat.zero_lt_of_lt input.script_lt_length_encode
  have outputPositive (output : TxOut) : 0 < output.encode.length :=
    Nat.zero_lt_of_lt output.script_lt_length_encode
  refine ⟨?_, ?_, ?_, witnesses, ?_⟩
  · have count := count_le_flatMap tx.inputs inputPositive
    omega
  · have count := count_le_flatMap tx.outputs outputPositive
    omega
  · intro input member
    have whole : input.encode.length ≤ (tx.inputs.flatMap TxIn.encode).length :=
      length_le_flatMap member
    have part := input.script_lt_length_encode
    omega
  · intro output member
    have whole : output.encode.length ≤ (tx.outputs.flatMap TxOut.encode).length :=
      length_le_flatMap member
    have part := output.script_lt_length_encode
    omega

private theorem witnessFits_of_length_le {input : TxIn}
    (short : input.encodeWitness.length ≤ TxIn.maxWitness) : TxIn.WitnessFits input.witness := by
  have itemPositive (item : Bytes) : 0 < (CompactSize.sized item).length := by
    have positive := CompactSize.size_pos item.length
    rw [CompactSize.length_sized]
    omega
  have count := count_le_flatMap input.witness itemPositive
  simp only [TxIn.encodeWitness, writeCounted, List.length_append, List.length_flatMap,
    CompactSize.length_sized] at short count
  exact ⟨by omega, by omega⟩

/-- A transaction can be read back unless its form is longer than one witness may be. -/
theorem writable_of_length_le {tx : Transaction} (short : tx.encode.length ≤ TxIn.maxWitness) :
    tx.Writable := by
  have lt : tx.encode.length < 2 ^ 64 := Nat.lt_of_le_of_lt short (by decide)
  refine writable_of_witnesses lt fun input member => ?_
  by_cases witnessed : tx.hasWitness = true
  · have whole : input.encodeWitness.length ≤ (tx.inputs.flatMap TxIn.encodeWitness).length :=
      length_le_flatMap member
    refine witnessFits_of_length_le (Nat.le_trans whole (Nat.le_trans ?_ short))
    rw [encode, witnessed, Bool.true_or, if_pos rfl]
    simp only [encodeWithWitness, List.length_append]
    omega
  · rw [writable_plain (Bool.eq_false_iff.mpr witnessed) member]
    exact TxIn.WitnessFits.nil

private theorem length_writeCounted {α : Type} (write : α → Bytes) (items : List α) :
    (writeCounted write items).length =
      CompactSize.size items.length + (items.map fun item => (write item).length).sum := by
  rw [writeCounted, List.length_append, CompactSize.length_encode, List.length_flatMap]

/-- The size without witnesses, by the items. -/
theorem baseSize_eq (tx : Transaction) :
    tx.baseSize = 8 + CompactSize.size tx.inputs.length + CompactSize.size tx.outputs.length
      + (tx.inputs.map fun input => input.encode.length).sum
      + (tx.outputs.map fun output => output.encode.length).sum := by
  simp only [baseSize, encodePlain, encodeVersion, List.length_append, length_ofNatLE,
    length_writeCounted]
  omega

section Order

private theorem length_writeCounted_of_perm {α : Type} (write : α → Bytes) {items items' : List α}
    (perm : items'.Perm items) :
    (writeCounted write items').length = (writeCounted write items).length := by
  rw [length_writeCounted, length_writeCounted, perm.length_eq, (perm.map _).sum_nat]

variable {tx tx' : Transaction}

/-- The size without witnesses depends on the witnesses no more than on the order of the inputs and
of the outputs. -/
theorem baseSize_of_perm (inputs : (tx'.inputs.map TxIn.bare).Perm (tx.inputs.map TxIn.bare))
    (outputs : tx'.outputs.Perm tx.outputs) : tx'.baseSize = tx.baseSize := by
  have spent := length_writeCounted_of_perm TxIn.encode inputs
  rw [writeCounted_bare, writeCounted_bare] at spent
  simp only [baseSize, encodePlain, encodeVersion, List.length_append, length_ofNatLE, spent,
    length_writeCounted_of_perm TxOut.encode outputs]

/-- The weight does not depend on the order of the inputs and of the outputs. -/
theorem weight_of_perm (inputs : tx'.inputs.Perm tx.inputs) (outputs : tx'.outputs.Perm tx.outputs) :
    tx'.weight = tx.weight := by
  have base := baseSize_of_perm (inputs.map TxIn.bare) outputs
  have marked : (tx'.hasWitness || tx'.inputs.isEmpty) = (tx.hasWitness || tx.inputs.isEmpty) := by
    rw [hasWitness, hasWitness, inputs.any_eq, inputs.isEmpty_eq]
  have whole : tx'.encode.length = tx.encode.length := by
    rw [encode, encode, marked]
    split
    · simp only [encodeWithWitness, encodeVersion, List.length_append, length_ofNatLE,
        length_writeCounted_of_perm TxIn.encode inputs,
        length_writeCounted_of_perm TxOut.encode outputs,
        (inputs.flatMap_right TxIn.encodeWitness).length_eq]
    · exact base
  rw [weight, weight, base, whole]

end Order

/-- Whether no input is signed. -/
def Unsigned (tx : Transaction) : Prop :=
  ∀ input ∈ tx.inputs, input.signatureScript = [] ∧ input.witness = []

instance (tx : Transaction) : Decidable tx.Unsigned :=
  inferInstanceAs (Decidable (∀ input ∈ tx.inputs, _ ∧ _))

theorem Unsigned.hasWitness_eq_false {tx : Transaction} (unsigned : tx.Unsigned) :
    tx.hasWitness = false := by
  rw [hasWitness, List.any_eq_false]
  intro input member
  simp [(unsigned input member).2]

/-- An unsigned transaction that spends something has the form without witnesses. -/
theorem Unsigned.encode_eq {tx : Transaction} (unsigned : tx.Unsigned) (spends : tx.inputs ≠ []) :
    tx.encode = tx.encodePlain := by
  simp [encode, unsigned.hasWitness_eq_false, spends]

/-- An unsigned transaction that spends nothing has the two bytes that mark the form with
witnesses. -/
theorem Unsigned.length_encode {tx : Transaction} (unsigned : tx.Unsigned) :
    tx.encode.length = tx.baseSize + if tx.inputs.isEmpty then 2 else 0 := by
  by_cases none : tx.inputs = []
  · simp only [encode, none, List.isEmpty_nil, Bool.or_true, ↓reduceIte, encodeWithWitness,
      baseSize, encodePlain, List.length_append, List.length_cons, List.length_nil,
      List.flatMap_nil]
    omega
  · rw [unsigned.encode_eq none, if_neg (by simpa using none)]
    rfl

theorem Unsigned.weight_eq {tx : Transaction} (unsigned : tx.Unsigned) (spends : tx.inputs ≠ []) :
    tx.weight = 4 * tx.encode.length := by
  rw [weight, baseSize, ← unsigned.encode_eq spends]
  omega

/-- An unsigned transaction can be read back unless its form is very long. -/
theorem Unsigned.writable {tx : Transaction} (unsigned : tx.Unsigned)
    (short : tx.encode.length < 2 ^ 64) : tx.Writable := by
  refine writable_of_witnesses short fun input member => ?_
  rw [(unsigned input member).2]
  exact TxIn.WitnessFits.nil

end Transaction

end Custody
