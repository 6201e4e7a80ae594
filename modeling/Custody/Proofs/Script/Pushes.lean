import Custody.Proofs.Bytes
import Custody.Proofs.Script

/-! # Scripts that only push

The instructions that push form a grammar: an opcode, for some opcodes a length, and the data of
that length. A script is taken for one that only pushes exactly when it is cut into such
instructions, each of them complete. Null data is the opcode `6a` in front of such a script.
-/

namespace Custody

namespace Script

open Bytes

/-- The opcodes that a length follows, with the number of its bytes. -/
inductive LengthWidth : UInt8 → Nat → Prop
  | one : LengthWidth 0x4c 1
  | two : LengthWidth 0x4d 2
  | four : LengthWidth 0x4e 4

/-- An instruction that pushes, with its data. -/
inductive IsPush : Script → Prop
  /-- The opcode is the length of the data. -/
  | direct {data : Bytes} (short : data.length ≤ 0x4b) : IsPush (UInt8.ofNat data.length :: data)
  /-- The length of the data is behind the opcode, least significant byte first. -/
  | sized {opcode : UInt8} {width : Nat} {data : Bytes} (known : LengthWidth opcode width)
      (fits : data.length < 256 ^ width) :
      IsPush (opcode :: (ofNatLE width data.length ++ data))
  /-- The opcode pushes a minus one. -/
  | minusOne : IsPush [0x4f]
  /-- The opcode pushes a number from 1 to 16. -/
  | number {opcode : UInt8} (least : 0x51 ≤ opcode) (most : opcode ≤ 0x60) : IsPush [opcode]

/-- Whether a script is a sequence of instructions that push. -/
def Pushes (script : Script) : Prop :=
  ∃ pushes : List Script, (∀ push ∈ pushes, IsPush push) ∧ pushes.flatten = script

/-- Whether a script carries data and cannot be spent. -/
def NullData (script : Script) : Prop :=
  script.length ≤ 83 ∧ ∃ pushes, Pushes pushes ∧ 0x6a :: pushes = script

section Push

variable {script rest : Script}

theorem dropSized?_eq_some_iff {width : Nat} :
    dropSized? width script = some rest ↔ ∃ data : Bytes,
      data.length < 256 ^ width ∧ ofNatLE width data.length ++ (data ++ rest) = script := by
  unfold dropSized?
  constructor
  · intro dropped
    split at dropped
    · cases dropped
    · rename_i digits tail split
      obtain ⟨rfl, rfl⟩ := split?_eq_some_iff.mp split
      obtain ⟨⟨data, _⟩, cut, rfl⟩ := Option.map_eq_some_iff.mp dropped
      obtain ⟨length, rfl⟩ := split?_eq_some_iff.mp cut
      refine ⟨data, ?_, ?_⟩
      · rw [length]
        exact toNatLE_lt digits
      · rw [length, ofNatLE_toNatLE]
  · rintro ⟨data, fits, rfl⟩
    simp only [split?_append (length_ofNatLE width data.length), toNatLE_ofNatLE fits,
      split?_append rfl, Option.map_some]

/-- What is behind an instruction that pushes is what is left when it is dropped. -/
theorem IsPush.dropPush?_append {push : Script} (pushes : IsPush push) (rest : Script) :
    dropPush? (push ++ rest) = some rest := by
  cases pushes with
  | @direct data short =>
    have opcode : (UInt8.ofNat data.length).toNat = data.length :=
      UInt8.toNat_ofNat_of_lt' (by simp only [UInt8.size]; omega)
    have below : UInt8.ofNat data.length < 0x4c := by
      rw [UInt8.lt_iff_toNat_lt, opcode]
      exact Nat.lt_succ_of_le short
    simp only [List.cons_append, dropPush?, below, ↓reduceIte, opcode, split?_append rfl,
      Option.map_some]
  | @sized opcode width data known fits =>
    have dropped : dropSized? width (ofNatLE width data.length ++ (data ++ rest)) = some rest :=
      dropSized?_eq_some_iff.mpr ⟨data, fits, rfl⟩
    rw [List.cons_append, List.append_assoc]
    cases known <;> exact dropped
  | minusOne => rfl
  | @number opcode least most =>
    have above : 0x4f < opcode := by
      rw [UInt8.lt_iff_toNat_lt]
      exact Nat.lt_of_lt_of_le (by decide) (UInt8.le_iff_toNat_le.mp least)
    have other (low : UInt8) (small : low ≤ 0x4f) : opcode ≠ low := by
      rintro rfl
      exact absurd small (UInt8.not_le.mpr above)
    have direct : ¬ opcode < 0x4c :=
      fun below => absurd above (UInt8.not_lt.mpr (UInt8.le_of_lt (UInt8.lt_trans below (by decide))))
    simp only [List.singleton_append, dropPush?, direct, other 0x4c (by decide),
      other 0x4d (by decide), other 0x4e (by decide), least, most, ↓reduceIte, decide_true,
      Bool.and_true, Bool.or_true]

/-- An instruction is dropped exactly when it pushes. -/
theorem dropPush?_eq_some_iff :
    dropPush? script = some rest ↔ ∃ push, IsPush push ∧ push ++ rest = script := by
  constructor
  · intro dropped
    cases script with
    | nil => cases dropped
    | cons opcode tail =>
      have sized {width : Nat} (known : LengthWidth opcode width)
          (dropped : dropSized? width tail = some rest) :
          ∃ push, IsPush push ∧ push ++ rest = opcode :: tail := by
        obtain ⟨data, fits, rfl⟩ := dropSized?_eq_some_iff.mp dropped
        exact ⟨_, .sized known fits, by rw [List.cons_append, List.append_assoc]⟩
      simp only [dropPush?] at dropped
      split at dropped
      · rename_i below
        obtain ⟨⟨data, _⟩, split, rfl⟩ := Option.map_eq_some_iff.mp dropped
        obtain ⟨length, rfl⟩ := split?_eq_some_iff.mp split
        have short : data.length ≤ 0x4b := by
          rw [length]
          exact Nat.le_of_lt_succ (UInt8.lt_iff_toNat_lt.mp below)
        have same : UInt8.ofNat data.length = opcode := by rw [length, UInt8.ofNat_toNat]
        exact ⟨_, .direct short, by rw [same]; rfl⟩
      split at dropped
      · rename_i one
        subst one
        exact sized .one dropped
      split at dropped
      · rename_i two
        subst two
        exact sized .two dropped
      split at dropped
      · rename_i four
        subst four
        exact sized .four dropped
      split at dropped
      · rename_i single
        simp only [Bool.or_eq_true, Bool.and_eq_true, decide_eq_true_eq] at single
        cases dropped
        rcases single with rfl | ⟨least, most⟩
        · exact ⟨_, .minusOne, rfl⟩
        · exact ⟨_, .number least most, rfl⟩
      · cases dropped
  · rintro ⟨push, pushes, rfl⟩
    exact pushes.dropPush?_append rest

end Push

/-- Instructions in front do not matter. -/
theorem isPushOnly_append {pushes : List Script} (all : ∀ push ∈ pushes, IsPush push)
    (rest : Script) : isPushOnly (pushes.flatten ++ rest) = isPushOnly rest := by
  induction pushes with
  | nil => rfl
  | cons push pushes ih =>
    obtain ⟨isPush, later⟩ := List.forall_mem_cons.mp all
    have dropped := isPush.dropPush?_append (pushes.flatten ++ rest)
    rw [List.flatten_cons, List.append_assoc, isPushOnly]
    split
    · rename_i empty
      rw [List.isEmpty_iff.mp empty] at dropped
      cases dropped
    · split
      · rename_i after found
        obtain rfl := Option.some.inj (dropped.symm.trans found)
        exact ih later
      · rename_i none
        rw [dropped] at none
        cases none

/-- A script is taken for one that only pushes exactly when it is a sequence of instructions that
push. -/
theorem isPushOnly_eq_true_iff {script : Script} : script.isPushOnly = true ↔ script.Pushes := by
  constructor
  · fun_induction isPushOnly script with
    | case1 script empty =>
      intro _
      exact ⟨[], fun _ member => (nomatch member), (List.isEmpty_iff.mp empty).symm⟩
    | case2 script _ rest dropped ih =>
      intro only
      obtain ⟨push, isPush, rfl⟩ := dropPush?_eq_some_iff.mp dropped
      obtain ⟨pushes, all, rfl⟩ := ih only
      exact ⟨push :: pushes, List.forall_mem_cons.mpr ⟨isPush, all⟩, rfl⟩
    | case3 => exact fun refused => (nomatch refused)
  · rintro ⟨pushes, all, rfl⟩
    rw [← List.append_nil pushes.flatten, isPushOnly_append all, isPushOnly]
    rfl

theorem isNullData_eq_true_iff {script : Script} : script.isNullData = true ↔ script.NullData := by
  unfold isNullData NullData
  split
  · rename_i rest
    rw [Bool.and_eq_true, decide_eq_true_iff, isPushOnly_eq_true_iff]
    constructor
    · rintro ⟨short, pushes⟩
      exact ⟨short, rest, pushes, rfl⟩
    · rintro ⟨short, _, pushes, same⟩
      obtain ⟨_, rfl⟩ := List.cons.inj same
      exact ⟨short, pushes⟩
  · rename_i other
    constructor
    · intro refused
      cases refused
    · rintro ⟨_, rest, _, same⟩
      exact absurd same.symm (other rest)

/-- A script that carries a short byte string is null data. -/
theorem isNullData_nullData {data : Bytes} (small : data.length < 76) :
    isNullData (nullData data) = true := by
  have pushes : Pushes (pushBytes data) :=
    ⟨[pushBytes data], List.forall_mem_singleton.mpr (.direct (Nat.le_of_lt_succ small)),
      List.append_nil _⟩
  refine isNullData_eq_true_iff.mpr ⟨?_, _, pushes, rfl⟩
  simp only [nullData, pushBytes, List.length_cons]
  omega

end Script

end Custody
