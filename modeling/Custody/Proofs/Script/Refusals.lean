import Custody.Proofs.Script.Pushes

/-! # Where pushes break off

An instruction says in front how long its data is, so that a script is cut without a look at the
data. A script is refused exactly when, behind some complete instructions, there is an opcode that
does not push or an instruction that the script ends within.
-/

namespace Custody.Script

open Bytes

/-- What stands in front of the data of an instruction that pushes, for data of a size. -/
inductive Announces : Nat → Bytes → Prop
  | direct {size : Nat} (short : size ≤ 0x4b) : Announces size [UInt8.ofNat size]
  | sized {opcode : UInt8} {width size : Nat} (known : LengthWidth opcode width)
      (fits : size < 256 ^ width) : Announces size (opcode :: ofNatLE width size)
  | minusOne : Announces 0 [0x4f]
  | number {opcode : UInt8} (least : 0x51 ≤ opcode) (most : opcode ≤ 0x60) : Announces 0 [opcode]

/-- How a script can fail to begin with an instruction that pushes. -/
inductive Breaks : Script → Prop
  /-- The opcode does not push. -/
  | opcode {opcode : UInt8} {rest : Bytes} (refused : opcode = 0x50 ∨ 0x60 < opcode) :
      Breaks (opcode :: rest)
  /-- There is less data than the opcode says. -/
  | direct {opcode : UInt8} {data : Bytes} (small : opcode ≤ 0x4b)
      (short : data.length < opcode.toNat) : Breaks (opcode :: data)
  /-- The length is cut off. -/
  | length {opcode : UInt8} {width : Nat} {digits : Bytes} (known : LengthWidth opcode width)
      (short : digits.length < width) : Breaks (opcode :: digits)
  /-- There is less data than the length says. -/
  | data {opcode : UInt8} {width : Nat} {digits data : Bytes} (known : LengthWidth opcode width)
      (whole : digits.length = width) (short : data.length < toNatLE digits) :
      Breaks (opcode :: (digits ++ data))

section Cut

variable {push : Script}

/-- An instruction is what announces its data, and the data. -/
theorem isPush_iff :
    IsPush push ↔ ∃ header data, Announces data.length header ∧ header ++ data = push := by
  constructor
  · intro isPush
    cases isPush with
    | @direct data short => exact ⟨_, data, .direct short, rfl⟩
    | @sized _ _ data known fits => exact ⟨_, data, .sized known fits, rfl⟩
    | minusOne => exact ⟨_, [], .minusOne, rfl⟩
    | number least most => exact ⟨_, [], .number least most, rfl⟩
  · rintro ⟨header, data, announces, rfl⟩
    generalize size : data.length = length at announces
    cases announces with
    | direct short =>
      subst size
      exact .direct short
    | sized known fits =>
      subst size
      exact .sized known fits
    | minusOne =>
      obtain rfl := List.length_eq_zero_iff.mp size
      exact .minusOne
    | number least most =>
      obtain rfl := List.length_eq_zero_iff.mp size
      exact .number least most

/-- The data of an instruction does not matter. -/
theorem isPushOnly_of_announces {header data : Bytes} (announces : Announces data.length header)
    (rest : Script) : isPushOnly (header ++ (data ++ rest)) = isPushOnly rest := by
  have single := isPushOnly_append
    (List.forall_mem_singleton.mpr (isPush_iff.mpr ⟨header, data, announces, rfl⟩)) rest
  rwa [List.flatten_singleton, List.append_assoc] at single

end Cut

section Refuse

variable {script : Script}

private theorem split?_eq_none_iff {n : Nat} {bytes : Bytes} :
    split? n bytes = none ↔ bytes.length < n := by
  simp only [split?, List.length_take, ite_eq_right_iff, reduceCtorEq, imp_false]
  omega

private theorem dropSized?_eq_none_iff {width : Nat} :
    dropSized? width script = none ↔ script.length < width ∨
      ∃ digits data, digits.length = width ∧ data.length < toNatLE digits ∧
        digits ++ data = script := by
  unfold dropSized?
  cases cut : split? width script with
  | none => simp [split?_eq_none_iff.mp cut]
  | some parts =>
    obtain ⟨digits, data⟩ := parts
    obtain ⟨whole, rfl⟩ := split?_eq_some_iff.mp cut
    have long : ¬ (digits ++ data).length < width := by
      rw [List.length_append]
      omega
    simp only [Option.map_eq_none_iff, split?_eq_none_iff, long, false_or]
    constructor
    · intro short
      exact ⟨digits, data, whole, short, rfl⟩
    · rintro ⟨digits', data', whole', short, same⟩
      obtain ⟨rfl, rfl⟩ := List.append_inj same (whole'.trans whole.symm)
      exact short

/-- The opcodes that are left when all that push are taken away. -/
private theorem refused_iff {opcode : UInt8} :
    opcode = 0x50 ∨ 0x60 < opcode ↔
      ¬ opcode < 0x4c ∧ opcode ≠ 0x4c ∧ opcode ≠ 0x4d ∧ opcode ≠ 0x4e ∧
        ¬ (opcode = 0x4f ∨ 0x51 ≤ opcode ∧ opcode ≤ 0x60) := by
  simp only [UInt8.lt_iff_toNat_lt, UInt8.le_iff_toNat_le, ← UInt8.toNat_inj, UInt8.reduceToNat,
    ne_eq]
  omega

/-- No instruction is dropped exactly where the script ends or breaks off. -/
theorem dropPush?_eq_none_iff : dropPush? script = none ↔ script = [] ∨ Breaks script := by
  constructor
  · intro refused
    cases script with
    | nil => exact .inl rfl
    | cons opcode tail =>
      have sized {width : Nat} (known : LengthWidth opcode width)
          (refused : dropSized? width tail = none) : Breaks (opcode :: tail) := by
        rcases dropSized?_eq_none_iff.mp refused with short | ⟨digits, data, whole, short, rfl⟩
        · exact .length known short
        · exact .data known whole short
      refine .inr ?_
      simp only [dropPush?] at refused
      split at refused
      · rename_i below
        have small : opcode ≤ 0x4b :=
          UInt8.le_iff_toNat_le.mpr (Nat.le_of_lt_succ (UInt8.lt_iff_toNat_lt.mp below))
        exact .direct small (split?_eq_none_iff.mp (Option.map_eq_none_iff.mp refused))
      split at refused
      · rename_i one
        subst one
        exact sized .one refused
      split at refused
      · rename_i two
        subst two
        exact sized .two refused
      split at refused
      · rename_i four
        subst four
        exact sized .four refused
      split at refused
      · cases refused
      · rename_i direct one two four single
        simp only [Bool.or_eq_true, Bool.and_eq_true, decide_eq_true_eq] at single
        exact .opcode (refused_iff.mpr ⟨direct, one, two, four, single⟩)
  · rintro (rfl | breaks)
    · rfl
    · cases breaks with
      | opcode refused =>
        obtain ⟨direct, one, two, four, single⟩ := refused_iff.mp refused
        simp only [dropPush?, direct, one, two, four, single, Bool.or_eq_true, Bool.and_eq_true,
          decide_eq_true_eq, ↓reduceIte]
      | @direct opcode data small short =>
        have below : opcode < 0x4c :=
          UInt8.lt_iff_toNat_lt.mpr (Nat.lt_succ_of_le (UInt8.le_iff_toNat_le.mp small))
        simp only [dropPush?, below, ↓reduceIte, split?_eq_none_iff.mpr short, Option.map_none]
      | @length opcode width digits known short =>
        have refused : dropSized? width digits = none := dropSized?_eq_none_iff.mpr (.inl short)
        cases known <;> exact refused
      | @data opcode width digits data known whole short =>
        have refused : dropSized? width (digits ++ data) = none :=
          dropSized?_eq_none_iff.mpr (.inr ⟨digits, data, whole, short, rfl⟩)
        cases known <;> exact refused

/-- A script is refused exactly when it breaks off behind some complete instructions. -/
theorem isPushOnly_eq_false_iff :
    isPushOnly script = false ↔ ∃ (pushes : List Script) (tail : Script),
      (∀ push ∈ pushes, IsPush push) ∧ Breaks tail ∧ pushes.flatten ++ tail = script := by
  constructor
  · fun_induction isPushOnly script with
    | case1 =>
      intro refused
      cases refused
    | case2 script _ rest dropped ih =>
      intro refused
      obtain ⟨push, isPush, rfl⟩ := dropPush?_eq_some_iff.mp dropped
      obtain ⟨pushes, tail, all, breaks, rfl⟩ := ih refused
      exact ⟨push :: pushes, tail, List.forall_mem_cons.mpr ⟨isPush, all⟩, breaks,
        by rw [List.flatten_cons, List.append_assoc]⟩
    | case3 script filled dropped =>
      intro _
      have breaks := (dropPush?_eq_none_iff.mp dropped).resolve_left
        fun empty => filled (List.isEmpty_iff.mpr empty)
      exact ⟨[], script, List.forall_mem_nil _, breaks, rfl⟩
  · rintro ⟨pushes, tail, all, breaks, rfl⟩
    have refused := dropPush?_eq_none_iff.mpr (.inr breaks)
    rw [isPushOnly_append all, isPushOnly]
    split
    · rename_i empty
      rw [List.isEmpty_iff.mp empty] at breaks
      cases breaks
    · split
      · rename_i rest found
        rw [refused] at found
        cases found
      · rfl

end Refuse

end Custody.Script
