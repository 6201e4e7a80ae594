import Custody.Proofs.Text.Digits
import Custody.Text.Base58
import Mathlib.Data.List.TakeWhile

/-! # Base 58 is read back, and from one spelling

A byte string and its text are the digits of one number in two bases, behind as many zeros. Without
zeros in front a number has one row of digits, so each side gives the other: a byte string is read
from the text that spells it, and a text that is read is the one that is written.
-/

namespace Custody.Base58

open Digits

section Recode

private theorem zero_of_mem_takeWhile {digits : List Nat} {digit : Nat}
    (member : digit ∈ digits.takeWhile (· = 0)) : digit = 0 :=
  of_decide_eq_true (List.mem_takeWhile_imp (p := (· = 0)) member)

/-- Digits of the same number in another base, behind as many zeros. -/
private def recode (base base' : Nat) (digits : List Nat) : List Nat :=
  digits.takeWhile (· = 0) ++ (Nat.digits base' (value base digits)).reverse

private theorem value_zeros_append (base : Nat) {zeros : List Nat}
    (zero : ∀ digit ∈ zeros, digit = 0) (digits : List Nat) :
    value base (zeros ++ digits) = value base digits := by
  induction zeros with
  | nil => rfl
  | cons digit zeros ih =>
    obtain ⟨rfl, later⟩ := List.forall_mem_cons.mp zero
    rw [List.cons_append, value_cons, ih later, Nat.mul_zero, Nat.zero_add]

private theorem value_reverse_digits (base n : Nat) :
    value base (Nat.digits base n).reverse = n := by
  rw [value_eq_ofDigits, List.reverse_reverse, Nat.ofDigits_digits]

private theorem takeWhile_reverse_digits (base n : Nat) :
    (Nat.digits base n).reverse.takeWhile (· = 0) = [] := by
  rw [List.takeWhile_eq_nil_iff]
  intro filled
  have digits : (Nat.digits base n).reverse ≠ [] := List.ne_nil_of_length_pos filled
  have nonzero : n ≠ 0 := by
    rintro rfl
    simp at digits
  have first := Nat.getLast_digit_ne_zero base nonzero
  rw [← List.head_reverse digits, List.head_eq_getElem] at first
  simpa using first

/-- Digits without a zero in front are those of their number. -/
private theorem reverse_digits_value {base : Nat} (large : 1 < base) {digits : List Nat}
    (small : ∀ digit ∈ digits, digit < base) (first : ∀ filled, digits.head filled ≠ 0) :
    (Nat.digits base (value base digits)).reverse = digits := by
  have last (filled : digits.reverse ≠ []) : digits.reverse.getLast filled ≠ 0 := by
    rw [List.getLast_reverse]
    exact first _
  rw [value_eq_ofDigits, Nat.digits_ofDigits base large digits.reverse
    (fun digit member => small digit (List.mem_reverse.mp member)) last, List.reverse_reverse]

private theorem recode_recode {base base' : Nat} (large : 1 < base) {digits : List Nat}
    (small : ∀ digit ∈ digits, digit < base) :
    recode base' base (recode base base' digits) = digits := by
  have zero : ∀ digit ∈ digits.takeWhile (· = 0), digit = 0 := fun _ => zero_of_mem_takeWhile
  have passed : ∀ digit ∈ digits.takeWhile (· = 0), decide (digit = 0) = true :=
    fun digit member => decide_eq_true (zero digit member)
  have split := List.takeWhile_append_dropWhile (p := (· = 0)) (l := digits)
  -- Zeros in front do not count in either base, so the numbers are those of the other digits.
  have rest : (Nat.digits base (value base digits)).reverse = digits.dropWhile (· = 0) := by
    rw [← split, value_zeros_append base zero, split]
    refine reverse_digits_value large (fun digit member => ?_) fun filled => ?_
    · exact small digit ((List.dropWhile_suffix _).mem member)
    · exact of_decide_eq_false (List.head_dropWhile_not (· = 0) filled)
  rw [recode, recode, List.takeWhile_append_of_pos passed, takeWhile_reverse_digits,
    List.append_nil, value_zeros_append base' zero, value_reverse_digits, rest, split]

end Recode

section Raw

private theorem digits_eq (n : Nat) (done : List Char) :
    digits n done = (Nat.digits 58 n).reverse.map (alphabet.getD · '1') ++ done := by
  induction n, done using digits.induct with
  | case1 done => rw [digits, if_pos rfl, Nat.digits_zero]; rfl
  | case2 n done nonzero ih =>
    rw [digits, if_neg nonzero, ih, Nat.digits_def' (by decide) (Nat.pos_of_ne_zero nonzero),
      List.reverse_cons, List.map_append, List.append_assoc]
    rfl

private theorem bytesOf_eq (n : Nat) (done : Bytes) :
    bytesOf n done = (Nat.digits 256 n).reverse.map UInt8.ofNat ++ done := by
  induction n, done using bytesOf.induct with
  | case1 done => rw [bytesOf, if_pos rfl, Nat.digits_zero]; rfl
  | case2 n done nonzero ih =>
    have digit : UInt8.ofNat n = UInt8.ofNat (n % 256) := UInt8.ofNat_mod_size.symm
    rw [bytesOf, if_neg nonzero, ih, Nat.digits_def' (by decide) (Nat.pos_of_ne_zero nonzero),
      List.reverse_cons, List.map_append, List.append_assoc, digit]
    rfl

private theorem encodeRaw_eq (bytes : Bytes) :
    encodeRaw bytes =
      String.ofList ((recode 256 58 (bytes.map UInt8.toNat)).map (alphabet.getD · '1')) := by
  have zeros : (bytes.takeWhile (· = 0)).map (fun _ => '1') =
      ((bytes.map UInt8.toNat).takeWhile (· = 0)).map (alphabet.getD · '1') := by
    have zero : ((fun digit : Nat => decide (digit = 0)) ∘ UInt8.toNat) =
        fun b => decide (b = 0) := by
      funext b
      simp [← UInt8.toNat_inj]
    rw [List.takeWhile_map, List.map_map, zero]
    refine List.map_congr_left fun b member => ?_
    have first := List.mem_takeWhile_imp member
    obtain rfl : b = 0 := of_decide_eq_true first
    rfl
  rw [encodeRaw, recode, List.map_append, digits_eq, List.append_nil, toNatBE_eq_value, zeros]

private theorem decodeRaw?_eq (text : String) :
    decodeRaw? text =
      let values := text.toList.filterMap (alphabet.idxOf? ·)
      if values.length = text.toList.length then
        some ((recode 58 256 values).map UInt8.ofNat)
      else none := by
  have zeros (values : List Nat) : (values.takeWhile (· = 0)).map (fun _ => (0 : UInt8)) =
      (values.takeWhile (· = 0)).map UInt8.ofNat := by
    refine List.map_congr_left fun digit member => ?_
    rw [zero_of_mem_takeWhile member]
    rfl
  simp only [decodeRaw?, recode, List.map_append, zeros, bytesOf_eq, List.append_nil]
  rfl

private theorem recode_lt {base base' : Nat} (large : 1 < base') {digits : List Nat} :
    ∀ digit ∈ recode base base' digits, digit < base' := by
  refine List.forall_mem_append.mpr ⟨fun digit member => ?_, fun digit member => ?_⟩
  · rw [zero_of_mem_takeWhile member]
    omega
  · exact Nat.digits_lt_base large (List.mem_reverse.mp member)

private theorem map_toNat_ofNat {digits : List Nat} (small : ∀ digit ∈ digits, digit < 256) :
    (digits.map UInt8.ofNat).map UInt8.toNat = digits := by
  rw [List.map_map]
  refine (List.map_congr_left fun digit member => ?_).trans (List.map_id digits)
  exact UInt8.toNat_ofNat_of_lt' (small digit member)

/-- A byte string is read exactly from the text that spells it. -/
theorem decodeRaw?_eq_some_iff {text : String} {bytes : Bytes} :
    decodeRaw? text = some bytes ↔ encodeRaw bytes = text := by
  have nodup : alphabet.Nodup := by decide
  have count : alphabet.length = 58 := by decide
  rw [decodeRaw?_eq]
  constructor
  · intro read
    simp only [Option.ite_none_right_eq_some, Option.some.injEq] at read
    obtain ⟨all, rfl⟩ := read
    obtain ⟨small, spelled⟩ := map_filterMap_idxOf? nodup '1' all
    rw [count] at small
    rw [encodeRaw_eq, map_toNat_ofNat (recode_lt (by decide)), recode_recode (by decide) small,
      spelled, String.ofList_toList]
  · rintro rfl
    have small : ∀ digit ∈ recode 256 58 (bytes.map UInt8.toNat), digit < alphabet.length :=
      recode_lt (by decide)
    have byte : ∀ digit ∈ bytes.map UInt8.toNat, digit < 256 := by
      intro digit member
      obtain ⟨b, _, rfl⟩ := List.mem_map.mp member
      exact b.toNat_lt
    have whole : (bytes.map UInt8.toNat).map UInt8.ofNat = bytes := by
      simp [List.map_map, Function.comp_def]
    simp only [encodeRaw_eq, String.toList_ofList, filterMap_idxOf?_map nodup '1' small,
      List.length_map, ↓reduceIte, recode_recode (by decide : 1 < 256) byte, whole]

end Raw

theorem length_checksum (payload : Bytes) : (checksum payload).length = 4 := by
  rw [checksum, List.length_take, Sha256.length_doubleHash]
  rfl

/-- A payload is read exactly from the text that spells it with its checksum. -/
theorem decode?_eq_some_iff {text : String} {payload : Bytes} :
    decode? text = some payload ↔ encode payload = text := by
  have four := length_checksum payload
  unfold decode? encode
  constructor
  · intro read
    split at read
    · cases read
    · rename_i bytes raw
      simp only [Bool.and_eq_true, decide_eq_true_eq, Option.ite_none_right_eq_some,
        Option.some.injEq] at read
      obtain ⟨⟨_, checked⟩, rfl⟩ := read
      rw [← checked, List.take_append_drop]
      exact decodeRaw?_eq_some_iff.mp raw
  · intro written
    have front : (payload ++ checksum payload).length - 4 = payload.length := by
      rw [List.length_append, four, Nat.add_sub_cancel]
    have enough : 4 ≤ (payload ++ checksum payload).length := by
      rw [List.length_append, four]
      exact Nat.le_add_left _ _
    rw [decodeRaw?_eq_some_iff.mpr written]
    simp only [front, List.take_left', List.drop_left', enough, decide_true, Bool.and_self,
      ↓reduceIte]

end Custody.Base58
