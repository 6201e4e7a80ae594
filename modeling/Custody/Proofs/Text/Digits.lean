import Custody.Bytes
import Mathlib.Data.Nat.Digits.Lemmas

/-! # Digits and the numbers that they spell

Digits are listed most significant first. Digits of one length are known from their number; and
characters are read as digits of an alphabet exactly when they are the characters of the digits.
-/

namespace Custody.Digits

/-- The number that digits spell, most significant first. -/
def value (base : Nat) (digits : List Nat) : Nat :=
  digits.foldl (fun n digit => base * n + digit) 0

@[simp] theorem value_nil (base : Nat) : value base [] = 0 := rfl

theorem value_eq_ofDigits (base : Nat) (digits : List Nat) :
    value base digits = Nat.ofDigits base digits.reverse := by
  rw [value, Nat.ofDigits_eq_foldr, List.foldr_reverse]
  simp only [Nat.cast_id, Nat.add_comm]

theorem value_append (base : Nat) (high low : List Nat) :
    value base (high ++ low) = base ^ low.length * value base high + value base low := by
  simp only [value_eq_ofDigits, List.reverse_append, Nat.ofDigits_append, List.length_reverse]
  exact Nat.add_comm ..

theorem value_cons (base digit : Nat) (digits : List Nat) :
    value base (digit :: digits) = base ^ digits.length * digit + value base digits := by
  rw [← List.singleton_append, value_append]
  simp [value]

/-- Two digits in front count as one that is as large as they are together. -/
theorem value_cons_cons (base first second : Nat) (digits : List Nat) :
    value base (first :: second :: digits) = value base ((base * first + second) :: digits) := by
  simp [value]

/-- Digits of the same length that spell the same number are the same. -/
theorem value_inj {base : Nat} (large : 1 < base) {a b : List Nat} (length : a.length = b.length)
    (smallA : ∀ digit ∈ a, digit < base) (smallB : ∀ digit ∈ b, digit < base)
    (same : value base a = value base b) : a = b := by
  rw [value_eq_ofDigits, value_eq_ofDigits] at same
  refine List.reverse_injective (Nat.ofDigits_inj_of_len_eq large ?_ ?_ ?_ same)
  · rw [List.length_reverse, List.length_reverse, length]
  · exact fun digit member => smallA digit (List.mem_reverse.mp member)
  · exact fun digit member => smallB digit (List.mem_reverse.mp member)

theorem toNatBE_eq_value (bytes : Bytes) :
    Bytes.toNatBE bytes = value 256 (bytes.map UInt8.toNat) := by
  rw [value, List.foldl_map, Bytes.toNatBE]

section Alphabet

variable {alphabet : List Char} (nodup : alphabet.Nodup) (default : Char)
include nodup

private theorem idxOf?_eq_some_iff {c : Char} {digit : Nat} :
    alphabet.idxOf? c = some digit ↔
      digit < alphabet.length ∧ alphabet.getD digit default = c := by
  rw [List.idxOf?_eq_some_iff, List.getD_eq_getElem?_getD]
  constructor
  · rintro ⟨small, here, _⟩
    exact ⟨small, by rw [List.getElem?_eq_getElem small, Option.getD_some, here]⟩
  · rintro ⟨small, here⟩
    rw [List.getElem?_eq_getElem small, Option.getD_some] at here
    refine ⟨small, here, fun earlier before same => ?_⟩
    have equal := nodup.getElem_inj_iff.mp (same.trans here.symm)
    omega

/-- The characters of digits are read as the digits. -/
theorem filterMap_idxOf?_map {digits : List Nat}
    (small : ∀ digit ∈ digits, digit < alphabet.length) :
    (digits.map (alphabet.getD · default)).filterMap (alphabet.idxOf? ·) = digits := by
  rw [List.filterMap_map]
  refine (List.filterMap_eq_map_iff_forall_eq_some.mpr fun digit member => ?_).trans
    (List.map_id digits)
  exact (idxOf?_eq_some_iff nodup default).mpr ⟨small digit member, rfl⟩

/-- Characters that are all read as digits are the characters of the digits. -/
theorem map_filterMap_idxOf? {cs : List Char}
    (all : (cs.filterMap (alphabet.idxOf? ·)).length = cs.length) :
    (∀ digit ∈ cs.filterMap (alphabet.idxOf? ·), digit < alphabet.length) ∧
      (cs.filterMap (alphabet.idxOf? ·)).map (alphabet.getD · default) = cs := by
  constructor
  · intro digit member
    obtain ⟨c, _, read⟩ := List.mem_filterMap.mp member
    exact ((idxOf?_eq_some_iff nodup default).mp read).1
  · rw [List.map_filterMap]
    refine (List.filterMap_eq_map_iff_forall_eq_some.mpr fun c member => ?_).trans (List.map_id cs)
    obtain ⟨digit, read⟩ :=
      Option.isSome_iff_exists.mp (List.filterMap_length_eq_length.mp all c member)
    rw [read, Option.map_some, ((idxOf?_eq_some_iff nodup default).mp read).2, id]

end Alphabet

end Custody.Digits
