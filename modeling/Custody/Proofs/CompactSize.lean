import Custody.CompactSize
import Custody.Proofs.Bytes

/-! # Counts and lengths are read exactly

Every count below `2⁶⁴` has one form that is read, the shortest, and the same holds for byte strings
behind their lengths.
-/

namespace Custody.CompactSize

open Bytes

theorem decodeWide?_eq_some_iff {width least n : Nat} {bytes rest : Bytes} :
    decodeWide? width least bytes = some (n, rest) ↔
      least ≤ n ∧ n < 256 ^ width ∧ bytes = ofNatLE width n ++ rest := by
  constructor
  · intro read
    unfold decodeWide? at read
    split at read
    · simp at read
    · rename_i digits after split
      obtain ⟨rfl, rfl⟩ := split?_eq_some_iff.mp split
      simp only [Option.ite_none_right_eq_some, Option.some.injEq, Prod.mk.injEq] at read
      obtain ⟨enough, rfl, rfl⟩ := read
      exact ⟨enough, toNatLE_lt digits, by rw [ofNatLE_toNatLE]⟩
  · rintro ⟨enough, fits, rfl⟩
    simp only [decodeWide?, split?_append (length_ofNatLE width n), toNatLE_ofNatLE fits, enough,
      ↓reduceIte]

private theorem decode?_two (tail : Bytes) : decode? (0xFD :: tail) = decodeWide? 2 0xFD tail := rfl

private theorem decode?_four (tail : Bytes) :
    decode? (0xFE :: tail) = decodeWide? 4 0x10000 tail := rfl

private theorem decode?_eight (tail : Bytes) :
    decode? (0xFF :: tail) = decodeWide? 8 0x100000000 tail := rfl

private theorem decode?_encode {n : Nat} (fits : n < 2 ^ 64) (rest : Bytes) :
    decode? (encode n ++ rest) = some (n, rest) := by
  unfold encode
  by_cases direct : n < 0xFD
  · have value : (UInt8.ofNat n).toNat = n := by
      simp only [UInt8.toNat_ofNat', Nat.reducePow]; omega
    have marker (m : UInt8) (large : 0xFD ≤ m.toNat) : ¬ UInt8.ofNat n = m := by
      rintro rfl
      omega
    simp only [direct, List.singleton_append, decode?, marker 0xFD (by decide),
      marker 0xFE (by decide), marker 0xFF (by decide), ↓reduceIte, value]
  · by_cases two : n < 0x10000
    · rw [if_neg direct, if_pos two, List.cons_append, decode?_two, decodeWide?_eq_some_iff]
      exact ⟨by omega, by omega, rfl⟩
    · by_cases four : n < 0x100000000
      · rw [if_neg direct, if_neg two, if_pos four, List.cons_append, decode?_four,
          decodeWide?_eq_some_iff]
        exact ⟨by omega, by omega, rfl⟩
      · rw [if_neg direct, if_neg two, if_neg four, if_pos (by omega), List.cons_append,
          decode?_eight, decodeWide?_eq_some_iff]
        exact ⟨by omega, by omega, rfl⟩

private theorem encode_of_decode? {n : Nat} {bytes rest : Bytes}
    (read : decode? bytes = some (n, rest)) : n < 2 ^ 64 ∧ bytes = encode n ++ rest := by
  cases bytes with
  | nil => simp [decode?] at read
  | cons b tail =>
    simp only [decode?] at read
    unfold encode
    split at read
    · obtain ⟨enough, fits, rfl⟩ := decodeWide?_eq_some_iff.mp read
      subst b
      rw [if_neg (by omega), if_pos (by omega)]
      exact ⟨by omega, rfl⟩
    · split at read
      · obtain ⟨enough, fits, rfl⟩ := decodeWide?_eq_some_iff.mp read
        subst b
        rw [if_neg (by omega), if_neg (by omega), if_pos (by omega)]
        exact ⟨by omega, rfl⟩
      · split at read
        · obtain ⟨enough, fits, rfl⟩ := decodeWide?_eq_some_iff.mp read
          subst b
          rw [if_neg (by omega), if_neg (by omega), if_neg (by omega), if_pos (by omega)]
          exact ⟨by omega, rfl⟩
        · rename_i notTwo notFour notEight
          simp only [Option.some.injEq, Prod.mk.injEq] at read
          obtain ⟨rfl, rfl⟩ := read
          have small : b.toNat < 0xFD := by
            have byte := b.toNat_lt
            have apart {m : UInt8} (other : ¬ b = m) : b.toNat ≠ m.toNat :=
              fun same => other (UInt8.toNat_inj.mp same)
            have two := apart notTwo
            have four := apart notFour
            have eight := apart notEight
            simp only [UInt8.reduceToNat] at two four eight
            omega
          rw [if_pos small, UInt8.ofNat_toNat]
          exact ⟨by omega, rfl⟩

/-- Counts below `2⁶⁴` are read exactly. -/
theorem reads_decode : Reads decode? (· < 2 ^ 64) encode := by
  intro bytes n rest
  constructor
  · exact encode_of_decode?
  · rintro ⟨fits, rfl⟩
    exact decode?_encode fits rest

/-- Nothing is read where a count of `2⁶⁴` or more is written. -/
theorem decode?_encode_of_large {n : Nat} (large : 2 ^ 64 ≤ n) (rest : Bytes) :
    decode? (encode n ++ rest) = none := by
  have form : encode n = 0xFF :: ofNatLE 8 0 := by
    unfold encode
    rw [if_neg (by omega), if_neg (by omega), if_neg (by omega), if_neg (by omega)]
  rw [form, List.cons_append, decode?_eight, decodeWide?, split?_append (length_ofNatLE 8 0)]
  rfl

/-- Byte strings behind their lengths are read exactly. -/
theorem reads_readSized : Reads readSized? (·.length < 2 ^ 64) sized := by
  intro bytes taken rest
  unfold readSized? sized
  constructor
  · intro read
    split at read
    · simp at read
    · rename_i decoded
      obtain ⟨fits, rfl⟩ := (reads_decode _ _ _).mp decoded
      obtain ⟨rfl, rfl⟩ := split?_eq_some_iff.mp read
      exact ⟨fits, (List.append_assoc ..).symm⟩
  · rintro ⟨fits, rfl⟩
    simp only [List.append_assoc, reads_decode.read_append fits, split?_append rfl]

@[simp] theorem length_sized (bytes : Bytes) :
    (sized bytes).length = size bytes.length + bytes.length := by
  rw [sized, List.length_append, length_encode]

theorem size_mono {m n : Nat} (atMost : m ≤ n) : size m ≤ size n := by
  unfold size
  repeat' split
  all_goals omega

/-- A byte string of any length is known from what is written with its length. -/
theorem sized_inj {a b : Bytes} : sized a = sized b ↔ a = b := by
  refine ⟨fun same => ?_, congrArg sized⟩
  have length := congrArg List.length same
  rw [length_sized, length_sized] at length
  have lengths : a.length = b.length := by
    rcases Nat.le_total a.length b.length with atMost | atMost
    · have := size_mono atMost
      omega
    · have := size_mono atMost
      omega
  rw [sized, sized, lengths] at same
  exact List.append_cancel_left same

/-- A byte string behind its length is told from any short one, also where it is too long to be
read itself. -/
theorem sized_append_inj {a b after after' : Bytes} (short : b.length < 2 ^ 64)
    (same : sized a ++ after = sized b ++ after') : a = b ∧ after = after' := by
  have fits : a.length < 2 ^ 64 := by
    by_contra large
    have none := decode?_encode_of_large (Nat.not_lt.mp large) (a ++ after)
    rw [← List.append_assoc, ← sized, same, sized, List.append_assoc,
      reads_decode.read_append short] at none
    cases none
  exact reads_readSized.append_inj fits short same

theorem size_le (n : Nat) : size n ≤ 9 := by
  unfold size
  repeat' split
  all_goals decide

theorem size_pos (n : Nat) : 0 < size n := by
  unfold size
  repeat' split
  all_goals decide

/-- The bytes of a form beyond the first. -/
def extra (n : Nat) : Nat :=
  if n < 0xFD then 0 else if n < 0x10000 then 2 else if n < 0x100000000 then 4 else 8

theorem size_eq_extra_add_one (n : Nat) : size n = extra n + 1 := by
  unfold size extra
  repeat' split
  all_goals rfl

theorem extra_le (n : Nat) : extra n ≤ 8 := by
  have most := size_le n
  rw [size_eq_extra_add_one] at most
  exact Nat.le_of_succ_le_succ most

end Custody.CompactSize
