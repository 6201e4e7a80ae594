import Custody.Bytes

/-! # ASCII characters

A character is ASCII if its code is below 128. It is then its one byte in UTF-8; all bytes of other
characters are at least 128. Only ASCII letters have another case.
-/

namespace Custody

namespace Bytes

theorem ofText_eq_flatMap (text : String) :
    ofText text = text.toList.flatMap String.utf8EncodeChar := by
  rw [ofText, ← String.utf8Encode_toList, List.utf8Encode, List.data_toByteArray]

theorem ofText_append (a b : String) : ofText (a ++ b) = ofText a ++ ofText b := by
  simp only [ofText_eq_flatMap, String.toList_append, List.flatMap_append]

/-- A text of characters that take one byte has the codes of its characters as bytes. -/
theorem ofText_of_ascii {text : String} (ascii : ∀ c ∈ text.toList, c.utf8Size = 1) :
    ofText text = text.toList.map fun c => c.val.toUInt8 := by
  rw [ofText_eq_flatMap]
  generalize text.toList = cs at ascii
  induction cs with
  | nil => rfl
  | cons c cs ih =>
    obtain ⟨here, later⟩ := List.forall_mem_cons.mp ascii
    rw [List.flatMap_cons, String.utf8EncodeChar_eq_singleton here, ih later]
    rfl

end Bytes

namespace Ascii

/-- What holds of the ASCII characters one by one holds of every one of them. -/
theorem forall_of_lt {holds : Char → Prop} (each : ∀ n < 128, holds (Char.ofNat n)) :
    ∀ c : Char, c.toNat < 128 → holds c := by
  intro c ascii
  simpa only [Char.ofNat_toNat] using each c.toNat ascii

theorem utf8Size_eq_one_iff {c : Char} : c.utf8Size = 1 ↔ c.toNat < 128 := by
  rw [Char.utf8Size_eq_one_iff, UInt32.le_iff_toNat_le]
  exact Nat.lt_succ_iff.symm

/-- A text of characters that take one byte has as many bytes as characters. -/
theorem utf8ByteSize_ofList {cs : List Char} (ascii : ∀ c ∈ cs, c.utf8Size = 1) :
    (String.ofList cs).utf8ByteSize = cs.length := by
  induction cs with
  | nil => rfl
  | cons c cs ih =>
    obtain ⟨here, later⟩ := List.forall_mem_cons.mp ascii
    rw [String.ofList_cons, String.utf8ByteSize_append, String.utf8ByteSize_singleton, here,
      ih later, List.length_cons, Nat.add_comm]

private theorem le_or {a b : UInt8} (high : 128 ≤ b) : 128 ≤ a ||| b := by
  rw [UInt8.le_iff_toNat_le] at high ⊢
  rw [UInt8.toNat_or]
  exact Nat.le_trans high Nat.right_le_or

theorem le_of_mem_utf8EncodeChar {c : Char} (wide : ¬ c.toNat < 128) :
    ∀ b ∈ String.utf8EncodeChar c, 128 ≤ b := by
  rcases c.utf8Size_eq with one | two | three | four
  · exact absurd (utf8Size_eq_one_iff.mp one) wide
  · rw [String.utf8EncodeChar_eq_cons_cons two]
    simp [le_or]
  · rw [String.utf8EncodeChar_eq_cons_cons_cons three]
    simp [le_or]
  · rw [String.utf8EncodeChar_eq_cons_cons_cons_cons four]
    simp [le_or]

theorem toLower_of_wide {c : Char} (wide : ¬ c.toNat < 128) : c.toLower = c := by
  refine dif_neg ?_
  rintro ⟨_, below⟩
  rw [UInt32.le_iff_toNat_le] at below
  exact wide (Nat.lt_of_le_of_lt below (by decide))

/-- A text without capital letters is in lower case. -/
theorem toLower_eq_self {text : String} (small : ∀ c ∈ text.toList, c.toLower = c) :
    text.toLower = text := by
  have letters : text.toLower.toList = text.toList.map Char.toLower := String.toList_map
  rw [← String.toList_inj, letters, List.map_congr_left small, List.map_id']

end Ascii

end Custody
