import Custody.Proofs.Text.Ascii
import Custody.Text.Hex

/-! # Hexadecimal text is exact

A text is read exactly when it is an even number of hexadecimal digits, and gives one byte for two
digits. What is written for some bytes is read as those bytes.
-/

namespace Custody

namespace Hex

private theorem isHexDigit_eq : ∀ c : Char, c.toNat < 128 →
    c.isHexDigit = (value? (UInt8.ofNat c.toNat)).isSome :=
  Ascii.forall_of_lt (by decide)

private theorem value?_of_le {b : UInt8} (high : 128 ≤ b) : value? b = none := by
  rw [UInt8.le_iff_toNat_le] at high
  simp only [value?, Bool.and_eq_true, decide_eq_true_eq, UInt8.le_iff_toNat_le,
    UInt8.reduceToNat] at high ⊢
  repeat rw [if_neg (by omega)]

theorem toNat_lt_of_isHexDigit {c : Char} (digit : c.isHexDigit = true) :
    c.toNat < 128 := by
  simp only [Char.isHexDigit, Char.isDigit, Bool.or_eq_true, Bool.and_eq_true, decide_eq_true_eq,
    ge_iff_le, UInt32.le_iff_toNat_le, Char.reduceVal, UInt32.reduceToNat] at digit
  change c.val.toNat < 128
  omega

private theorem utf8Size_of_isHexDigit {c : Char} (digit : c.isHexDigit = true) :
    c.utf8Size = 1 :=
  Ascii.utf8Size_eq_one_iff.mpr (toNat_lt_of_isHexDigit digit)

/-- The bytes of a character are digits exactly when the character is one. -/
theorem isHexDigit_iff (c : Char) :
    c.isHexDigit = true ↔ ∀ b ∈ String.utf8EncodeChar c, (value? b).isSome = true := by
  by_cases ascii : c.toNat < 128
  · rw [isHexDigit_eq c ascii,
      String.utf8EncodeChar_eq_singleton (Ascii.utf8Size_eq_one_iff.mpr ascii),
      List.forall_mem_singleton]
    rfl
  · refine ⟨fun digit => absurd (toNat_lt_of_isHexDigit digit) ascii, fun all => ?_⟩
    obtain ⟨b, member⟩ := List.exists_mem_of_length_pos
      (String.length_utf8EncodeChar c ▸ c.utf8Size_pos)
    have digit := all b member
    rw [value?_of_le (Ascii.le_of_mem_utf8EncodeChar ascii b member)] at digit
    cases digit

private theorem decodePairs_eq_ok {position : Nat} {spelled done bytes : Bytes}
    (even : spelled.length % 2 = 0) (read : decodePairs position spelled done = .ok bytes) :
    (∀ b ∈ spelled, (value? b).isSome = true) ∧
      2 * bytes.length = 2 * done.length + spelled.length := by
  fun_induction decodePairs position spelled done with
  | case1 | case2 => cases read
  | case3 position high low rest done h highDigit l lowDigit ih =>
    simp only [List.length_cons] at even ih ⊢
    obtain ⟨digits, length⟩ := ih (by omega) read
    refine ⟨?_, by omega⟩
    simp only [List.forall_mem_cons, highDigit, lowDigit, Option.isSome_some, true_and]
    exact digits
  | case4 spelled done position short =>
    cases read
    cases spelled with
    | nil => simp
    | cons high rest =>
      cases rest with
      | nil => simp at even
      | cons low rest => exact (short high low rest rfl).elim

private theorem decodePairs_isOk (position : Nat) (done : Bytes) {spelled : Bytes}
    (digits : ∀ b ∈ spelled, (value? b).isSome = true) :
    ∃ bytes, decodePairs position spelled done = .ok bytes := by
  fun_induction decodePairs position spelled done with
  | case1 => simp_all
  | case2 => simp_all
  | case3 position high low rest done h highDigit l lowDigit ih =>
    exact ih fun b member => digits b (List.mem_cons_of_mem _ (List.mem_cons_of_mem _ member))
  | case4 => exact ⟨_, rfl⟩

private theorem value?_digit : ∀ n < 16, value? (digit n).val.toUInt8 = some (UInt8.ofNat n) := by
  decide

private theorem utf8Size_digit : ∀ n < 16, (digit n).utf8Size = 1 := by
  decide

private theorem decodePairs_digits (position : Nat) (bytes done : Bytes) :
    decodePairs position (bytes.flatMap fun b => [(digit (b.toNat / 16)).val.toUInt8,
      (digit (b.toNat % 16)).val.toUInt8]) done = .ok (done.reverse ++ bytes) := by
  induction bytes generalizing position done with
  | nil => simp [decodePairs]
  | cons b bytes ih =>
    have byte := b.toNat_lt
    have high := value?_digit (b.toNat / 16) (by omega)
    have low := value?_digit (b.toNat % 16) (by omega)
    have whole : 16 * UInt8.ofNat (b.toNat / 16) + UInt8.ofNat (b.toNat % 16) = b := by
      apply UInt8.toNat_inj.mp
      simp only [UInt8.toNat_add, UInt8.toNat_mul, UInt8.toNat_ofNat', UInt8.reduceToNat,
        Nat.reducePow]
      omega
    simp only [List.flatMap_cons, List.cons_append, List.nil_append, decodePairs, high, low, whole,
      ih, List.reverse_cons, List.append_assoc]

/-- What holds of all digits holds of the characters of a written text. -/
theorem forall_mem_encode {holds : Char → Prop} (digits : ∀ n < 16, holds (digit n))
    (bytes : Bytes) : ∀ c ∈ (encode bytes).toList, holds c := by
  intro c member
  simp only [encode, String.toList_ofList, List.mem_flatMap, List.mem_cons, List.not_mem_nil,
    or_false] at member
  obtain ⟨b, _, rfl | rfl⟩ := member
  · exact digits _ (by have byte := b.toNat_lt; omega)
  · exact digits _ (by omega)

theorem ofText_encode (bytes : Bytes) :
    Bytes.ofText (encode bytes) = bytes.flatMap fun b =>
      [(digit (b.toNat / 16)).val.toUInt8, (digit (b.toNat % 16)).val.toUInt8] := by
  rw [Bytes.ofText_of_ascii (forall_mem_encode utf8Size_digit bytes), encode, String.toList_ofList,
    List.map_flatMap]
  rfl

theorem length_ofText_encode (bytes : Bytes) :
    (Bytes.ofText (encode bytes)).length = 2 * bytes.length := by
  rw [ofText_encode, List.length_flatMap]
  simp [List.map_const', Nat.mul_comm]

theorem decodePairs_encode (position : Nat) (bytes done : Bytes) :
    decodePairs position (Bytes.ofText (encode bytes)) done = .ok (done.reverse ++ bytes) := by
  rw [ofText_encode, decodePairs_digits]

/-- What is written for some bytes is read as those bytes. -/
theorem decode_encode (bytes : Bytes) : decode (encode bytes) = .ok bytes := by
  have even : (Bytes.ofText (encode bytes)).length % 2 ≠ 1 := by
    rw [length_ofText_encode]
    omega
  rw [decode, if_neg even, decodePairs_encode, List.reverse_nil, List.nil_append]

/-- Texts of hexadecimal digits, two for each byte, are read, and no other texts. -/
theorem exists_decode_iff {text : String} {size : Nat} :
    (∃ bytes, decode text = .ok bytes ∧ bytes.length = size) ↔
      text.length = 2 * size ∧ ∀ c ∈ text.toList, c.isHexDigit = true := by
  have spelled (digits : ∀ c ∈ text.toList, c.isHexDigit = true) :
      (Bytes.ofText text).length = text.length := by
    rw [Bytes.ofText_of_ascii fun c member => utf8Size_of_isHexDigit (digits c member),
      List.length_map, String.length_toList]
  have all : (∀ c ∈ text.toList, c.isHexDigit = true) ↔
      ∀ b ∈ Bytes.ofText text, (value? b).isSome = true := by
    simp only [isHexDigit_iff, Bytes.ofText_eq_flatMap, List.mem_flatMap, forall_exists_index,
      and_imp]
    exact ⟨fun digits b c member held => digits c member b held,
      fun digits c member b held => digits b c member held⟩
  unfold decode
  constructor
  · rintro ⟨bytes, read, rfl⟩
    dsimp only at read
    split at read
    · cases read
    · rename_i even
      obtain ⟨digits, length⟩ := decodePairs_eq_ok (by omega) read
      rw [← all] at digits
      rw [spelled digits, List.length_nil] at length
      exact ⟨by omega, digits⟩
  · rintro ⟨length, digits⟩
    have even := spelled digits
    rw [length] at even
    obtain ⟨bytes, read⟩ := decodePairs_isOk 0 [] (all.mp digits)
    obtain ⟨_, size'⟩ := decodePairs_eq_ok (by omega) read
    rw [if_neg (by omega)]
    refine ⟨bytes, read, ?_⟩
    rw [even, List.length_nil] at size'
    omega

/-- Bytes with the values of other bytes spell what those spell. -/
theorem decodePairs_congr {position : Nat} {spelled spelled' done bytes : Bytes}
    (same : spelled.map value? = spelled'.map value?)
    (read : decodePairs position spelled done = .ok bytes) :
    decodePairs position spelled' done = .ok bytes := by
  fun_induction decodePairs position spelled done generalizing spelled' with
  | case1 | case2 => cases read
  | case3 position high low rest done h highDigit l lowDigit ih =>
    match spelled' with
    | [] => simp at same
    | [_] => simp at same
    | high' :: low' :: rest' =>
      simp only [List.map_cons, List.cons.injEq, highDigit, lowDigit] at same
      obtain ⟨highSame, lowSame, restSame⟩ := same
      simp only [decodePairs, ← highSame, ← lowSame]
      exact ih restSame read
  | case4 spelled done position short =>
    cases read
    have size := congrArg List.length same
    match spelled, spelled' with
    | [], [] | [_], [_] => rfl
    | _ :: _ :: _, _ => exact (short _ _ _ rfl).elim

private theorem toLower_ascii : ∀ c : Char, c.toNat < 128 →
    (c.toLower.isHexDigit = true → c.isHexDigit = true) ∧
      value? c.toLower.val.toUInt8 = value? c.val.toUInt8 :=
  Ascii.forall_of_lt (by decide)

private theorem isHexDigit_of_toLower {c : Char} (digit : c.toLower.isHexDigit = true) :
    c.isHexDigit = true := by
  by_cases ascii : c.toNat < 128
  · exact (toLower_ascii c ascii).1 digit
  · rwa [Ascii.toLower_of_wide ascii] at digit

/-- What is written for some bytes is read as those bytes with its letters in either case. -/
theorem decode_of_toLower {text : String} {bytes : Bytes} (same : text.toLower = encode bytes) :
    decode text = .ok bytes := by
  have letters : (encode bytes).toList = text.toList.map Char.toLower := by
    rw [← same]
    exact String.toList_map
  have written : ∀ c ∈ (encode bytes).toList, c.isHexDigit = true := by
    have digits : ∀ n < 16, (digit n).isHexDigit = true := by decide
    exact forall_mem_encode digits bytes
  have digits : ∀ c ∈ text.toList, c.isHexDigit = true := by
    intro c member
    exact isHexDigit_of_toLower (written _ (letters ▸ List.mem_map_of_mem member))
  have spelled := Bytes.ofText_of_ascii fun c member => utf8Size_of_isHexDigit (digits c member)
  have spelled' := Bytes.ofText_of_ascii fun c member => utf8Size_of_isHexDigit (written c member)
  rw [letters, List.map_map] at spelled'
  have values : (Bytes.ofText (encode bytes)).map value? = (Bytes.ofText text).map value? := by
    rw [spelled, spelled', List.map_map, List.map_map]
    refine List.map_congr_left fun c member => ?_
    exact (toLower_ascii c (toNat_lt_of_isHexDigit (digits c member))).2
  have size := congrArg List.length values
  simp only [List.length_map] at size
  have read := decode_encode bytes
  unfold decode at read ⊢
  dsimp only at read ⊢
  rw [size] at read
  split
  · rename_i odd
    rw [if_pos odd] at read
    cases read
  · rename_i even
    rw [if_neg even] at read
    exact decodePairs_congr values read

/-- The digits in which bytes are written. -/
def lowerDigits : List Char := "0123456789abcdef".toList

private theorem lowerDigits_eq : lowerDigits = (List.range 16).map digit := by
  decide

private theorem digit_mem (n : Nat) (small : n < 16) : digit n ∈ lowerDigits := by
  rw [lowerDigits_eq]
  exact List.mem_map_of_mem (List.mem_range.mpr small)

private theorem exists_digit (c : Char) (member : c ∈ lowerDigits) : ∃ n < 16, digit n = c := by
  rw [lowerDigits_eq] at member
  obtain ⟨n, small, rfl⟩ := List.mem_map.mp member
  exact ⟨n, List.mem_range.mp small, rfl⟩

private theorem isUpper_digit :
    ∀ n < 16, (digit n).isHexDigit = true ∧ (digit n).isUpper = false := by
  decide

private theorem mem_lowerDigits_ascii : ∀ c : Char, c.toNat < 128 →
    c.isHexDigit = true → c.isUpper = false → c ∈ lowerDigits :=
  Ascii.forall_of_lt (by decide)

/-- The digits that are written are those without capital letters. -/
theorem mem_lowerDigits_iff (c : Char) :
    c ∈ lowerDigits ↔ c.isHexDigit = true ∧ c.isUpper = false := by
  constructor
  · intro member
    obtain ⟨n, small, rfl⟩ := exists_digit c member
    exact isUpper_digit n small
  · rintro ⟨digit, lower⟩
    exact mem_lowerDigits_ascii c (toNat_lt_of_isHexDigit digit) digit lower

private theorem toLower_mem_lowerDigits_ascii : ∀ c : Char, c.toNat < 128 →
    c.isHexDigit = true → c.toLower ∈ lowerDigits :=
  Ascii.forall_of_lt (by decide)

/-- A digit of either case is one that is written when it is put in lower case. -/
theorem toLower_mem_lowerDigits {c : Char} (digit : c.isHexDigit = true) :
    c.toLower ∈ lowerDigits :=
  toLower_mem_lowerDigits_ascii c (toNat_lt_of_isHexDigit digit) digit

private theorem exists_flatMap_digits {size : Nat} {cs : List Char} (length : cs.length = 2 * size)
    (digits : ∀ c ∈ cs, c ∈ lowerDigits) :
    ∃ bytes : Bytes, bytes.length = size ∧
      (bytes.flatMap fun b => [digit (b.toNat / 16), digit (b.toNat % 16)]) = cs := by
  induction size generalizing cs with
  | zero => exact ⟨[], rfl, (List.length_eq_zero_iff.mp length).symm⟩
  | succ size ih =>
    obtain ⟨a, b, rest, rfl⟩ : ∃ a b rest, cs = a :: b :: rest := by
      match cs with
      | [] | [_] => simp only [List.length_nil, List.length_cons] at length; omega
      | a :: b :: rest => exact ⟨a, b, rest, rfl⟩
    simp only [List.forall_mem_cons] at digits
    obtain ⟨first, second, later⟩ := digits
    obtain ⟨high, highSmall, rfl⟩ := exists_digit a first
    obtain ⟨low, lowSmall, rfl⟩ := exists_digit b second
    obtain ⟨bytes, counted, spelled⟩ :=
      ih (by simp only [List.length_cons] at length; omega) later
    have value : (UInt8.ofNat (16 * high + low)).toNat = 16 * high + low := by
      rw [UInt8.toNat_ofNat', Nat.mod_eq_of_lt (by omega)]
    have upper : (16 * high + low) / 16 = high := by omega
    have lower : (16 * high + low) % 16 = low := by omega
    refine ⟨UInt8.ofNat (16 * high + low) :: bytes, congrArg (· + 1) counted, ?_⟩
    rw [List.flatMap_cons, value, upper, lower, spelled]
    rfl

@[simp] theorem length_encode (bytes : Bytes) : (encode bytes).length = 2 * bytes.length := by
  rw [encode, String.length_ofList, List.length_flatMap]
  simp [List.map_const', Nat.mul_comm]

/-- Texts of lowercase digits, two for each byte, are what is written for some bytes. -/
theorem exists_encode_iff {text : String} {size : Nat} :
    (∃ bytes, encode bytes = text ∧ bytes.length = size) ↔
      text.length = 2 * size ∧ ∀ c ∈ text.toList, c ∈ lowerDigits := by
  constructor
  · rintro ⟨bytes, rfl, rfl⟩
    exact ⟨length_encode bytes, forall_mem_encode digit_mem bytes⟩
  · rintro ⟨length, digits⟩
    rw [← String.length_toList] at length
    obtain ⟨bytes, counted, spelled⟩ := exists_flatMap_digits length digits
    exact ⟨bytes, by rw [encode, spelled, String.ofList_toList], counted⟩

end Hex

end Custody
