import Custody.Json.Parser
import Mathlib.Algebra.Ring.Int.Defs
import Mathlib.Algebra.Ring.Nat
import Mathlib.Tactic.SplitIfs

/-! # Written texts and integers are read back

A text is written character by character, and each is read back from what is written for it,
whatever it is. The digits of an integer are read back as the integer if it fits 64 bits. Whatever
stands behind is left, unless it goes on with the number.
-/

namespace Custody.Json

section Text

private theorem hexValue4?_control :
    ∀ n < 32, hexValue4? '0' '0' (Hex.digit (n / 16)) (Hex.digit (n % 16)) = some n := by
  decide

/-- A character that stands for itself between quotes. -/
private theorem readCodes?_cons {c : Char} (quote : c ≠ '"') (backslash : c ≠ '\\')
    (control : ¬ c.toNat < 32) (rest : List Char) (done : List Nat) :
    readCodes? (c :: rest) done = readCodes? rest (c.toNat :: done) := by
  rw [readCodes?.eq_def]
  split
  · rename_i empty
    cases empty
  · rename_i same
    exact absurd (List.cons.inj same).1 quote
  · rename_i same
    exact absurd (List.cons.inj same).1 backslash
  · rename_i same
    exact absurd (List.cons.inj same).1 backslash
  · rename_i same
    obtain ⟨rfl, rfl⟩ := List.cons.inj same
    rw [if_neg control]

/-- What is written for a character is read as its code. -/
private theorem readCodes?_escape (c : Char) (rest : List Char) (done : List Nat) :
    readCodes? (escape c ++ rest) done = readCodes? rest (c.toNat :: done) := by
  have code {n : Nat} (known : c.toNat = n) : c = Char.ofNat n := by
    rw [← known, Char.ofNat_toNat]
  unfold escape
  split_ifs with quote backslash newline carriage tab backspace feed control
  · subst quote; rfl
  · subst backslash; rfl
  · subst newline; rfl
  · subst carriage; rfl
  · subst tab; rfl
  · rw [backspace]; rfl
  · rw [feed]; rfl
  · change readCodes? ('\\' :: 'u' :: '0' :: '0' :: Hex.digit (c.toNat / 16) ::
      Hex.digit (c.toNat % 16) :: rest) done = _
    rw [readCodes?, hexValue4?_control c.toNat control]
  · exact readCodes?_cons quote backslash control rest done

theorem readCodes?_flatMap_escape (cs rest : List Char) (done : List Nat) :
    readCodes? (cs.flatMap escape ++ '"' :: rest) done =
      some (done.reverse ++ cs.map Char.toNat, rest) := by
  induction cs generalizing done with
  | nil =>
    rw [List.flatMap_nil, List.nil_append, List.map_nil, List.append_nil]
    rfl
  | cons c cs ih =>
    rw [List.flatMap_cons, List.append_assoc, readCodes?_escape, ih, List.reverse_cons,
      List.append_assoc, List.map_cons, List.singleton_append]

/-- No character is half of a surrogate pair. -/
theorem joinSurrogates?_map_toNat (cs done : List Char) :
    joinSurrogates? (cs.map Char.toNat) done = some (done.reverse ++ cs) := by
  have whole (c : Char) : ¬ (0xD800 ≤ c.toNat ∧ c.toNat < 0xDC00) ∧
      ¬ (0xDC00 ≤ c.toNat ∧ c.toNat < 0xE000) ∧ ¬ (0xD800 ≤ c.toNat ∧ c.toNat < 0xE000) := by
    have valid : c.toNat < 0xD800 ∨ (0xDFFF < c.toNat ∧ c.toNat < 0x110000) := c.valid
    omega
  induction cs generalizing done with
  | nil => rw [List.map_nil, joinSurrogates?, List.append_nil]
  | cons c cs ih =>
    obtain ⟨high, low, single⟩ := whole c
    cases cs with
    | nil => simp [joinSurrogates?, single, Char.ofNat_toNat]
    | cons next cs =>
      rw [List.map_cons] at ih
      simp [joinSurrogates?, high, low, ih, Char.ofNat_toNat]

theorem readString?_flatMap_escape (text : String) (rest : List Char) :
    readString? (text.toList.flatMap escape ++ '"' :: rest) = some (some text, rest) := by
  simp only [readString?, readCodes?_flatMap_escape, joinSurrogates?_map_toNat, Option.map_some,
    List.reverse_nil, List.nil_append, String.ofList_toList]

theorem toList_quote (text : String) :
    (quote text).toList = '"' :: (text.toList.flatMap escape ++ ['"']) := by
  rw [quote, String.toList_ofList, List.cons_append]

end Text

section Integer

/-- Whether what stands behind a number does not go on with it. -/
def EndsNumber (rest : List Char) : Prop :=
  ∀ c ∈ rest.head?, c.isDigit = false ∧ c ≠ '.' ∧ c ≠ 'e' ∧ c ≠ 'E'

variable {rest : List Char}

private theorem takeDigits_append {digits : List Char} (all : ∀ c ∈ digits, c.isDigit = true)
    (other : ∀ c ∈ rest.head?, c.isDigit = false) :
    takeDigits (digits ++ rest) = (digits.map fun c => c.toNat - 48, rest) := by
  have stops : rest.takeWhile Char.isDigit = [] ∧ rest.dropWhile Char.isDigit = rest := by
    cases rest with
    | nil => exact ⟨rfl, rfl⟩
    | cons c rest => simp [other c rfl]
  rw [takeDigits, List.takeWhile_append_of_pos all, List.dropWhile_append_of_pos all, stops.1,
    stops.2, List.append_nil]

private theorem readFraction?_of_ends (ends : EndsNumber rest) :
    readFraction? rest = some (none, rest) := by
  unfold readFraction?
  split
  · exact absurd rfl (ends '.' rfl).2.1
  · rfl

private theorem readExponent?_of_ends (ends : EndsNumber rest) :
    readExponent? rest = some (none, rest) := by
  cases rest with
  | nil => rfl
  | cons c rest =>
    obtain ⟨_, _, lower, upper⟩ := ends c rfl
    simp [readExponent?, lower, upper]

/-- Digits are taken in as long as the number fits. -/
private theorem foldl_pushWhole {digits : List Nat} {start : Nat}
    (fits : digits.foldl (fun n digit => 10 * n + digit) start < UInt64.size) :
    digits.foldl Scaled.pushWhole ⟨start, 0, false⟩ =
      ⟨digits.foldl (fun n digit => 10 * n + digit) start, 0, false⟩ := by
  have grows (digits : List Nat) (start : Nat) :
      start ≤ digits.foldl (fun n digit => 10 * n + digit) start := by
    induction digits generalizing start with
    | nil => exact Nat.le_refl start
    | cons digit digits ih => exact Nat.le_trans (by omega) (ih (10 * start + digit))
  induction digits generalizing start with
  | nil => rfl
  | cons digit digits ih =>
    rw [List.foldl_cons] at fits ⊢
    have small : 10 * start + digit < UInt64.size := Nat.lt_of_le_of_lt (grows digits _) fits
    have taken : Scaled.pushWhole ⟨start, 0, false⟩ digit = ⟨10 * start + digit, 0, false⟩ := by
      simp [Scaled.pushWhole, small]
    rw [taken, ih fits, List.foldl_cons]

/-- The values of the digits of a number. -/
private def digitValues (n : Nat) : List Nat :=
  (Nat.toDigits 10 n).map fun c => c.toNat - 48

private theorem foldl_digitValues (n : Nat) :
    (digitValues n).foldl (fun n digit => 10 * n + digit) 0 = n := by
  rw [digitValues, List.foldl_map]
  exact Nat.ofDigitChars_ten_toDigits

private theorem digitValues_of_lt {n : Nat} (small : n < 10) : digitValues n = [n] := by
  rw [digitValues, Nat.toDigits_of_lt_base small, List.map_singleton,
    Nat.toNat_digitChar_sub_48_of_lt_ten small]

private theorem digitValues_of_le {n : Nat} (large : 10 ≤ n) :
    digitValues n = digitValues (n / 10) ++ [n % 10] := by
  have last : n % 10 < 10 := Nat.mod_lt n (by decide)
  rw [digitValues, Nat.toDigits_of_base_le (by decide) large, List.map_append, List.map_singleton,
    Nat.toNat_digitChar_sub_48_of_lt_ten last, digitValues]

/-- Only the number 0 begins with the digit 0. -/
private theorem eq_zero_of_head? {n : Nat} (zero : (digitValues n).head? = some 0) : n = 0 := by
  induction n using Nat.strongRecOn with
  | ind n ih =>
    by_cases small : n < 10
    · rw [digitValues_of_lt small] at zero
      exact Option.some.inj zero
    · have positive : 0 < n / 10 := by omega
      rw [digitValues_of_le (by omega), List.head?_append] at zero
      cases high : (digitValues (n / 10)).head? with
      | none =>
        rw [List.head?_eq_none_iff, digitValues, List.map_eq_nil_iff] at high
        exact absurd high Nat.toDigits_ne_nil
      | some digit =>
        rw [high, Option.some_or] at zero
        have none := ih (n / 10) (by omega) (high.trans zero)
        omega

private theorem readNumber?_eq (negative : Bool) (n : Nat) (ends : EndsNumber rest) :
    readNumber? negative (Nat.toDigits 10 n ++ rest) =
      some ((NumberText.mk negative (digitValues n) none none).number?, rest) := by
  have digits : ∀ c ∈ Nat.toDigits 10 n, c.isDigit = true :=
    fun c member => Nat.isDigit_of_mem_toDigits (by decide) (by decide) member
  have alone : ((digitValues n).isEmpty ||
      ((digitValues n).head? = some 0 && (digitValues n).length ≠ 1)) = false := by
    have filled : digitValues n ≠ [] := by
      rw [digitValues, ne_eq, List.map_eq_nil_iff]
      exact Nat.toDigits_ne_nil
    by_cases zero : (digitValues n).head? = some 0
    · rw [eq_zero_of_head? zero]
      rfl
    · simp [zero, filled]
  rw [readNumber?, takeDigits_append digits fun c first => (ends c first).1]
  change (if _ then _ else _) = _
  rw [if_neg (by rw [← digitValues, alone]; decide), readFraction?_of_ends ends]
  change (readExponent? rest).bind _ = _
  rw [readExponent?_of_ends ends]
  rfl

private theorem number?_digitValues {negative : Bool} {n : Nat} (fits : n < UInt64.size) :
    (NumberText.mk negative (digitValues n) none none).number? =
      if !negative then some (.int n)
      else if 0 < n ∧ n ≤ 0x8000000000000000 then some (.int (-n))
      else some (.real (Double.ofFloat (-(UInt64.ofNat n).toFloat))) := by
  have taken : (digitValues n).foldl Scaled.pushWhole ⟨0, 0, false⟩ = ⟨n, 0, false⟩ := by
    rw [foldl_pushWhole (by rwa [foldl_digitValues]), foldl_digitValues]
  cases negative <;> simp [NumberText.number?, taken]

/-- The digits of a number that fits 64 bits are read as the number. -/
theorem readNumber?_toDigits {n : Nat} (fits : n < UInt64.size) (ends : EndsNumber rest) :
    readNumber? false (Nat.toDigits 10 n ++ rest) = some (some (.int n), rest) := by
  rw [readNumber?_eq false n ends, number?_digitValues fits]
  rfl

/-- The digits of a number that fits 64 bits with its sign are read as the number. -/
theorem readNumber?_neg_toDigits {n : Nat} (positive : 0 < n) (fits : n ≤ 2 ^ 63)
    (ends : EndsNumber rest) :
    readNumber? true (Nat.toDigits 10 n ++ rest) = some (some (.int (-n)), rest) := by
  have below : n < UInt64.size := Nat.lt_of_le_of_lt fits (by decide)
  rw [readNumber?_eq true n ends, number?_digitValues below, if_neg (by decide),
    if_pos ⟨positive, fits⟩]

end Integer

/-- A digit, a point and more digits are read as a number. -/
theorem readNumber?_point {first : Char} {fraction : List Char} (negative : Bool)
    (digit : first.isDigit = true) (digits : ∀ c ∈ fraction, c.isDigit = true)
    (filled : fraction ≠ []) (ends : EndsNumber rest) :
    readNumber? negative (first :: '.' :: (fraction ++ rest)) =
      some ((NumberText.mk negative [first.toNat - 48]
        (some (fraction.map fun c => c.toNat - 48)) none).number?, rest) := by
  have whole : takeDigits ([first] ++ '.' :: (fraction ++ rest)) =
      ([first.toNat - 48], '.' :: (fraction ++ rest)) :=
    takeDigits_append (List.forall_mem_singleton.mpr digit) fun c point =>
      Option.some.inj point ▸ rfl
  have behind := takeDigits_append digits fun c next => (ends c next).1
  have point : readFraction? ('.' :: (fraction ++ rest)) =
      some (some (fraction.map fun c => c.toNat - 48), rest) := by
    simp [readFraction?, behind, filled]
  rw [List.singleton_append] at whole
  simp [readNumber?, whole, point, readExponent?_of_ends ends]

end Custody.Json
