import Custody.Amount
import Custody.Proofs.Except
import Custody.Proofs.Text.Ascii
import Custody.Proofs.Text.Blank
import Mathlib.Algebra.Order.Field.Basic
import Mathlib.Data.Rat.Cast.Order
import Mathlib.Tactic.FieldSimp
import Mathlib.Tactic.NormNum
import Mathlib.Tactic.Ring

/-! # Amounts are read exactly

The number that is built up digit by digit only grows, so the checks against overflow on the way
refuse just those numerals whose value is no amount. What is read is therefore the value of the
numeral, and every amount is read from each of its decimal forms.
-/

namespace Custody.Amount

/-- A decimal as it is written: digits, and perhaps a point with digits behind it. -/
structure Numeral where
  whole : List Char
  /-- The digits behind the point, if there is one. -/
  fraction : Option (List Char)

namespace Numeral

variable {numeral : Numeral}

/-- The decimals: the digits behind the point. -/
def places (numeral : Numeral) : List Char := numeral.fraction.getD []

/-- The characters of a numeral. -/
def chars (numeral : Numeral) : List Char :=
  match numeral.fraction with
  | none => numeral.whole
  | some fraction => numeral.whole ++ '.' :: fraction

/-- The number of coins that a numeral stands for. -/
def value (numeral : Numeral) : ℚ :=
  Nat.ofDigitChars 10 numeral.whole 0
    + Nat.ofDigitChars 10 numeral.places 0 / 10 ^ numeral.places.length

/-- Whether a numeral has decimal digits only, and at most eight behind the point. -/
structure Valid (numeral : Numeral) : Prop where
  whole : ∀ c ∈ numeral.whole, c.isDigit = true
  places : ∀ c ∈ numeral.places, c.isDigit = true
  few : numeral.places.length ≤ 8

/-- The number of satoshi that a numeral stands for. -/
def satoshi (numeral : Numeral) : Nat :=
  Nat.ofDigitChars 10 (numeral.whole ++ numeral.places) 0 * 10 ^ (8 - numeral.places.length)

/-- A digit in front of a numeral. -/
def push (c : Char) (numeral : Numeral) : Numeral := { numeral with whole := c :: numeral.whole }

@[simp] theorem chars_push (c : Char) (numeral : Numeral) :
    (numeral.push c).chars = c :: numeral.chars := by
  obtain ⟨whole, fraction⟩ := numeral
  cases fraction <;> rfl

theorem valid_push {c : Char} : (numeral.push c).Valid ↔ c.isDigit = true ∧ numeral.Valid := by
  constructor
  · rintro ⟨whole, places, few⟩
    obtain ⟨digit, digits⟩ := List.forall_mem_cons.mp whole
    exact ⟨digit, digits, places, few⟩
  · rintro ⟨digit, whole, places, few⟩
    exact ⟨List.forall_mem_cons.mpr ⟨digit, whole⟩, places, few⟩

theorem chars_eq_nil_iff : numeral.chars = [] ↔ numeral = ⟨[], none⟩ := by
  obtain ⟨whole, fraction⟩ := numeral
  cases fraction <;> simp [chars]

/-- The first character of a numeral is its first digit, or the point. -/
theorem chars_eq_cons_iff {c : Char} {cs : List Char} :
    numeral.chars = c :: cs ↔
      (∃ rest : Numeral, rest.chars = cs ∧ rest.push c = numeral) ∨
        c = '.' ∧ numeral = ⟨[], some cs⟩ := by
  constructor
  · obtain ⟨_ | ⟨d, whole⟩, fraction⟩ := numeral
    · cases fraction with
      | none => exact fun none => absurd none.symm (List.cons_ne_nil c cs)
      | some fraction =>
        intro same
        obtain ⟨rfl, rfl⟩ := List.cons.inj same
        exact .inr ⟨rfl, rfl⟩
    · intro same
      have pushed := chars_push d ⟨whole, fraction⟩
      obtain ⟨rfl, rfl⟩ := List.cons.inj (pushed.symm.trans same)
      exact .inl ⟨⟨whole, fraction⟩, rfl, rfl⟩
  · rintro (⟨rest, rfl, rfl⟩ | ⟨rfl, rfl⟩)
    · exact chars_push c rest
    · rfl

/-- A numeral is digits and at most one point. -/
theorem Valid.mem_chars (valid : numeral.Valid) {c : Char} (member : c ∈ numeral.chars) :
    c.isDigit = true ∨ c = '.' := by
  obtain ⟨whole, fraction⟩ := numeral
  cases fraction with
  | none => exact .inl (valid.whole c member)
  | some fraction =>
    obtain member | member := List.mem_append.mp member
    · exact .inl (valid.whole c member)
    · obtain rfl | member := List.mem_cons.mp member
      · exact .inr rfl
      · exact .inl (valid.places c member)

end Numeral

section Digits

/-- Digits behind a number move it up by their count. -/
theorem ofDigitChars_eq (cs : List Char) (init : Nat) :
    Nat.ofDigitChars 10 cs init = 10 ^ cs.length * init + Nat.ofDigitChars 10 cs 0 := by
  induction cs generalizing init with
  | nil => simp [Nat.ofDigitChars]
  | cons c cs ih =>
    rw [Nat.ofDigitChars_cons, Nat.ofDigitChars_cons, ih, ih (10 * 0 + _), List.length_cons,
      Nat.pow_succ]
    ring

theorem le_ofDigitChars (cs : List Char) (init : Nat) : init ≤ Nat.ofDigitChars 10 cs init := by
  rw [ofDigitChars_eq]
  exact Nat.le_add_right_of_le (Nat.le_mul_of_pos_left init (Nat.pow_pos (by decide)))

/-- The satoshi of a numeral are its coins, in the smaller unit. -/
theorem Numeral.Valid.satoshi_eq {numeral : Numeral} (valid : numeral.Valid) :
    (numeral.satoshi : ℚ) = numeral.value * 10 ^ 8 := by
  have shift : (10 : ℚ) ^ 8 = 10 ^ numeral.places.length * 10 ^ (8 - numeral.places.length) := by
    rw [← pow_add, Nat.add_sub_cancel' valid.few]
  rw [satoshi, value, Nat.ofDigitChars_append, ofDigitChars_eq, shift]
  push_cast
  field_simp

end Digits

section Read

variable {value digit next total : Nat} {cs : List Char}

private theorem push?_eq_some_iff :
    push? value digit = some next ↔ next < bound ∧ 10 * value + digit = next := by
  simp only [push?, Option.ite_none_right_eq_some, Option.some.injEq]
  constructor
  · rintro ⟨fits, rfl⟩
    exact ⟨fits, rfl⟩
  · rintro ⟨fits, rfl⟩
    exact ⟨fits, rfl⟩

private theorem push?_eq_none_iff : push? value digit = none ↔ bound ≤ 10 * value + digit := by
  simp only [push?, ite_eq_right_iff, reduceCtorEq, imp_false, Nat.not_lt]

private theorem scale?_eq_some_iff {n : Nat} (small : value < bound) :
    scale? n value = some total ↔ total < bound ∧ value * 10 ^ n = total := by
  induction n generalizing value with
  | zero =>
    simp only [scale?, Option.some.injEq, Nat.pow_zero, Nat.mul_one]
    constructor
    · rintro rfl
      exact ⟨small, rfl⟩
    · exact And.right
  | succ n ih =>
    have power : value * 10 ^ (n + 1) = 10 * value * 10 ^ n := by ring
    rw [scale?, power, Option.bind_eq_some_iff]
    simp only [push?_eq_some_iff, Nat.add_zero]
    constructor
    · rintro ⟨_, ⟨fits, rfl⟩, scaled⟩
      exact (ih fits).mp scaled
    · rintro ⟨fits, rfl⟩
      have grows : 10 * value ≤ 10 * value * 10 ^ n :=
        Nat.le_mul_of_pos_right _ (Nat.pow_pos (by decide))
      have fits' := Nat.lt_of_le_of_lt grows fits
      exact ⟨_, ⟨fits', rfl⟩, (ih fits').mpr ⟨fits, rfl⟩⟩

theorem readDigits_nil (value : Nat) (places : Option Nat) :
    readDigits value places [] =
      match scale? (decimals - places.getD 0) value with
      | some total => .ok total
      | none => .error .tooLarge := rfl

-- Without `id` the two sides are compared by evaluating `c.toNat - 48`, which does not end.
theorem readDigits_cons (value : Nat) (places : Option Nat) (c : Char) (cs : List Char) :
    readDigits value places (c :: cs) =
      if c.isDigit then
        match push? value (c.toNat - 48) with
        | none => .error .tooLarge
        | some next =>
          match places with
          | none => readDigits next none cs
          | some n => if n < decimals then readDigits next (some (n + 1)) cs else .error .tooPrecise
      else if c = '.' && places.isNone then readDigits value (some 0) cs
      else .error (.badCharacter c) := id rfl

/-- A number that gives an amount with all that follows was an amount before. -/
private theorem lt_bound_of_ofDigitChars {n : Nat}
    (fits : Nat.ofDigitChars 10 cs value * 10 ^ n < bound) : value < bound :=
  calc value ≤ Nat.ofDigitChars 10 cs value := le_ofDigitChars cs value
    _ ≤ Nat.ofDigitChars 10 cs value * 10 ^ n :=
      Nat.le_mul_of_pos_right _ (Nat.pow_pos (by decide))
    _ < bound := fits

/-- Behind the last character a number is moved up by the decimals that are missing. -/
private theorem readDigits_nil_eq_ok_iff {places : Option Nat} (small : value < bound) :
    readDigits value places [] = .ok total ↔
      total < bound ∧ value * 10 ^ (8 - places.getD 0) = total := by
  rw [← scale?_eq_some_iff small, readDigits_nil]
  change _ ↔ scale? (decimals - places.getD 0) value = some total
  split
  · rename_i scaled found
    rw [found, Except.ok.injEq, Option.some.injEq]
  · rename_i none
    simp [none]

/-- A digit is read if the number it makes is an amount, and if it has room behind the point. -/
private theorem readDigits_digit_eq_ok_iff {places : Option Nat} {c : Char}
    (digit : c.isDigit = true) :
    readDigits value places (c :: cs) = .ok total ↔
      10 * value + (c.toNat - 48) < bound ∧ (∀ n ∈ places, n < 8) ∧
        readDigits (10 * value + (c.toNat - 48)) (places.map (· + 1)) cs = .ok total := by
  rw [readDigits_cons, if_pos digit]
  split
  · rename_i overflow
    simp [Nat.not_lt.mpr (push?_eq_none_iff.mp overflow)]
  · rename_i next pushed
    obtain ⟨fits, rfl⟩ := push?_eq_some_iff.mp pushed
    cases places with
    | none => simp [fits]
    | some n =>
      by_cases room : n < decimals
      · have room' : n < 8 := room
        simp [fits, room, room']
      · have room' : ¬ n < 8 := room
        simp [room, room']

/-- A character that is no digit is read as the point, and only as the first one. -/
private theorem readDigits_other_eq_ok_iff {places : Option Nat} {c : Char}
    (other : ¬ c.isDigit = true) :
    readDigits value places (c :: cs) = .ok total ↔
      (c = '.' ∧ places = none) ∧ readDigits value (some 0) cs = .ok total := by
  rw [readDigits_cons, if_neg other]
  by_cases point : c = '.' ∧ places = none
  · obtain ⟨rfl, rfl⟩ := point
    simp
  · have refused : ¬ (c = '.' && places.isNone) = true := fun both => point (by simpa using both)
    simp [refused, point]

/-- Digits behind the point are read into the number that they move up, if there is room for them
and the number is an amount. -/
private theorem readDigits_some_eq_ok_iff {places : Nat} (small : value < bound)
    (few : places ≤ 8) :
    readDigits value (some places) cs = .ok total ↔
      (∀ c ∈ cs, c.isDigit = true) ∧ places + cs.length ≤ 8 ∧ total < bound ∧
        Nat.ofDigitChars 10 cs value * 10 ^ (8 - (places + cs.length)) = total := by
  induction cs generalizing value places with
  | nil =>
    rw [readDigits_nil_eq_ok_iff small]
    simp [few, Nat.ofDigitChars]
  | cons c cs ih =>
    have count : places + 1 + cs.length = places + (c :: cs).length := by
      rw [List.length_cons]
      omega
    rw [List.forall_mem_cons, Nat.ofDigitChars_cons, ← count]
    by_cases digit : c.isDigit = true
    · rw [readDigits_digit_eq_ok_iff digit]
      constructor
      · rintro ⟨fits, room, rest⟩
        have room' : places + 1 ≤ 8 := room places rfl
        obtain ⟨digits, few', fits', value⟩ := (ih fits room').mp rest
        exact ⟨⟨digit, digits⟩, few', fits', value⟩
      · rintro ⟨⟨_, digits⟩, few', fits', rfl⟩
        have fits : 10 * value + (c.toNat - 48) < bound := lt_bound_of_ofDigitChars fits'
        have room : places + 1 ≤ 8 := Nat.le_trans (Nat.le_add_right _ _) few'
        exact ⟨fits, fun n same => Option.some.inj same ▸ room,
          (ih fits room).mpr ⟨digits, few', fits', rfl⟩⟩
    · rw [readDigits_other_eq_ok_iff digit]
      simp [digit]

/-- A numeral that is read behind a number moves it up, as its own digits would. -/
private theorem readDigits_none_eq_ok_iff (small : value < bound) :
    readDigits value none cs = .ok total ↔
      ∃ numeral : Numeral, numeral.Valid ∧ numeral.chars = cs ∧ total < bound ∧
        Nat.ofDigitChars 10 (numeral.whole ++ numeral.places) value
          * 10 ^ (8 - numeral.places.length) = total := by
  induction cs generalizing value with
  | nil =>
    rw [readDigits_nil_eq_ok_iff small]
    constructor
    · rintro ⟨fits, rfl⟩
      exact ⟨⟨[], none⟩, ⟨by simp, by simp [Numeral.places], by simp [Numeral.places]⟩, rfl, fits,
        rfl⟩
    · rintro ⟨numeral, -, empty, fits, rfl⟩
      obtain rfl := Numeral.chars_eq_nil_iff.mp empty
      exact ⟨fits, rfl⟩
  | cons c cs ih =>
    by_cases digit : c.isDigit = true
    · rw [readDigits_digit_eq_ok_iff digit]
      constructor
      · rintro ⟨fits, -, rest⟩
        obtain ⟨numeral, valid, rfl, fits', read⟩ := (ih fits).mp rest
        exact ⟨numeral.push c, Numeral.valid_push.mpr ⟨digit, valid⟩, Numeral.chars_push c numeral,
          fits', read⟩
      · rintro ⟨numeral, valid, same, fits', rfl⟩
        obtain ⟨rest, rfl, rfl⟩ | ⟨rfl, -⟩ := Numeral.chars_eq_cons_iff.mp same
        · have fits : 10 * value + (c.toNat - 48) < bound := lt_bound_of_ofDigitChars fits'
          exact ⟨fits, by simp, (ih fits).mpr
            ⟨rest, (Numeral.valid_push.mp valid).2, rfl, fits', rfl⟩⟩
        · exact absurd digit (by decide)
    · rw [readDigits_other_eq_ok_iff digit, readDigits_some_eq_ok_iff small (Nat.zero_le 8)]
      simp only [Nat.zero_add]
      constructor
      · rintro ⟨⟨rfl, -⟩, digits, few, fits, read⟩
        exact ⟨⟨[], some cs⟩, ⟨by simp, digits, few⟩, rfl, fits, read⟩
      · rintro ⟨numeral, valid, same, fits, read⟩
        obtain ⟨rest, -, rfl⟩ | ⟨rfl, rfl⟩ := Numeral.chars_eq_cons_iff.mp same
        · exact absurd (Numeral.valid_push.mp valid).1 digit
        · exact ⟨⟨rfl, trivial⟩, valid.places, valid.few, fits, read⟩

/-- A text is read as an amount if it is a numeral of an amount, and not a long one. -/
theorem ofCoins_eq_ok_iff {text : String} {n : UInt64} :
    ofCoins text = .ok n ↔
      text ≠ "" ∧ text.utf8ByteSize ≤ 50 ∧
        ∃ numeral : Numeral, numeral.Valid ∧ String.ofList numeral.chars = text ∧
          numeral.satoshi = n.toNat := by
  have read : ∀ total, readDigits 0 none text.toList = .ok total ↔
      ∃ numeral : Numeral, numeral.Valid ∧ numeral.chars = text.toList ∧ total < bound ∧
        numeral.satoshi = total :=
    fun total => readDigits_none_eq_ok_iff (by decide)
  constructor
  · intro accepted
    rw [ofCoins] at accepted
    split at accepted
    · cases accepted
    · rename_i some
      split at accepted
      · cases accepted
      · rename_i short
        split at accepted
        · cases accepted
        · obtain ⟨total, found, rfl⟩ := Except.map_eq_ok_iff.mp accepted
          obtain ⟨numeral, valid, same, fits, rfl⟩ := (read total).mp found
          refine ⟨fun empty => some (by simp [empty]), Nat.not_lt.mp short, numeral, valid, ?_, ?_⟩
          · rw [same, String.ofList_toList]
          · exact (Nat.mod_eq_of_lt fits).symm
  · rintro ⟨some, short, numeral, valid, rfl, satoshi⟩
    rw [String.toList_ofList] at read
    have found := (read n.toNat).mpr ⟨numeral, valid, rfl, n.toNat_lt_size, satoshi⟩
    have bare : (String.ofList numeral.chars).toList.head? ≠ Option.some '-' := by
      intro signed
      rw [String.toList_ofList] at signed
      obtain digit | point := valid.mem_chars (List.mem_of_head? signed)
      · exact absurd digit (by decide)
      · exact absurd point (by decide)
    rw [ofCoins, if_neg (by simpa using some), if_neg (Nat.not_lt.mpr short), if_neg bare,
      String.toList_ofList, found]
    simp [Except.map]

/-- What is read of a text is the numeral between its outer blanks. -/
theorem parse_eq_ok_iff {text : String} {n : UInt64} :
    parse text = .ok n ↔ ofCoins (Blank.trim text) = .ok n := by
  rw [parse]
  split
  · rename_i read
    rw [read, Except.ok.injEq, Except.ok.injEq]
  · rename_i refused
    simp [refused]

end Read

section Written

/-- The last `width` decimal digits of a number. -/
def fixedDigits : Nat → Nat → List Char
  | 0, _ => []
  | width + 1, n => fixedDigits width (n / 10) ++ [Nat.digitChar (n % 10)]

@[simp] theorem length_fixedDigits (width n : Nat) : (fixedDigits width n).length = width := by
  induction width generalizing n with
  | zero => rfl
  | succ width ih => rw [fixedDigits, List.length_append, ih, List.length_singleton]

theorem isDigit_of_mem_fixedDigits {width n : Nat} {c : Char} (member : c ∈ fixedDigits width n) :
    c.isDigit = true := by
  induction width generalizing n with
  | zero => cases member
  | succ width ih =>
    obtain member | last := List.mem_append.mp member
    · exact ih member
    · rw [List.mem_singleton.mp last, Nat.isDigit_digitChar, decide_eq_true_eq]
      exact Nat.mod_lt n (by decide)

theorem ofDigitChars_fixedDigits (width n : Nat) :
    Nat.ofDigitChars 10 (fixedDigits width n) 0 = n % 10 ^ width := by
  induction width generalizing n with
  | zero => rw [Nat.pow_zero, Nat.mod_one]; rfl
  | succ width ih =>
    have digit : (Nat.digitChar (n % 10)).toNat - '0'.toNat = n % 10 :=
      Nat.toNat_digitChar_sub_48_of_lt_ten (Nat.mod_lt n (by decide))
    rw [fixedDigits, Nat.ofDigitChars_append, ih, Nat.ofDigitChars_cons, digit, Nat.pow_succ',
      Nat.mod_mul, Nat.add_comm, Nat.ofDigitChars_nil]

/-- The decimal form of an amount with some decimals: the digits of the coins and of what remains,
which is left out with the point if no decimals are wanted. -/
def written (satoshi places : Nat) : Numeral where
  whole := Nat.toDigits 10 (satoshi / 10 ^ 8)
  fraction :=
    if places = 0 then none
    else some (fixedDigits places (satoshi % 10 ^ 8 / 10 ^ (8 - places)))

variable {satoshi places : Nat}

theorem places_written :
    (written satoshi places).places
      = fixedDigits places (satoshi % 10 ^ 8 / 10 ^ (8 - places)) := by
  cases places <;> rfl

@[simp] theorem length_places_written : (written satoshi places).places.length = places := by
  rw [places_written, length_fixedDigits]

theorem valid_written (few : places ≤ 8) : (written satoshi places).Valid where
  whole _ member := Nat.isDigit_of_mem_toDigits (by decide) (by decide) member
  places c member := isDigit_of_mem_fixedDigits (places_written ▸ member)
  few := by rwa [length_places_written]

/-- The decimal form of an amount stands for the amount if it has decimals enough. -/
theorem satoshi_written (few : places ≤ 8) (exact : 10 ^ (8 - places) ∣ satoshi) :
    (written satoshi places).satoshi = satoshi := by
  obtain ⟨units, rfl⟩ := exact
  have shift : 10 ^ 8 = 10 ^ (8 - places) * 10 ^ places := by
    rw [← Nat.pow_add, Nat.sub_add_cancel few]
  have scale : 0 < 10 ^ (8 - places) := Nat.pow_pos (by decide)
  rw [Numeral.satoshi, length_places_written, Nat.ofDigitChars_append, ofDigitChars_eq,
    places_written, length_fixedDigits, ofDigitChars_fixedDigits, written,
    Nat.ofDigitChars_ten_toDigits, shift, Nat.mul_div_mul_left _ _ scale,
    Nat.mul_mod_mul_left, Nat.mul_div_cancel_left _ scale, Nat.mod_mod, Nat.div_add_mod,
    Nat.mul_comm]

/-- An amount is written in at most thirteen characters more than its decimals. -/
theorem length_chars_written (n : UInt64) (places : Nat) :
    (written n.toNat places).chars.length ≤ 13 + places := by
  have coins : n.toNat / 10 ^ 8 < 10 ^ 12 := by
    have below := n.toNat_lt
    omega
  have whole : (Nat.toDigits 10 (n.toNat / 10 ^ 8)).length ≤ 12 :=
    (Nat.length_toDigits_le_iff (by decide) (by decide)).mpr coins
  cases places with
  | zero =>
    change (Nat.toDigits 10 (n.toNat / 10 ^ 8)).length ≤ _
    omega
  | succ places =>
    simp only [Numeral.chars, written, Nat.succ_ne_zero, if_false, List.length_append,
      List.length_cons, length_fixedDigits]
    omega

end Written

/-- The characters of a numeral take one byte, and none of them is blank. -/
private theorem solid_of_mem_chars {numeral : Numeral} (valid : numeral.Valid) {c : Char}
    (member : c ∈ numeral.chars) : Blank.isBlank c = false ∧ c.utf8Size = 1 := by
  have code : 46 ≤ c.toNat ∧ c.toNat ≤ 57 := by
    obtain digit | rfl := valid.mem_chars member
    · obtain ⟨low, high⟩ := Char.isDigit_iff_toNat.mp digit
      exact ⟨Nat.le_trans (by decide) low, high⟩
    · decide
  refine ⟨?_, Ascii.utf8Size_eq_one_iff.mpr (by omega)⟩
  simp only [Blank.isBlank, Bool.or_eq_false_iff, Bool.and_eq_false_iff, decide_eq_false_iff_not]
  omega

/-- A numeral of an amount is read, whatever blanks are around it. -/
theorem parse_append_append {numeral : Numeral} {n : UInt64} {before after : String}
    (valid : numeral.Valid) (some : numeral.chars ≠ []) (short : numeral.chars.length ≤ 50)
    (satoshi : numeral.satoshi = n.toNat)
    (blankBefore : ∀ c ∈ before.toList, Blank.isBlank c = true)
    (blankAfter : ∀ c ∈ after.toList, Blank.isBlank c = true) :
    parse (before ++ String.ofList numeral.chars ++ after) = .ok n := by
  have solid : ∀ c ∈ (String.ofList numeral.chars).toList, Blank.isBlank c = false := by
    rw [String.toList_ofList]
    exact fun c member => (solid_of_mem_chars valid member).1
  have bytes : (String.ofList numeral.chars).utf8ByteSize = numeral.chars.length :=
    Ascii.utf8ByteSize_ofList fun c member => (solid_of_mem_chars valid member).2
  rw [parse_eq_ok_iff, Blank.trim_append_append blankBefore solid blankAfter, ofCoins_eq_ok_iff]
  exact ⟨by simpa using some, by rwa [bytes], numeral, valid, rfl, satoshi⟩

/-- Amounts are read exactly. A text is read as `n` satoshi if and only if what is left of it
without the blanks at its ends is not empty, has at most fifty bytes and is a numeral of digits
with at most one point and at most eight digits behind it, whose value is `n` in units of `10⁻⁸`.
Every amount that can be written with some number of decimals is read from that decimal form, with
any blanks around it. -/
theorem parse_exact :
    (∀ (text : String) (n : UInt64),
      parse text = .ok n ↔
        Blank.trim text ≠ "" ∧ (Blank.trim text).utf8ByteSize ≤ 50 ∧
          ∃ numeral : Numeral, numeral.Valid ∧ String.ofList numeral.chars = Blank.trim text ∧
            (n.toNat : ℚ) = numeral.value * 10 ^ 8) ∧
      ∀ (n : UInt64) (places : Nat), places ≤ 8 → 10 ^ (8 - places) ∣ n.toNat →
        let numeral := written n.toNat places
        numeral.Valid ∧ numeral.places.length = places ∧ numeral.value = n.toNat / 10 ^ 8 ∧
          ∀ before after : String, (∀ c ∈ before.toList, Blank.isBlank c = true) →
            (∀ c ∈ after.toList, Blank.isBlank c = true) →
              parse (before ++ String.ofList numeral.chars ++ after) = .ok n := by
  constructor
  · intro text n
    rw [parse_eq_ok_iff, ofCoins_eq_ok_iff]
    refine and_congr_right fun _ => and_congr_right fun _ => exists_congr fun numeral =>
      and_congr_right fun valid => and_congr_right fun _ => ?_
    rw [← valid.satoshi_eq, Nat.cast_inj, eq_comm]
  · intro n places few exact
    have valid : (written n.toNat places).Valid := valid_written few
    have satoshi := satoshi_written few exact
    refine ⟨valid, length_places_written, ?_, ?_⟩
    · have scaled := valid.satoshi_eq
      rw [satoshi] at scaled
      rw [scaled, mul_div_cancel_right₀ _ (by norm_num)]
    · intro before after blankBefore blankAfter
      have short := length_chars_written n places
      refine parse_append_append valid ?_ (by omega) satoshi blankBefore blankAfter
      intro empty
      exact Nat.toDigits_ne_nil (congrArg Numeral.whole (Numeral.chars_eq_nil_iff.mp empty))

theorem parse_exact_spaced :
    parse " 0.0015\n" = .ok 150000 ∧
      ∃ numeral : Numeral, numeral.Valid ∧
        String.ofList numeral.chars = Blank.trim " 0.0015\n" ∧ 150000 = numeral.value * 10 ^ 8 := by
  have form : " " ++ String.ofList (written 150000 4).chars ++ "\n" = " 0.0015\n" := by
    decide +kernel
  obtain ⟨-, -, -, parsed⟩ := parse_exact.2 150000 4 (by decide) (by decide)
  have blanks : (∀ c ∈ " ".toList, Blank.isBlank c = true) ∧
      ∀ c ∈ "\n".toList, Blank.isBlank c = true := by
    simp [Blank.isBlank]
  have read : parse " 0.0015\n" = .ok 150000 := form ▸ parsed " " "\n" blanks.1 blanks.2
  obtain ⟨-, -, numeral, valid, same, value⟩ := (parse_exact.1 _ _).mp read
  exact ⟨read, numeral, valid, same, by exact_mod_cast value⟩

end Custody.Amount
