import Custody.Proofs.Text.Hex
import Custody.Text.Uuid
import Mathlib.Algebra.Ring.Nat

/-! # The spellings of identifiers

In lowercase letters an identifier has four spellings: its 32 digits, the digits in groups between
hyphens, and this form in braces or behind `urn:uuid:`. The texts that are read as the identifier
are these four with their ASCII letters in either case, and no others.
-/

namespace Custody.Uuid

/-- The lowercase spellings of an identifier. -/
def forms (uuid : Uuid) : List String :=
  [Hex.encode uuid.bytes, uuid.display, "\x7b" ++ uuid.display ++ "\x7d",
    "urn:uuid:" ++ uuid.display]

section Letters

private theorem lower_of_le {b : UInt8} (high : 128 ≤ b) : lower b = b := by
  refine if_neg ?_
  simp only [Bool.and_eq_true, decide_eq_true_eq, UInt8.le_iff_toNat_le, UInt8.reduceToNat]
    at high ⊢
  omega

private theorem utf8EncodeChar_toLower_ascii : ∀ c : Char, c.toNat < 128 →
    String.utf8EncodeChar c.toLower = (String.utf8EncodeChar c).map lower :=
  Ascii.forall_of_lt (by decide)

private theorem utf8EncodeChar_toLower (c : Char) :
    String.utf8EncodeChar c.toLower = (String.utf8EncodeChar c).map lower := by
  by_cases ascii : c.toNat < 128
  · exact utf8EncodeChar_toLower_ascii c ascii
  · have same : ∀ b ∈ String.utf8EncodeChar c, lower b = b := fun b member =>
      lower_of_le (Ascii.le_of_mem_utf8EncodeChar ascii b member)
    rw [Ascii.toLower_of_wide ascii, List.map_congr_left same, List.map_id']

/-- A text in lower case has the bytes of the text, in lower case. -/
theorem ofText_toLower (text : String) :
    Bytes.ofText text.toLower = (Bytes.ofText text).map lower := by
  have letters : text.toLower.toList = text.toList.map Char.toLower := String.toList_map
  rw [Bytes.ofText_eq_flatMap, Bytes.ofText_eq_flatMap, letters, List.flatMap_map,
    List.map_flatMap]
  simp only [utf8EncodeChar_toLower]

private theorem value?_lower (b : UInt8) : Hex.value? (lower b) = Hex.value? b := by
  unfold lower Hex.value?
  grind

private theorem digit_val : ∀ n < 16,
    (Hex.digit n).val.toUInt8 = if n < 10 then UInt8.ofNat (48 + n) else UInt8.ofNat (87 + n) := by
  decide

private theorem lower_of_value? (b : UInt8) : ∀ v ∈ Hex.value? b,
    v.toNat < 16 ∧ lower b = (Hex.digit v.toNat).val.toUInt8 := by
  intro v read
  have small : v < 16 := by
    unfold Hex.value? at read
    grind
  have written : lower b = if v < 10 then 48 + v else 87 + v := by
    unfold lower
    unfold Hex.value? at read
    grind
  have bound : v.toNat < 16 := UInt8.lt_iff_toNat_lt.mp small
  refine ⟨bound, ?_⟩
  rw [written, digit_val v.toNat bound]
  simp only [UInt8.lt_iff_toNat_lt, UInt8.reduceToNat, UInt8.ofNat_add, UInt8.ofNat_toNat,
    UInt8.reduceOfNat]

/-- No other byte becomes a mark that surrounds or separates digits. -/
private theorem lower_eq_mark : ∀ b, ∀ mark ∈ ([0x2d, 0x7b, 0x7d] : Bytes),
    lower b = mark → b = mark := by
  intro b mark member same
  unfold lower at same
  grind

end Letters

section Digits

private theorem map_lower_of_decodePairs {position : Nat} {spelled done bytes : Bytes}
    (even : spelled.length % 2 = 0) (read : Hex.decodePairs position spelled done = .ok bytes) :
    ∃ later, bytes = done.reverse ++ later ∧
      spelled.map lower = Bytes.ofText (Hex.encode later) := by
  fun_induction Hex.decodePairs position spelled done with
  | case1 | case2 => cases read
  | case3 position high low rest done h highDigit l lowDigit ih =>
    simp only [List.length_cons] at even
    obtain ⟨later, rfl, spelled⟩ := ih (by omega) read
    obtain ⟨highSmall, highLower⟩ := lower_of_value? high h highDigit
    obtain ⟨lowSmall, lowLower⟩ := lower_of_value? low l lowDigit
    have value : (16 * h + l).toNat = 16 * h.toNat + l.toNat := by
      simp only [UInt8.toNat_add, UInt8.toNat_mul, UInt8.reduceToNat, Nat.reducePow]
      omega
    have upper : (16 * h.toNat + l.toNat) / 16 = h.toNat := by omega
    have under : (16 * h.toNat + l.toNat) % 16 = l.toNat := by omega
    refine ⟨(16 * h + l) :: later, by simp, ?_⟩
    rw [List.map_cons, List.map_cons, spelled, Hex.ofText_encode, Hex.ofText_encode,
      List.flatMap_cons, value, upper, under, highLower, lowLower]
    rfl
  | case4 spelled done position short =>
    cases read
    rcases spelled with _ | ⟨high, _ | ⟨low, rest⟩⟩
    · exact ⟨[], by simp, by decide⟩
    · cases even
    · exact (short _ _ _ rfl).elim

/-- Digits spell an identifier when they are those that it is written in, in either case. -/
theorem ofDigits?_eq_some_iff {spelled : Bytes} {uuid : Uuid} :
    ofDigits? spelled = some uuid ↔
      spelled.map lower = Bytes.ofText (Hex.encode uuid.bytes) := by
  have size (same : spelled.map lower = Bytes.ofText (Hex.encode uuid.bytes)) :
      spelled.length = 32 := by
    rw [← List.length_map lower, same, Hex.length_ofText_encode, uuid.size]
  unfold ofDigits?
  constructor
  · intro read
    split at read
    · cases read
    · rename_i bytes decoded
      obtain ⟨whole, ⟨⟩⟩ := Option.dite_none_right_eq_some.mp read
      obtain ⟨later, rfl, same⟩ := map_lower_of_decodePairs (by omega) decoded
      exact same
  · intro same
    have values : (Bytes.ofText (Hex.encode uuid.bytes)).map Hex.value? =
        spelled.map Hex.value? := by
      rw [← same, List.map_map]
      exact List.map_congr_left fun b _ => value?_lower b
    have read := Hex.decodePairs_congr values (Hex.decodePairs_encode 0 uuid.bytes [])
    rw [List.reverse_nil, List.nil_append] at read
    simp only [read, uuid.size, size same, and_self, ↓reduceDIte]

end Digits

section Groups

/-- Splits items into groups, with a mark between them. -/
def separate {α : Type} (mark : α) : List Nat → List α → List α
  | [], items => items
  | [_], items => items
  | size :: sizes, items => items.take size ++ mark :: separate mark sizes (items.drop size)

variable {α β : Type} {mark : α} {sizes : List Nat} {items : List α}

theorem hyphenate_eq (sizes : List Nat) (digits : List Char) :
    hyphenate sizes digits = separate '-' sizes digits := by
  fun_induction hyphenate sizes digits with
  | case1 | case2 => rfl
  | case3 size sizes digits several ih => rw [separate, ih]; exact several

theorem map_separate (change : α → β) :
    (separate mark sizes items).map change = separate (change mark) sizes (items.map change) := by
  fun_induction separate mark sizes items with
  | case1 | case2 => rfl
  | case3 size sizes items several ih =>
    rw [separate, ← List.map_drop, ← ih, List.map_append, List.map_cons, List.map_take]
    exact several

theorem mem_separate {item : α} (member : item ∈ separate mark sizes items) :
    item = mark ∨ item ∈ items := by
  fun_induction separate mark sizes items with
  | case1 | case2 => exact .inr member
  | case3 size sizes items several ih =>
    obtain early | rfl | late := by simpa using member
    · exact .inr (List.mem_of_mem_take early)
    · exact .inl rfl
    · exact (ih late).imp_right List.mem_of_mem_drop

theorem separate_append {size : Nat} {group : List α} (several : sizes ≠ [])
    (counted : group.length = size) :
    separate mark (size :: sizes) (group ++ items) =
      group ++ mark :: separate mark sizes items := by
  rw [separate, List.take_left' counted, List.drop_left' counted]
  exact several

/-- Groups are seen through a change that takes only the mark to its image. -/
theorem exists_of_map_eq_separate {change : α → β} (marks : ∀ a, change a = change mark → a = mark)
    {changed : List β} (size : changed.length = sizes.sum)
    (same : items.map change = separate (change mark) sizes changed) :
    ∃ digits, items = separate mark sizes digits ∧ digits.map change = changed := by
  induction sizes generalizing items changed with
  | nil => exact ⟨items, rfl, same⟩
  | cons first sizes ih =>
    cases sizes with
    | nil => exact ⟨items, rfl, same⟩
    | cons second sizes =>
      rw [List.sum_cons] at size
      obtain ⟨group, _, rfl, groupSame, restSame⟩ := List.map_eq_append_iff.mp same
      obtain ⟨a, rest, rfl, markSame, restSame⟩ := List.map_eq_cons_iff.mp restSame
      obtain ⟨digits, rfl, digitsSame⟩ := ih (by rw [List.length_drop]; omega) restSame
      have counted : group.length = first := by
        rw [← List.length_map change, groupSame, List.length_take]
        omega
      refine ⟨group ++ digits, ?_, ?_⟩
      · rw [separate_append (List.cons_ne_nil _ _) counted, marks a markSame]
      · rw [List.map_append, groupSame, digitsSame, List.take_append_drop]

private theorem of_unhyphenate? {spelled digits : Bytes}
    (read : unhyphenate? sizes spelled = some digits) :
    digits.length = sizes.sum ∧ spelled = separate 0x2d sizes digits := by
  fun_induction unhyphenate? sizes spelled generalizing digits with
  | case1 spelled empty =>
    cases read
    exact ⟨rfl, List.isEmpty_iff.mp empty⟩
  | case3 spelled =>
    cases read
    exact ⟨rfl, rfl⟩
  | case2 | case4 | case6 => cases read
  | case5 size sizes spelled several rest marked ih =>
    obtain ⟨later, readLater, rfl⟩ := Option.map_eq_some_iff.mp read
    obtain ⟨laterSize, rfl⟩ := ih readLater
    have counted : (spelled.take size).length = size := by
      have longer := congrArg List.length marked
      simp only [List.length_drop, List.length_cons] at longer
      rw [List.length_take]
      omega
    refine ⟨by rw [List.length_append, counted, laterSize, List.sum_cons], ?_⟩
    rw [separate_append several counted, ← marked, List.take_append_drop]

private theorem unhyphenate?_separate {digits : Bytes} (counted : digits.length = sizes.sum) :
    unhyphenate? sizes (separate 0x2d sizes digits) = some digits := by
  induction sizes generalizing digits with
  | nil =>
    obtain rfl := List.length_eq_zero_iff.mp counted
    rfl
  | cons size sizes ih =>
    cases sizes with
    | nil => exact if_pos counted
    | cons next sizes =>
      rw [List.sum_cons] at counted
      obtain ⟨group, later, rfl, grouped⟩ :
          ∃ group later, digits = group ++ later ∧ group.length = size :=
        ⟨_, _, (List.take_append_drop size digits).symm, by rw [List.length_take]; omega⟩
      rw [List.length_append, grouped, Nat.add_left_cancel_iff] at counted
      rw [separate_append (List.cons_ne_nil _ _) grouped, unhyphenate?, List.drop_left' grouped,
        List.take_left' grouped]
      · simp only [ih counted, Option.map_some]
      · exact List.cons_ne_nil _ _

theorem unhyphenate?_eq_some_iff {spelled digits : Bytes} :
    unhyphenate? sizes spelled = some digits ↔
      digits.length = sizes.sum ∧ spelled = separate 0x2d sizes digits := by
  refine ⟨of_unhyphenate?, ?_⟩
  rintro ⟨counted, rfl⟩
  exact unhyphenate?_separate counted

end Groups

section Wrappings

variable {spelled bare : Bytes}

private theorem exists_braced (size : spelled.length = 38) (opened : spelled.head? = some 0x7b)
    (closed : spelled.getLast? = some 0x7d) :
    ∃ bare, bare.length = 36 ∧ spelled = 0x7b :: bare ++ [0x7d] := by
  obtain ⟨rest, rfl⟩ := List.getLast?_eq_some_iff.mp closed
  cases rest with
  | nil => cases size
  | cons first bare =>
    obtain rfl : first = 0x7b := Option.some.inj opened
    simp only [List.length_append, List.length_cons, List.length_nil] at size
    exact ⟨bare, by omega, rfl⟩

/-- A text is unwrapped to one of the size of a written form: itself, or what is in its braces or
behind its prefix. -/
theorem unwrap?_eq_some_iff :
    unwrap? spelled = some bare ↔ bare.length = 36 ∧
      (spelled = bare ∨ spelled = 0x7b :: bare ++ [0x7d] ∨
        ∃ urn, urn.map lower = Bytes.ofText "urn:uuid:" ∧ spelled = urn ++ bare) := by
  have prefixSize : (Bytes.ofText "urn:uuid:").length = 9 := by decide
  unfold unwrap?
  constructor
  · intro unwrapped
    dsimp only at unwrapped
    split at unwrapped
    · rename_i size
      cases unwrapped
      exact ⟨size, .inl rfl⟩
    · split at unwrapped
      · rename_i braces
        simp only [Bool.and_eq_true, decide_eq_true_eq] at braces
        obtain ⟨⟨size, opened⟩, closed⟩ := braces
        obtain ⟨inside, insideSize, rfl⟩ := exists_braced size opened closed
        rw [List.cons_append, List.drop_one, List.tail_cons, List.take_left' insideSize]
          at unwrapped
        cases unwrapped
        exact ⟨insideSize, .inr (.inl rfl)⟩
      · split at unwrapped
        · rename_i urn
          simp only [Bool.and_eq_true, decide_eq_true_eq] at urn
          obtain ⟨size, same⟩ := urn
          cases unwrapped
          refine ⟨by rw [List.length_drop, size], .inr (.inr ⟨_, same, ?_⟩)⟩
          exact (List.take_append_drop 9 spelled).symm
        · cases unwrapped
  · rintro ⟨size, rfl | rfl | ⟨urn, same, rfl⟩⟩
    · exact if_pos size
    · have closed : (0x7b :: (bare ++ [0x7d])).getLast? = some 0x7d :=
        List.getLast?_concat (l := 0x7b :: bare)
      simp [size, closed]
    · have urnSize : urn.length = 9 := by rw [← List.length_map lower, same, prefixSize]
      simp [size, urnSize, same]

/-- What holds of the hyphen and of all digits holds of the characters of a written form. -/
private theorem forall_mem_display {holds : Char → Prop} (hyphen : holds '-')
    (digits : ∀ n < 16, holds (Hex.digit n)) (uuid : Uuid) :
    ∀ c ∈ uuid.display.toList, holds c := by
  intro c member
  rw [display, String.toList_ofList, hyphenate_eq] at member
  obtain rfl | digit := mem_separate member
  · exact hyphen
  · exact Hex.forall_mem_encode digits uuid.bytes c digit

/-- The bytes of the written form: those of the digits in groups between hyphens. -/
theorem ofText_display (uuid : Uuid) :
    Bytes.ofText uuid.display =
      separate 0x2d groups (Bytes.ofText (Hex.encode uuid.bytes)) := by
  have digits : ∀ c ∈ (Hex.encode uuid.bytes).toList, c.utf8Size = 1 :=
    Hex.forall_mem_encode (by decide) uuid.bytes
  have ascii : ∀ c ∈ uuid.display.toList, c.utf8Size = 1 :=
    forall_mem_display (by decide) (by decide) uuid
  rw [Bytes.ofText_of_ascii ascii, Bytes.ofText_of_ascii digits, display, String.toList_ofList,
    hyphenate_eq, map_separate]
  rfl

theorem length_ofText_display (uuid : Uuid) : (Bytes.ofText uuid.display).length = 36 := by
  have digits : (Bytes.ofText (Hex.encode uuid.bytes)).length = 32 := by
    rw [Hex.length_ofText_encode, uuid.size]
  rw [ofText_display]
  simp [separate, groups, digits]

theorem bind_ofDigits?_eq_some_iff {uuid : Uuid} :
    (unhyphenate? groups bare).bind ofDigits? = some uuid ↔
      bare.map lower = Bytes.ofText uuid.display := by
  simp only [Option.bind_eq_some_iff, unhyphenate?_eq_some_iff, ofDigits?_eq_some_iff,
    ofText_display]
  constructor
  · rintro ⟨digits, ⟨_, rfl⟩, same⟩
    rw [map_separate, same]
    rfl
  · intro same
    have counted : (Bytes.ofText (Hex.encode uuid.bytes)).length = groups.sum := by
      rw [Hex.length_ofText_encode, uuid.size]
      rfl
    have marks : ∀ b, lower b = lower 0x2d → b = 0x2d := fun b => lower_eq_mark b _ (by decide)
    obtain ⟨digits, rfl, spelled⟩ := exists_of_map_eq_separate marks counted same
    refine ⟨digits, ⟨?_, rfl⟩, spelled⟩
    rw [← counted, ← spelled, List.length_map]

/-- The wrapped forms that spell an identifier are its written form, and that form in braces or
behind the prefix. -/
private theorem unwrapped_iff {uuid : Uuid} :
    ((unwrap? spelled).bind fun bare => (unhyphenate? groups bare).bind ofDigits?) = some uuid ↔
      spelled.map lower = Bytes.ofText uuid.display ∨
      spelled.map lower = 0x7b :: Bytes.ofText uuid.display ++ [0x7d] ∨
      spelled.map lower = Bytes.ofText "urn:uuid:" ++ Bytes.ofText uuid.display := by
  rw [Option.bind_eq_some_iff]
  simp only [unwrap?_eq_some_iff, bind_ofDigits?_eq_some_iff]
  have sized {bare : Bytes} (same : bare.map lower = Bytes.ofText uuid.display) :
      bare.length = 36 := by
    rw [← List.length_map lower, same, length_ofText_display]
  constructor
  · rintro ⟨bare, ⟨_, rfl | rfl | ⟨urn, prefixSame, rfl⟩⟩, same⟩
    · exact .inl same
    · refine .inr (.inl ?_)
      rw [List.map_append, List.map_cons, same]
      rfl
    · exact .inr (.inr (by rw [List.map_append, prefixSame, same]))
  · rintro (same | same | same)
    · exact ⟨spelled, ⟨sized same, .inl rfl⟩, same⟩
    · obtain ⟨opened, closed, rfl, openedSame, closedSame⟩ := List.map_eq_append_iff.mp same
      obtain ⟨first, bare, rfl, firstSame, bareSame⟩ := List.map_eq_cons_iff.mp openedSame
      obtain ⟨last, none, rfl, lastSame, noneSame⟩ := List.map_eq_cons_iff.mp closedSame
      obtain rfl := List.map_eq_nil_iff.mp noneSame
      obtain rfl := lower_eq_mark first _ (by decide) firstSame
      obtain rfl := lower_eq_mark last _ (by decide) lastSame
      exact ⟨bare, ⟨sized bareSame, .inr (.inl rfl)⟩, bareSame⟩
    · obtain ⟨urn, bare, rfl, prefixSame, bareSame⟩ := List.map_eq_append_iff.mp same
      exact ⟨bare, ⟨sized bareSame, .inr (.inr ⟨urn, prefixSame, rfl⟩)⟩, bareSame⟩

end Wrappings

/-- A text is read as an identifier exactly when it is one of the spellings, in either case. -/
theorem parse?_eq_some_iff {text : String} {uuid : Uuid} :
    parse? text = some uuid ↔ text.toLower ∈ uuid.forms := by
  have opened : Bytes.ofText "\x7b" = [0x7b] := by decide
  have closed : Bytes.ofText "\x7d" = [0x7d] := by decide
  have sized {form : Bytes} (same : (Bytes.ofText text).map lower = form) :
      (Bytes.ofText text).length = form.length := by
    rw [← same, List.length_map]
  simp only [forms, List.mem_cons, List.not_mem_nil, or_false, ← Bytes.ofText_inj,
    Bytes.ofText_append, ofText_toLower, opened, closed]
  unfold parse?
  dsimp only
  split
  · rename_i short
    rw [ofDigits?_eq_some_iff]
    refine ⟨.inl, ?_⟩
    rintro (same | wrapped)
    · exact same
    · have long : 36 ≤ (Bytes.ofText text).length := by
        rcases wrapped with same | same | same
        all_goals
          rw [sized same]
          simp only [List.length_append, length_ofText_display]
          omega
      omega
  · rename_i long
    rw [unwrapped_iff]
    refine ⟨.inr, ?_⟩
    rintro (same | wrapped)
    · rw [sized same, Hex.length_ofText_encode, uuid.size] at long
      exact absurd rfl long
    · exact wrapped

example : (parse? "URN:UUID:e3621407-7280-4913-b671-b2c9c4d2ddb2").map display =
    some "e3621407-7280-4913-b671-b2c9c4d2ddb2" := by decide +kernel

/-- The written form is one of the spellings as it is. -/
theorem toLower_display (uuid : Uuid) : uuid.display.toLower = uuid.display :=
  Ascii.toLower_eq_self (forall_mem_display (by decide) (by decide) uuid)

theorem parse?_display (uuid : Uuid) : parse? uuid.display = some uuid := by
  rw [parse?_eq_some_iff, toLower_display]
  simp [forms]

end Custody.Uuid
