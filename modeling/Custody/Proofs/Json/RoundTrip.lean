import Custody.Proofs.Json.Scalar

/-! # The text of a value is read back as the value

A value whose integers fit 64 bits and that holds no doubles is written as a text that says the
value and nothing else, whatever characters its texts hold. So no text inside a value can end it
early or add a field to it.
-/

namespace Custody.Json

/-- Whether a value has no doubles, only integers that fit 64 bits, at most `depth` levels of lists
and objects, and objects with their names in ascending order. -/
inductive Plain : Nat → Json → Prop
  | null {depth : Nat} : Plain depth .null
  | bool {depth : Nat} (value : Bool) : Plain depth (.bool value)
  | int {depth : Nat} {value : Int} (low : -2 ^ 63 ≤ value) (high : value < 2 ^ 64) :
    Plain depth (.int value)
  | string {depth : Nat} (value : String) : Plain depth (.string value)
  | array {depth : Nat} {items : List Json} (plain : ∀ item ∈ items, Plain depth item) :
    Plain (depth + 1) (.array items)
  | object {depth : Nat} {fields : List (String × Json)}
    (ascend : fields.Pairwise fun before after => before.1 < after.1)
    (plain : ∀ field ∈ fields, Plain depth field.2) : Plain (depth + 1) (.object fields)

section Written

/-- The characters that are written for a value. -/
def written (value : Json) : List Char := value.render.toList

/-- The characters that are written for a field. -/
def writtenField (field : String × Json) : List Char :=
  (quote field.1).toList ++ ':' :: written field.2

theorem renderItems_eq_map (items : List Json) : renderItems items = items.map render := by
  induction items with
  | nil => rfl
  | cons item items ih => rw [renderItems, ih, List.map_cons]

theorem renderFields_eq_map (fields : List (String × Json)) :
    renderFields fields = fields.map fun field => quote field.1 ++ ":" ++ render field.2 := by
  induction fields with
  | nil => rfl
  | cons field fields ih => rw [renderFields, ih, List.map_cons]

theorem written_array (items : List Json) :
    written (.array items) = '[' :: ([','].intercalate (items.map written) ++ [']']) := by
  simp only [written, render, renderItems_eq_map, String.toList_append, String.toList_intercalate,
    List.map_map]
  rfl

theorem written_object (fields : List (String × Json)) :
    written (.object fields) =
      '\x7b' :: ([','].intercalate (fields.map writtenField) ++ ['\x7d']) := by
  have field : String.toList ∘ (fun field => quote field.1 ++ ":" ++ render field.2) =
      writtenField := by
    funext field
    simp [writtenField, written]
  simp only [written, render, renderFields_eq_map, String.toList_append, String.toList_intercalate,
    List.map_map, field]
  rfl

end Written

section Read

variable {value : Json} {depth fuel : Nat} {c : Char} {cs rest : List Char}

/-- Whether the text of a value is read as the value, with as many steps as it has characters. -/
def Reads (value : Json) : Prop :=
  ∀ fuel rest, (written value).length ≤ fuel → EndsNumber rest →
    readTree? fuel (written value ++ rest) = some (value.toTree, rest)

theorem skipSpace_cons (solid : isSpace c = false) : skipSpace (c :: cs) = c :: cs :=
  List.dropWhile_cons_of_neg (by simp [solid])

private theorem ne_of_isDigit (digit : c.isDigit = true) {d : Char} (other : d.isDigit = false) :
    c ≠ d := by
  rintro rfl
  rw [digit] at other
  cases other

private theorem isSpace_of_isDigit (digit : c.isDigit = true) : isSpace c = false := by
  have other := @ne_of_isDigit c digit
  simp [isSpace, @other ' ' rfl, @other '\t' rfl, @other '\n' rfl, @other '\r' rfl]

/-- What begins with a digit is read as a number. -/
private theorem readTree?_digit (digit : c.isDigit = true) (cs : List Char) :
    readTree? (fuel + 1) (c :: cs) =
      (readNumber? false (c :: cs)).map fun (number, rest) => (.number number, rest) := by
  have scalar : readScalar? c cs =
      (readNumber? false (c :: cs)).map fun (number, rest) => (.number number, rest) := by
    unfold readScalar?
    split
    case h_6 => rfl
    all_goals exact absurd digit (by decide)
  rw [← scalar, readTree?, skipSpace_cons (isSpace_of_isDigit digit)]
  split
  · rename_i empty
    cases empty
  · rename_i same
    exact absurd (List.cons.inj same).1 (ne_of_isDigit digit rfl)
  · rename_i same
    exact absurd (List.cons.inj same).1 (ne_of_isDigit digit rfl)
  · rename_i same
    obtain ⟨rfl, rfl⟩ := List.cons.inj same
    rfl

/-- What begins with a minus sign is read as a number. -/
private theorem readTree?_minus (cs : List Char) :
    readTree? (fuel + 1) ('-' :: cs) =
      (readNumber? true cs).map fun (number, rest) => (.number number, rest) := by
  rfl

private theorem readTree?_quote (cs : List Char) :
    readTree? (fuel + 1) ('"' :: cs) =
      (readString? cs).map fun (text, rest) => (.string text, rest) := by
  rfl

private theorem readTree?_bracket (solid : isSpace c = false) (item : c ≠ ']') (cs : List Char) :
    readTree? (fuel + 1) ('[' :: c :: cs) =
      (readItems? fuel (c :: cs) []).map fun (items, rest) => (.array items, rest) := by
  have first : skipSpace ('[' :: c :: cs) = '[' :: c :: cs := skipSpace_cons rfl
  simp only [readTree?, first, skipSpace_cons solid]
  split
  · rename_i same
    exact absurd (List.cons.inj same).1 item
  · rfl

private theorem readTree?_brace (cs : List Char) :
    readTree? (fuel + 1) ('\x7b' :: '"' :: cs) =
      (readFields? fuel ('"' :: cs) []).map fun (fields, rest) => (.object fields, rest) := by
  rfl

/-- What stands behind a value is no part of a number. -/
private theorem endsNumber_cons (sign : c = ',' ∨ c = ']' ∨ c = '\x7d') :
    EndsNumber (c :: rest) := by
  intro d first
  obtain rfl := Option.some.inj first
  rcases sign with rfl | rfl | rfl <;> decide

/-- Items that are read from their texts are read from a list of them. -/
private theorem readItems?_intercalate {items : List Json} (reads : ∀ item ∈ items, Reads item)
    (filled : items ≠ []) (rest : List Char) (done : List Tree)
    (enough : ([','].intercalate (items.map written)).length < fuel) :
    readItems? fuel ([','].intercalate (items.map written) ++ ']' :: rest) done =
      some (done.reverse ++ itemsToTrees items, rest) := by
  induction items generalizing fuel done with
  | nil => exact absurd rfl filled
  | cons item items ih =>
    obtain ⟨here, later⟩ := List.forall_mem_cons.mp reads
    obtain ⟨fuel, rfl⟩ : ∃ less, fuel = less + 1 := ⟨fuel - 1, by omega⟩
    cases items with
    | nil =>
      simp only [List.map_cons, List.map_nil, List.intercalate_singleton] at enough ⊢
      have read := here fuel (']' :: rest) (by omega) (endsNumber_cons (.inr (.inl rfl)))
      have close : skipSpace (']' :: rest) = ']' :: rest := skipSpace_cons rfl
      simp only [readItems?, read, close, List.reverse_cons, itemsToTrees]
    | cons next items =>
      simp only [List.map_cons, List.intercalate_cons_cons, List.length_append, List.length_cons,
        List.length_nil] at enough
      have within : ([','].intercalate (written next :: items.map written)).length < fuel := by
        omega
      have more := ih later (List.cons_ne_nil _ _) (item.toTree :: done) within
      simp only [List.map_cons, List.intercalate_cons_cons, List.append_assoc, List.cons_append,
        List.nil_append] at more ⊢
      have read := here fuel (',' :: ([','].intercalate (written next :: items.map written) ++
        ']' :: rest)) (by omega) (endsNumber_cons (.inl rfl))
      have comma (cs : List Char) : skipSpace (',' :: cs) = ',' :: cs := skipSpace_cons rfl
      simp only [readItems?, read, comma, more, List.reverse_cons, itemsToTrees, List.append_assoc,
        List.cons_append, List.nil_append]

/-- Fields that are read from their texts are read from an object of them. -/
private theorem readFields?_intercalate {fields : List (String × Json)}
    (reads : ∀ field ∈ fields, Reads field.2) (filled : fields ≠ []) (rest : List Char)
    (done : List (Option String × Tree))
    (enough : ([','].intercalate (fields.map writtenField)).length < fuel) :
    readFields? fuel ([','].intercalate (fields.map writtenField) ++ '\x7d' :: rest) done =
      some (done.reverse ++ fieldsToTrees fields, rest) := by
  induction fields generalizing fuel done with
  | nil => exact absurd rfl filled
  | cons field fields ih =>
    obtain ⟨here, later⟩ := List.forall_mem_cons.mp reads
    obtain ⟨fuel, rfl⟩ : ∃ less, fuel = less + 1 := ⟨fuel - 1, by omega⟩
    have quoted (cs : List Char) : skipSpace ('"' :: cs) = '"' :: cs := skipSpace_cons rfl
    have colon (cs : List Char) : skipSpace (':' :: cs) = ':' :: cs := skipSpace_cons rfl
    have larger : (written field.2).length ≤ (writtenField field).length := by
      simp only [writtenField, List.length_append, List.length_cons]
      omega
    cases fields with
    | nil =>
      simp only [List.map_cons, List.map_nil, List.intercalate_singleton] at enough ⊢
      have read := here fuel ('\x7d' :: rest) (by omega) (endsNumber_cons (.inr (.inr rfl)))
      have close : skipSpace ('\x7d' :: rest) = '\x7d' :: rest := skipSpace_cons rfl
      simp only [writtenField, toList_quote, List.append_assoc, List.cons_append, List.nil_append]
      simp only [readFields?, quoted, readString?_flatMap_escape, colon, read, close,
        List.reverse_cons, fieldsToTrees]
    | cons next fields =>
      simp only [List.map_cons, List.intercalate_cons_cons, List.length_append, List.length_cons,
        List.length_nil] at enough
      have within : ([','].intercalate (writtenField next :: fields.map writtenField)).length <
          fuel := by
        omega
      have more := ih later (List.cons_ne_nil _ _) ((some field.1, field.2.toTree) :: done) within
      have read := here fuel (',' :: ([','].intercalate (writtenField next ::
        fields.map writtenField) ++ '\x7d' :: rest)) (by omega) (endsNumber_cons (.inl rfl))
      have comma (cs : List Char) : skipSpace (',' :: cs) = ',' :: cs := skipSpace_cons rfl
      simp only [List.map_cons, List.intercalate_cons_cons, List.append_assoc, List.cons_append,
        List.nil_append] at more ⊢
      rw [writtenField, toList_quote]
      simp only [List.append_assoc, List.cons_append, List.nil_append]
      simp only [readFields?, quoted, readString?_flatMap_escape, colon, read, comma, more,
        List.reverse_cons, fieldsToTrees, List.append_assoc, List.cons_append, List.nil_append]

/-- The digits of a number without sign. -/
theorem written_nat (n : Nat) : written (.int n) = Nat.toDigits 10 n := Nat.toList_repr

theorem written_neg {n : Nat} (positive : 0 < n) :
    written (.int (-n)) = '-' :: Nat.toDigits 10 n := by
  obtain ⟨n, rfl⟩ : ∃ less, n = less + 1 := ⟨n - 1, by omega⟩
  change ("-" ++ (n + 1).repr).toList = _
  rw [String.toList_append, Nat.toList_repr]
  rfl

/-- The digits of a number begin with a digit. -/
private theorem exists_toDigits (n : Nat) :
    ∃ c cs, Nat.toDigits 10 n = c :: cs ∧ c.isDigit = true := by
  obtain ⟨c, cs, same⟩ := List.exists_cons_of_ne_nil (Nat.toDigits_ne_nil (n := n) (b := 10))
  have digit : c ∈ Nat.toDigits 10 n := same ▸ List.mem_cons_self
  exact ⟨c, cs, same, Nat.isDigit_of_mem_toDigits (by decide) (by decide) digit⟩

/-- An integer has digits, behind a sign if it is negative. -/
private theorem int_cases (value : Int) :
    (∃ n : Nat, value = n) ∨ ∃ n : Nat, 0 < n ∧ value = -n := by
  by_cases sign : 0 ≤ value
  · exact .inl ⟨value.toNat, by omega⟩
  · exact .inr ⟨(-value).toNat, by omega, by omega⟩

/-- Whether the text of a value begins neither with a blank nor as the end of a list does. -/
def Opens (value : Json) : Prop :=
  ∃ c cs, written value = c :: cs ∧ isSpace c = false ∧ c ≠ ']'

theorem opens_string (value : String) : Opens (.string value) :=
  ⟨'"', _, toList_quote value, rfl, by decide⟩

theorem opens_array (items : List Json) : Opens (.array items) :=
  ⟨'[', _, written_array items, rfl, by decide⟩

theorem opens_object (fields : List (String × Json)) : Opens (.object fields) :=
  ⟨'\x7b', _, written_object fields, rfl, by decide⟩

theorem opens_int (value : Int) : Opens (.int value) := by
  obtain ⟨n, rfl⟩ | ⟨n, positive, rfl⟩ := int_cases value
  · obtain ⟨c, cs, same, digit⟩ := exists_toDigits n
    exact ⟨c, cs, (written_nat n).trans same, isSpace_of_isDigit digit, ne_of_isDigit digit rfl⟩
  · exact ⟨'-', _, written_neg positive, rfl, by decide⟩

/-- There is a step for the first character of a text, which is not empty. -/
private theorem Opens.reads (opens : Opens value)
    (reads : ∀ fuel rest, (written value).length ≤ fuel + 1 → EndsNumber rest →
      readTree? (fuel + 1) (written value ++ rest) = some (value.toTree, rest)) :
    Reads value := by
  intro fuel rest enough ends
  obtain ⟨c, cs, same, _⟩ := opens
  obtain ⟨fuel, rfl⟩ : ∃ less, fuel = less + 1 := by
    rw [same, List.length_cons] at enough
    exact ⟨fuel - 1, by omega⟩
  exact reads fuel rest enough ends

theorem reads_string (value : String) : Reads (.string value) := by
  refine (opens_string value).reads fun fuel rest _ _ => ?_
  rw [written, render, toList_quote, List.cons_append, readTree?_quote, List.append_assoc,
    List.singleton_append, readString?_flatMap_escape]
  rfl

theorem reads_int {value : Int} (low : -2 ^ 63 ≤ value) (high : value < 2 ^ 64) :
    Reads (.int value) := by
  refine (opens_int value).reads fun fuel rest _ ends => ?_
  obtain ⟨n, rfl⟩ | ⟨n, positive, rfl⟩ := int_cases value
  · obtain ⟨c, cs, same, digit⟩ := exists_toDigits n
    have read := readNumber?_toDigits (n := n) (by simp only [UInt64.size]; omega) ends
    rw [same, List.cons_append] at read
    rw [written_nat, same, List.cons_append, readTree?_digit digit, read]
    rfl
  · have read := readNumber?_neg_toDigits positive (by omega) ends
    rw [written_neg positive, List.cons_append, readTree?_minus, read]
    rfl

/-- A double whose text is a digit, a point and more digits, and has its value, is read from it. -/
theorem reads_real {value : Double} {first : Char} {fraction : List Char}
    (text : written (.real value) = first :: '.' :: fraction) (digit : first.isDigit = true)
    (digits : ∀ c ∈ fraction, c.isDigit = true) (filled : fraction ≠ [])
    (known : (NumberText.mk false [first.toNat - 48]
      (some (fraction.map fun c => c.toNat - 48)) none).number? = some (.real value)) :
    Reads (.real value) := by
  have opens : Opens (.real value) :=
    ⟨first, _, text, isSpace_of_isDigit digit, ne_of_isDigit digit rfl⟩
  refine opens.reads fun fuel rest _ ends => ?_
  rw [text, List.cons_append, List.cons_append, readTree?_digit digit,
    readNumber?_point false digit digits filled ends, known]
  rfl

theorem reads_array {items : List Json} (opens : ∀ item ∈ items, Opens item)
    (reads : ∀ item ∈ items, Reads item) : Reads (.array items) := by
  refine (opens_array items).reads fun fuel rest enough _ => ?_
  rw [written_array] at enough ⊢
  simp only [List.length_cons, List.length_append, List.length_nil] at enough
  cases items with
  | nil => rfl
  | cons item items =>
    obtain ⟨c, cs, same, solid, other⟩ := opens item List.mem_cons_self
    have within : ([','].intercalate ((item :: items).map written)).length < fuel := by omega
    have read := readItems?_intercalate reads (List.cons_ne_nil _ _) rest [] within
    rw [List.map_cons, same, List.intercalate_cons_cons_left, List.cons_append] at read ⊢
    simp only [List.cons_append, List.append_assoc, List.nil_append]
    rw [readTree?_bracket solid other, read]
    rfl

theorem reads_object {fields : List (String × Json)} (reads : ∀ field ∈ fields, Reads field.2) :
    Reads (.object fields) := by
  refine (opens_object fields).reads fun fuel rest enough _ => ?_
  rw [written_object] at enough ⊢
  simp only [List.length_cons, List.length_append, List.length_nil] at enough
  cases fields with
  | nil => rfl
  | cons field fields =>
    have within : ([','].intercalate ((field :: fields).map writtenField)).length < fuel := by
      omega
    have read := readFields?_intercalate reads (List.cons_ne_nil _ _) rest [] within
    simp only [List.map_cons, writtenField, toList_quote, List.intercalate_cons_cons_left,
      List.cons_append, List.append_assoc, List.nil_append] at read ⊢
    rw [readTree?_brace, read]
    rfl

private theorem Plain.opens (plain : Plain depth value) : Opens value := by
  cases plain with
  | null => exact ⟨'n', _, rfl, rfl, by decide⟩
  | bool value =>
    cases value
    · exact ⟨'f', _, rfl, rfl, by decide⟩
    · exact ⟨'t', _, rfl, rfl, by decide⟩
  | int => exact opens_int _
  | string value => exact opens_string value
  | array => exact opens_array _
  | object => exact opens_object _

/-- The text of a plain value is read as the value, whatever stands behind it. -/
theorem Plain.reads (plain : Plain depth value) : Reads value := by
  induction plain with
  | null => exact (Plain.null : Plain 0 .null).opens.reads fun _ _ _ _ => rfl
  | bool value =>
    refine (Plain.bool value : Plain 0 (.bool value)).opens.reads fun _ _ _ _ => ?_
    cases value <;> rfl
  | int low high => exact reads_int low high
  | string value => exact reads_string value
  | array plain reads => exact reads_array (fun item member => (plain item member).opens) reads
  | object _ _ reads => exact reads_object reads

end Read

section Value

theorem Reads.ofText?_render {value : Json} (reads : Reads value) :
    Tree.ofText? value.render = some value.toTree := by
  have read := reads (2 * (written value).length + 2) [] (by omega)
    (fun _ none => by cases none)
  rw [List.append_nil, written] at read
  rw [Tree.ofText?, read]
  rfl

/-- A field with a name behind all others is placed behind them. -/
private theorem placeField_append {name : String} {value : Json} {fields : List (String × Json)}
    (behind : ∀ field ∈ fields, field.1 < name) :
    placeField name value fields = fields ++ [(name, value)] := by
  induction fields with
  | nil => rfl
  | cons field fields ih =>
    obtain ⟨here, later⟩ := List.forall_mem_cons.mp behind
    have apart : name ≠ field.1 := fun same => String.lt_irrefl _ (same ▸ here)
    rw [placeField, if_neg (String.lt_asymm here), if_neg apart, ih later, List.cons_append]

private theorem foldl_placeField (done : List (String × Json)) {fields : List (String × Json)}
    (ascend : (done ++ fields).Pairwise fun before after => before.1 < after.1) :
    fields.foldl (fun done (name, value) => placeField name value done) done = done ++ fields := by
  induction fields generalizing done with
  | nil => rw [List.foldl_nil, List.append_nil]
  | cons field fields ih =>
    have behind : ∀ earlier ∈ done, earlier.1 < field.1 := fun earlier member =>
      (List.pairwise_append.mp ascend).2.2 earlier member field List.mem_cons_self
    obtain ⟨name, value⟩ := field
    rw [List.append_cons] at ascend ⊢
    rw [List.foldl_cons]
    dsimp only
    rw [placeField_append behind, ih _ ascend]

/-- Fields in ascending order are those of their object. -/
theorem ofFields_of_ascend {fields : List (String × Json)}
    (ascend : fields.Pairwise fun before after => before.1 < after.1) :
    ofFields fields = .object fields := by
  rw [ofFields, foldl_placeField [] ascend, List.nil_append]

theorem Plain.toJson?_toTree {value : Json} {depth : Nat} (plain : Plain depth value) :
    value.toTree.toJson? depth = some value := by
  induction plain with
  | null | bool | int | string => rfl
  | @array depth items plain ih =>
    have values : itemsToJson? depth (itemsToTrees items) = some items := by
      clear plain
      induction items with
      | nil => rfl
      | cons item items each =>
        obtain ⟨here, later⟩ := List.forall_mem_cons.mp ih
        simp only [itemsToTrees, itemsToJson?, here, each later]
    simp only [toTree, Tree.toJson?, Nat.succ_ne_zero, ↓reduceIte, Nat.add_sub_cancel, values,
      Option.map_some]
  | @object depth fields ascend plain ih =>
    have values : fieldsToJson? depth (fieldsToTrees fields) = some fields := by
      clear plain ascend
      induction fields with
      | nil => rfl
      | cons field fields each =>
        obtain ⟨here, later⟩ := List.forall_mem_cons.mp ih
        simp only [fieldsToTrees, fieldsToJson?, here, each later]
    simp only [toTree, Tree.toJson?, Nat.succ_ne_zero, ↓reduceIte, Nat.add_sub_cancel, values,
      Option.map_some, ofFields_of_ascend ascend]

/-- The text of a value is read back as the value. -/
theorem Plain.parse?_render {value : Json} (plain : Plain maxDepth value) :
    parse? value.render = some value := by
  rw [parse?, plain.reads.ofText?_render, Option.bind_some, plain.toJson?_toTree]

end Value

end Custody.Json
