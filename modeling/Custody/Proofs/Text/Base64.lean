import Custody.Text.Base64
import Custody.Text.Blank

/-! # Base 64 is read as it is written

What is written for some bytes is read as those bytes. No digit is a padding character, so padding
behind a written text can be told from it.
-/

namespace Custody

namespace Blank

/-- Repetitions of a character at the end of a text that does not hold it are all that is
trimmed. -/
theorem trimEnd_append_replicate {text : String} {c : Char} (solid : c ∉ text.toList) (n : Nat) :
    trimEnd (· = c) (text ++ String.ofList (List.replicate n c)) = text := by
  have kept (cs : List Char) (absent : c ∉ cs) : cs.dropWhile (decide <| · = c) = cs := by
    cases cs with
    | nil => rfl
    | cons first cs =>
      have differs : first ≠ c := fun same => absent (same ▸ List.mem_cons_self)
      exact List.dropWhile_cons_of_neg (by simpa using differs)
  have padding : ∀ pad ∈ List.replicate n c, decide (pad = c) = true := by
    intro pad member
    rw [List.eq_of_mem_replicate member, decide_eq_true_eq]
  rw [trimEnd, String.toList_append, String.toList_ofList, List.reverse_append,
    List.reverse_replicate, List.dropWhile_append_of_pos padding,
    kept _ (mt List.mem_reverse.mp solid), List.reverse_reverse, String.ofList_toList]

end Blank

namespace Base64

/-- The values of the digits of some bytes: four for each group of three bytes, and two or three
for what is left. -/
def sextets : Bytes → List Nat
  | a :: b :: c :: rest =>
    let group := 65536 * a.toNat + 256 * b.toNat + c.toNat
    group / 262144 :: group / 4096 % 64 :: group / 64 % 64 :: group % 64 :: sextets rest
  | [a, b] =>
    let group := 4 * (256 * a.toNat + b.toNat)
    [group / 4096, group / 64 % 64, group % 64]
  | [a] =>
    let group := 16 * a.toNat
    [group / 64, group % 64]
  | [] => []

private theorem value?_digit : ∀ n < 64, value? (digit n) = some n := by
  decide

private theorem digit_ne_pad : ∀ n < 64, digit n ≠ '=' := by
  decide

theorem encodeGroups_eq (bytes : Bytes) (done : List Char) :
    encodeGroups bytes done = done.reverse ++ (sextets bytes).map digit := by
  fun_induction encodeGroups bytes done with
  | case1 done a b c rest group ih => simp [ih, sextets, group]
  | case2 done a b group => simp [sextets, group]
  | case3 done a group => simp [sextets, group]
  | case4 done => simp [sextets]

theorem sextets_lt (bytes : Bytes) : ∀ value ∈ sextets bytes, value < 64 := by
  fun_induction sextets bytes with
  | case1 a b c rest group ih =>
    have high := a.toNat_lt
    have middle := b.toNat_lt
    have low := c.toNat_lt
    simp only [List.forall_mem_cons]
    exact ⟨by omega, by omega, by omega, by omega, ih⟩
  | case2 a b group =>
    have high := a.toNat_lt
    have low := b.toNat_lt
    simp only [List.forall_mem_cons, List.not_mem_nil, false_implies, implies_true, and_true]
    exact ⟨by omega, by omega, by omega⟩
  | case3 a group =>
    have byte := a.toNat_lt
    simp only [List.forall_mem_cons, List.not_mem_nil, false_implies, implies_true, and_true]
    exact ⟨by omega, by omega⟩
  | case4 => simp

/-- The low byte of a number that ends in a byte is that byte. -/
private theorem ofNat_eq {n : Nat} {b : UInt8} (ends : n % 256 = b.toNat) : UInt8.ofNat n = b := by
  apply UInt8.toNat_inj.mp
  rw [UInt8.toNat_ofNat']
  exact ends

theorem decodeGroups_sextets (bytes done : Bytes) :
    decodeGroups (sextets bytes) done = some (done.reverse ++ bytes) := by
  -- The digits of a group add up to its number, and the bytes are cut from that.
  fun_induction sextets bytes generalizing done with
  | case1 a b c rest group ih =>
    have high := a.toNat_lt
    have middle := b.toNat_lt
    have low := c.toNat_lt
    have whole : 262144 * (group / 262144) + 4096 * (group / 4096 % 64) +
        64 * (group / 64 % 64) + group % 64 = group := by omega
    have first : UInt8.ofNat (group / 65536) = a := ofNat_eq (by omega)
    have second : UInt8.ofNat (group / 256) = b := ofNat_eq (by omega)
    have third : UInt8.ofNat group = c := ofNat_eq (by omega)
    rw [decodeGroups, whole, first, second, third, ih]
    simp
  | case2 a b group =>
    have high := a.toNat_lt
    have low := b.toNat_lt
    have whole : 4096 * (group / 4096) + 64 * (group / 64 % 64) + group % 64 = group := by omega
    have first : UInt8.ofNat (group / 1024) = a := ofNat_eq (by omega)
    have second : UInt8.ofNat (group / 4) = b := ofNat_eq (by omega)
    have spare : group % 4 = 0 := by omega
    simp only [decodeGroups, whole, spare, first, second, ↓reduceIte]
    simp
  | case3 a group =>
    have byte := a.toNat_lt
    have whole : 64 * (group / 64) + group % 64 = group := by omega
    have first : UInt8.ofNat (group / 16) = a := ofNat_eq (by omega)
    have spare : group % 16 = 0 := by omega
    simp only [decodeGroups, whole, spare, first, ↓reduceIte]
    simp
  | case4 => simp [decodeGroups]

private theorem values?_map_digit {values : List Nat} (small : ∀ value ∈ values, value < 64) :
    values? (values.map digit) = some values := by
  have read : (values.map digit).filterMap value? = values := by
    rw [List.filterMap_map]
    induction values with
    | nil => rfl
    | cons value values ih =>
      obtain ⟨here, later⟩ := List.forall_mem_cons.mp small
      have read : (value? ∘ digit) value = some value := value?_digit value here
      rw [List.filterMap_cons_some read, ih later]
  simp only [values?, read, List.length_map, ↓reduceIte]

theorem toList_encode (bytes : Bytes) : (encode bytes).toList = (sextets bytes).map digit := by
  rw [encode, String.toList_ofList, encodeGroups_eq, List.reverse_nil, List.nil_append]

/-- What is written for some bytes is read as those bytes. -/
theorem decode?_encode (bytes : Bytes) : decode? (encode bytes) = some bytes := by
  rw [decode?, toList_encode, values?_map_digit (sextets_lt bytes), Option.bind_some,
    decodeGroups_sextets, List.reverse_nil, List.nil_append]

/-- What holds of all digits holds of the characters of a written text. -/
theorem forall_mem_encode {holds : Char → Prop} (digits : ∀ n < 64, holds (digit n))
    (bytes : Bytes) : ∀ c ∈ (encode bytes).toList, holds c := by
  rw [toList_encode]
  intro c member
  obtain ⟨value, held, rfl⟩ := List.mem_map.mp member
  exact digits value (sextets_lt bytes value held)

/-- Padding is no part of what is written. -/
theorem pad_not_mem_encode (bytes : Bytes) : '=' ∉ (encode bytes).toList := by
  have differs : ∀ c ∈ (encode bytes).toList, c ≠ '=' := forall_mem_encode digit_ne_pad bytes
  exact fun member => differs _ member rfl

end Base64

end Custody
