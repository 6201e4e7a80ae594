import Custody.Packet.Codec
import Custody.Proofs.CompactSize
import Custody.Proofs.KeyMap

/-! # Maps are read in any order of their entries

A map is read from the written forms of its entries in any order, each key once, and from nothing
else. The written order is therefore all that reading a map forgets.
-/

namespace Custody

namespace KeyMap

/-- The binary form of entries in the order in which they are listed. -/
def writeEntries (entries : List (Bytes × Bytes)) : Bytes :=
  (entries.flatMap fun entry => CompactSize.sized entry.1 ++ CompactSize.sized entry.2) ++ [0]

theorem encode_eq_writeEntries (map : KeyMap) : map.encode = writeEntries map.entries := rfl

theorem length_writeEntries (entries : List (Bytes × Bytes)) :
    (writeEntries entries).length =
      (entries.map fun entry => (CompactSize.sized entry.1 ++ CompactSize.sized entry.2).length).sum
        + 1 := by
  simp only [writeEntries, List.length_append, List.length_flatMap, List.length_cons,
    List.length_nil]

theorem length_writeEntries_of_perm {entries entries' : List (Bytes × Bytes)}
    (perm : entries.Perm entries') :
    (writeEntries entries).length = (writeEntries entries').length := by
  rw [length_writeEntries, length_writeEntries, (perm.map _).sum_nat]

end KeyMap

namespace Packet

open Bytes

/-- Whether a key or value is short enough to be read. -/
def Fits (item : Bytes) : Prop :=
  CompactSize.size item.length + item.length ≤ maxEntry

instance (item : Bytes) : Decidable (Fits item) :=
  inferInstanceAs (Decidable (_ ≤ _))

theorem Fits.length_lt {item : Bytes} (fits : Fits item) : item.length < 2 ^ 64 := by
  unfold Fits maxEntry at fits
  omega

theorem fits_of_length_le {item : Bytes} (short : item.length ≤ 3999991) : Fits item := by
  have size := CompactSize.size_le item.length
  unfold Fits maxEntry
  omega

theorem reads_readItem : Reads readItem? Fits CompactSize.sized := by
  intro bytes item rest
  unfold readItem?
  constructor
  · intro read
    split at read
    · simp at read
    · rename_i found
      obtain ⟨_, rfl⟩ := (CompactSize.reads_readSized _ _ _).mp found
      simp only [Option.ite_none_right_eq_some, Option.some.injEq, Prod.mk.injEq] at read
      obtain ⟨fits, rfl, rfl⟩ := read
      exact ⟨fits, rfl⟩
  · rintro ⟨fits, rfl⟩
    have small : CompactSize.size item.length + item.length ≤ maxEntry := fits
    simp only [CompactSize.reads_readSized.read_append fits.length_lt, small, ↓reduceIte]

/-- Whether an entry can stand in a map: its key is not empty, and both parts can be read. -/
structure Readable (entry : Bytes × Bytes) : Prop where
  keyed : entry.1 ≠ []
  key : Fits entry.1
  value : Fits entry.2

private theorem readItem?_nil (rest : Bytes) : readItem? (0 :: rest) = some ([], rest) := by
  have empty : Fits [] := by decide
  exact reads_readItem.read_append empty rest

theorem readMap_nil (map : KeyMap) (rest : Bytes) : readMap map (0 :: rest) = .ok (map, rest) := by
  rw [readMap]
  split
  · rename_i read
    simp [readItem?_nil] at read
  · rename_i key after read
    obtain ⟨rfl, rfl⟩ : [] = key ∧ rest = after := by simpa [readItem?_nil] using read
    rw [if_pos List.isEmpty_nil]

/-- What the reader of maps does at an entry. -/
theorem readMap_entry (map : KeyMap) {entry : Bytes × Bytes} (readable : Readable entry)
    (bytes : Bytes) :
    readMap map (CompactSize.sized entry.1 ++ (CompactSize.sized entry.2 ++ bytes)) =
      if map.contains entry.1 then .error (.duplicateKey entry.1)
      else readMap (map.insert entry.1 entry.2) bytes := by
  have readKey := reads_readItem.read_append readable.key (CompactSize.sized entry.2 ++ bytes)
  have readValue := reads_readItem.read_append readable.value bytes
  rw [readMap]
  split
  · rename_i read
    simp [readKey] at read
  · rename_i key after read
    obtain ⟨rfl, rfl⟩ : entry.1 = key ∧ _ = after := by simpa [readKey] using read
    rw [if_neg (by simpa using readable.keyed)]
    split
    · rename_i read
      simp [readValue] at read
    · rename_i value rest read
      obtain ⟨rfl, rfl⟩ : entry.2 = value ∧ bytes = rest := by simpa [readValue] using read
      rfl

/-- A map that is read either ends at once or starts with an entry under a fresh key. -/
private theorem readMap_eq_ok_cases {map map' : KeyMap} {bytes rest : Bytes}
    (read : readMap map bytes = .ok (map', rest)) :
    (bytes = 0 :: rest ∧ map' = map) ∨
      ∃ (entry : Bytes × Bytes) (after : Bytes), Readable entry ∧ map.contains entry.1 = false ∧
        bytes = CompactSize.sized entry.1 ++ (CompactSize.sized entry.2 ++ after) ∧
        readMap (map.insert entry.1 entry.2) after = .ok (map', rest) := by
  rw [readMap] at read
  split at read
  · simp at read
  · rename_i key afterKey readKey
    obtain ⟨fitsKey, rfl⟩ := (reads_readItem _ _ _).mp readKey
    split at read
    · rename_i empty
      obtain rfl := List.isEmpty_iff.mp empty
      simp only [Except.ok.injEq, Prod.mk.injEq] at read
      obtain ⟨rfl, rfl⟩ := read
      exact .inl ⟨rfl, rfl⟩
    · rename_i keyed
      split at read
      · simp at read
      · rename_i value after readValue
        obtain ⟨fitsValue, rfl⟩ := (reads_readItem _ _ _).mp readValue
        split at read
        · simp at read
        · rename_i fresh
          exact .inr ⟨(key, value), after, ⟨by simpa using keyed, fitsKey, fitsValue⟩,
            by simpa using fresh, rfl, read⟩

private theorem fresh_of_contains {map : KeyMap} {key : Bytes}
    (fresh : map.contains key = false) : ∀ entry ∈ map.entries, entry.1 ≠ key := by
  rintro entry member rfl
  have present := KeyMap.contains_eq_true_iff.mpr ⟨entry.2, member⟩
  simp [fresh] at present

private theorem entries_of_readMap {map map' : KeyMap} {bytes rest : Bytes}
    (read : readMap map bytes = .ok (map', rest)) :
    ∃ entries, (∀ entry ∈ entries, Readable entry) ∧
      (map.entries ++ entries).Perm map'.entries ∧ bytes = KeyMap.writeEntries entries ++ rest := by
  induction length : bytes.length using Nat.strongRecOn generalizing map bytes with
  | ind size ih =>
    subst length
    rcases readMap_eq_ok_cases read with ⟨rfl, rfl⟩ | ⟨entry, after, readable, fresh, rfl, next⟩
    · exact ⟨[], by simp, by simp, rfl⟩
    · have shorter : after.length <
          (CompactSize.sized entry.1 ++ (CompactSize.sized entry.2 ++ after)).length := by
        have positive := CompactSize.size_pos entry.1.length
        simp only [List.length_append, CompactSize.length_sized]
        omega
      obtain ⟨entries, all, perm, rfl⟩ := ih _ shorter next rfl
      have added : (map.insert entry.1 entry.2).entries.Perm (entry :: map.entries) :=
        KeyMap.insert_perm (fresh_of_contains fresh)
      refine ⟨entry :: entries, List.forall_mem_cons.mpr ⟨readable, all⟩, ?_, ?_⟩
      · have moved : (map.entries ++ entry :: entries).Perm
            ((map.insert entry.1 entry.2).entries ++ entries) :=
          List.perm_middle.trans (added.symm.append_right entries)
        exact moved.trans perm
      · simp only [KeyMap.writeEntries, List.flatMap_cons, List.append_assoc]

private theorem readMap_of_entries {map map' : KeyMap} {entries : List (Bytes × Bytes)}
    {rest : Bytes} (readable : ∀ entry ∈ entries, Readable entry)
    (perm : (map.entries ++ entries).Perm map'.entries) :
    readMap map (KeyMap.writeEntries entries ++ rest) = .ok (map', rest) := by
  induction entries generalizing map with
  | nil =>
    rw [List.append_nil] at perm
    obtain rfl := KeyMap.eq_of_perm perm
    exact readMap_nil map rest
  | cons entry entries ih =>
    obtain ⟨here, later⟩ := List.forall_mem_cons.mp readable
    have distinct : ((map.entries ++ entry :: entries).map Prod.fst).Nodup :=
      (perm.map Prod.fst).nodup_iff.mpr map'.keys_nodup
    have fresh : ∀ old ∈ map.entries, old.1 ≠ entry.1 := by
      intro old member same
      rw [List.map_append, List.nodup_append] at distinct
      exact distinct.2.2 old.1 (List.mem_map_of_mem member) entry.1 (by simp) same
    have absent : map.contains entry.1 = false := by
      rw [Bool.eq_false_iff]
      intro present
      obtain ⟨value, member⟩ := KeyMap.contains_eq_true_iff.mp present
      exact fresh _ member rfl
    have added : (map.insert entry.1 entry.2).entries.Perm (entry :: map.entries) :=
      KeyMap.insert_perm fresh
    have moved : ((map.insert entry.1 entry.2).entries ++ entries).Perm map'.entries :=
      ((added.append_right entries).trans List.perm_middle.symm).trans perm
    have split : KeyMap.writeEntries (entry :: entries) ++ rest = CompactSize.sized entry.1 ++
        (CompactSize.sized entry.2 ++ (KeyMap.writeEntries entries ++ rest)) := by
      simp only [KeyMap.writeEntries, List.flatMap_cons, List.append_assoc]
    rw [split, readMap_entry map here, absent, if_neg Bool.false_ne_true]
    exact ih later moved

/-- Reading a map behind the entries of another takes exactly the readable entries that, with those
already there, make up the result, in any order. -/
theorem readMap_eq_ok_iff {map map' : KeyMap} {bytes rest : Bytes} :
    readMap map bytes = .ok (map', rest) ↔
      ∃ entries, (∀ entry ∈ entries, Readable entry) ∧
        (map.entries ++ entries).Perm map'.entries ∧
        bytes = KeyMap.writeEntries entries ++ rest := by
  constructor
  · exact entries_of_readMap
  · rintro ⟨entries, readable, perm, rfl⟩
    exact readMap_of_entries readable perm

/-- A map is read from its readable entries, listed in any order. -/
theorem readMap_empty_eq_ok_iff {map : KeyMap} {bytes rest : Bytes} :
    readMap KeyMap.empty bytes = .ok (map, rest) ↔
      (∀ entry ∈ map.entries, Readable entry) ∧
        ∃ entries, entries.Perm map.entries ∧ bytes = KeyMap.writeEntries entries ++ rest := by
  rw [readMap_eq_ok_iff]
  constructor
  · rintro ⟨entries, readable, perm, rfl⟩
    have same : entries.Perm map.entries := perm
    exact ⟨fun entry member => readable entry (same.mem_iff.mpr member), entries, same, rfl⟩
  · rintro ⟨readable, entries, perm, rfl⟩
    exact ⟨entries, fun entry member => readable entry (perm.mem_iff.mp member), perm, rfl⟩

/-- Readable entries say where they end: no other entries are written so, whatever follows, unless
one of them has the empty key that ends a map. -/
theorem writeEntries_append_inj {a b : List (Bytes × Bytes)} {after after' : Bytes}
    (keyed : ∀ entry ∈ a, entry.1 ≠ []) (readable : ∀ entry ∈ b, Readable entry)
    (same : KeyMap.writeEntries a ++ after = KeyMap.writeEntries b ++ after') :
    a = b ∧ after = after' := by
  have empty : ([] : Bytes).length < 2 ^ 64 := by decide
  have ends (rest : Bytes) : KeyMap.writeEntries [] ++ rest = CompactSize.sized [] ++ rest := rfl
  have starts (entry : Bytes × Bytes) (entries : List (Bytes × Bytes)) (rest : Bytes) :
      KeyMap.writeEntries (entry :: entries) ++ rest = CompactSize.sized entry.1 ++
        (CompactSize.sized entry.2 ++ (KeyMap.writeEntries entries ++ rest)) := by
    simp only [KeyMap.writeEntries, List.flatMap_cons, List.append_assoc]
  induction a generalizing b with
  | nil =>
    cases b with
    | nil =>
      rw [ends, ends] at same
      exact ⟨rfl, (CompactSize.sized_append_inj empty same).2⟩
    | cons entry b =>
      have here := readable entry List.mem_cons_self
      rw [ends, starts] at same
      exact absurd (CompactSize.sized_append_inj here.key.length_lt same).1.symm here.keyed
  | cons entry a ih =>
    obtain ⟨here, later⟩ := List.forall_mem_cons.mp keyed
    cases b with
    | nil =>
      rw [ends, starts] at same
      exact absurd (CompactSize.sized_append_inj empty same).1 here
    | cons entry' b =>
      obtain ⟨here', later'⟩ := List.forall_mem_cons.mp readable
      rw [starts, starts] at same
      obtain ⟨key, same⟩ := CompactSize.sized_append_inj here'.key.length_lt same
      obtain ⟨value, same⟩ := CompactSize.sized_append_inj here'.value.length_lt same
      obtain ⟨rfl, rest⟩ := ih later later' same
      exact ⟨by rw [Prod.ext key value], rest⟩

/-- Readable maps, one behind the other, are told from any others without empty keys. -/
theorem flatMap_writeEntries_inj {listings original : List (List (Bytes × Bytes))}
    (keyed : ∀ entries ∈ listings, ∀ entry ∈ entries, entry.1 ≠ [])
    (readable : ∀ entries ∈ original, ∀ entry ∈ entries, Readable entry)
    (same : listings.flatMap KeyMap.writeEntries = original.flatMap KeyMap.writeEntries) :
    listings = original := by
  have filled (entries : List (Bytes × Bytes)) (rest : Bytes) :
      KeyMap.writeEntries entries ++ rest ≠ [] := by
    simp [KeyMap.writeEntries]
  induction listings generalizing original with
  | nil =>
    cases original with
    | nil => rfl
    | cons entries original =>
      rw [List.flatMap_cons] at same
      exact absurd same.symm (filled entries _)
  | cons entries listings ih =>
    obtain ⟨here, later⟩ := List.forall_mem_cons.mp keyed
    cases original with
    | nil =>
      rw [List.flatMap_cons] at same
      exact absurd same (filled entries _)
    | cons entries' original =>
      obtain ⟨here', later'⟩ := List.forall_mem_cons.mp readable
      rw [List.flatMap_cons, List.flatMap_cons] at same
      obtain ⟨rfl, rest⟩ := writeEntries_append_inj here here' same
      rw [ih later later' rest]

end Packet

end Custody
