import Custody.KeyMap
import Mathlib.Logic.Function.Basic

/-! # Maps are determined by their values

A map is equal to every map with the same values, and to every map with the same entries in some
order. Setting a fresh key adds one entry; setting and taking out keys change no other value.
-/

namespace Custody.KeyMap

variable {map : KeyMap} {key value : Bytes}

private theorem keys_irrefl (key : Bytes) : ¬ key < key :=
  List.lt_irrefl key

theorem eq_of_entries {a b : KeyMap} (same : a.entries = b.entries) : a = b := by
  cases a; cases b
  simpa using same

/-- Two maps with the same entries in some order are equal. -/
theorem eq_of_perm {a b : KeyMap} (perm : a.entries.Perm b.entries) : a = b := by
  refine eq_of_entries (perm.eq_of_pairwise ?_ a.ascending b.ascending)
  intro x y _ _ less greater
  exact absurd (List.lt_trans less greater) (keys_irrefl _)

theorem keys_nodup (map : KeyMap) : (map.entries.map Prod.fst).Nodup := by
  refine List.pairwise_map.mpr (map.ascending.imp ?_)
  rintro a b less same
  exact keys_irrefl b.1 (same ▸ less)

theorem entries_nodup (map : KeyMap) : map.entries.Nodup := by
  refine map.ascending.imp ?_
  rintro a b less rfl
  exact keys_irrefl a.1 less

private theorem lookup_cons_eq_ite (entry : Bytes × Bytes) (rest : List (Bytes × Bytes))
    (key : Bytes) :
    (entry :: rest).lookup key = if key = entry.1 then some entry.2 else rest.lookup key := by
  rw [List.lookup_cons]
  by_cases same : key = entry.1
  · rw [if_pos same, beq_iff_eq.mpr same]
  · rw [if_neg same, beq_eq_false_iff_ne.mpr same]

private theorem lookup_eq_some_iff_mem {entries : List (Bytes × Bytes)}
    (nodup : (entries.map Prod.fst).Nodup) :
    entries.lookup key = some value ↔ (key, value) ∈ entries := by
  induction entries with
  | nil => simp
  | cons entry rest ih =>
    obtain ⟨fresh, tail⟩ := List.nodup_cons.mp nodup
    rw [lookup_cons_eq_ite, List.mem_cons]
    split
    · rename_i same
      subst same
      have absent : (entry.1, value) ∉ rest := fun later =>
        fresh (List.mem_map.mpr ⟨_, later, rfl⟩)
      simp [Prod.ext_iff, absent, eq_comm]
    · rename_i differ
      simp [ih tail, Prod.ext_iff, differ]

/-- The values of a map are its entries. -/
theorem get?_eq_some_iff : map.get? key = some value ↔ (key, value) ∈ map.entries :=
  lookup_eq_some_iff_mem map.keys_nodup

/-- Maps with the same values are equal. -/
theorem eq_of_get? {a b : KeyMap} (same : ∀ key, a.get? key = b.get? key) : a = b := by
  apply eq_of_perm
  rw [List.perm_ext_iff_of_nodup a.entries_nodup b.entries_nodup]
  rintro ⟨key, value⟩
  rw [← get?_eq_some_iff, ← get?_eq_some_iff, same]

@[simp] theorem get?_empty (key : Bytes) : empty.get? key = none := rfl

theorem contains_eq_true_iff : map.contains key = true ↔ ∃ value, (key, value) ∈ map.entries := by
  simp only [contains, Option.isSome_iff_exists, get?_eq_some_iff]

private theorem lookup_place (entries : List (Bytes × Bytes)) (key value key' : Bytes) :
    (place key value entries).lookup key' =
      if key' = key then some value else entries.lookup key' := by
  induction entries with
  | nil => simp only [place, lookup_cons_eq_ite]
  | cons entry rest ih =>
    simp only [place]
    split
    · rw [lookup_cons_eq_ite]
    · split
      · rename_i notBefore same
        simp only [lookup_cons_eq_ite, same]
        split <;> rfl
      · rename_i notBefore notSame
        rw [lookup_cons_eq_ite, ih, lookup_cons_eq_ite]
        by_cases same : key' = key
        · simp [same, notSame]
        · simp [same]

/-- Setting a key sets its value and no other. -/
theorem get?_insert (map : KeyMap) (key value key' : Bytes) :
    (map.insert key value).get? key' = if key' = key then some value else map.get? key' :=
  lookup_place map.entries key value key'

/-- Taking out a key takes out its value and no other. -/
theorem get?_erase (map : KeyMap) (key key' : Bytes) :
    (map.erase key).get? key' = if key' = key then none else map.get? key' := by
  apply Option.ext
  intro value
  rw [get?_eq_some_iff]
  by_cases same : key' = key
  · simp [erase, same]
  · simp [erase, same, get?_eq_some_iff]

private theorem place_perm {entries : List (Bytes × Bytes)}
    (fresh : ∀ entry ∈ entries, entry.1 ≠ key) :
    (place key value entries).Perm ((key, value) :: entries) := by
  induction entries with
  | nil => exact .refl _
  | cons entry rest ih =>
    obtain ⟨here, later⟩ := List.forall_mem_cons.mp fresh
    simp only [place]
    split
    · exact .refl _
    · rw [if_neg (Ne.symm here)]
      exact ((ih later).cons entry).trans (.swap ..)

/-- Setting a fresh key adds an entry. -/
theorem insert_perm (fresh : ∀ entry ∈ map.entries, entry.1 ≠ key) :
    (map.insert key value).entries.Perm ((key, value) :: map.entries) :=
  place_perm fresh

theorem erase_insert (fresh : map.get? key = none) : (map.insert key value).erase key = map := by
  apply eq_of_get?
  intro key'
  rw [get?_erase, get?_insert]
  split
  · rename_i same
    rw [same, fresh]
  · rfl

theorem insert_erase (present : map.get? key = some value) :
    (map.erase key).insert key value = map := by
  apply eq_of_get?
  intro key'
  rw [get?_insert, get?_erase]
  split
  · rename_i same
    rw [same, present]
  · rfl

section Foldl

variable {entries : List (Bytes × Bytes)} {rename : Bytes → Bytes}

/-- Setting entries one after the other, under renamed keys, sets their values. -/
theorem get?_foldl_insert (nodup : (entries.map Prod.fst).Nodup) (injective : rename.Injective)
    (built : KeyMap) (key : Bytes) :
    (entries.foldl (fun built entry => built.insert (rename entry.1) entry.2) built).get?
        (rename key) = (entries.lookup key).or (built.get? (rename key)) := by
  induction entries generalizing built with
  | nil => rfl
  | cons entry rest ih =>
    obtain ⟨first, tail⟩ := List.nodup_cons.mp nodup
    rw [List.foldl_cons, ih tail, get?_insert, lookup_cons_eq_ite]
    simp only [injective.eq_iff]
    by_cases same : key = entry.1
    · have absent : rest.lookup key = none := by
        rw [List.lookup_eq_none_iff]
        intro other member
        rw [bne_iff_ne, same]
        exact fun equal => first (equal ▸ List.mem_map_of_mem member)
      simp [same ▸ absent, same]
    · simp [same]

/-- Setting entries under renamed keys changes no value under another key. -/
theorem get?_foldl_insert_of_ne {key : Bytes} (other : ∀ data, key ≠ rename data)
    (built : KeyMap) :
    (entries.foldl (fun built entry => built.insert (rename entry.1) entry.2) built).get? key =
      built.get? key := by
  induction entries generalizing built with
  | nil => rfl
  | cons entry rest ih => rw [List.foldl_cons, ih, get?_insert, if_neg (other entry.1)]

end Foldl

/-- A map is its entries, set one after the other. -/
theorem foldl_insert_entries (map : KeyMap) :
    map.entries.foldl (fun built entry => built.insert entry.1 entry.2) empty = map := by
  apply eq_of_get?
  intro key
  have built := get?_foldl_insert map.keys_nodup Function.injective_id empty key
  rw [get?_empty, Option.or_none] at built
  exact built

end Custody.KeyMap
