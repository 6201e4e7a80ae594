import Custody.Bytes

/-! # Maps from byte strings to byte strings

A `KeyMap` lists its entries by ascending key, so two maps with the same entries are equal and
writing the entries in order is the canonical form of the map. The order of keys is bytewise,
a shorter key before its extensions.
-/

namespace Custody

/-- Entries with pairwise distinct keys, in ascending key order. -/
structure KeyMap where
  entries : List (Bytes × Bytes)
  ascending : entries.Pairwise (·.1 < ·.1)
deriving DecidableEq

namespace KeyMap

def empty : KeyMap := ⟨[], List.Pairwise.nil⟩

instance : Inhabited KeyMap := ⟨empty⟩

def get? (map : KeyMap) (key : Bytes) : Option Bytes :=
  map.entries.lookup key

/-- Places an entry among entries listed by ascending key, over any entry of the same key. -/
def place (key value : Bytes) : List (Bytes × Bytes) → List (Bytes × Bytes)
  | [] => [(key, value)]
  | entry :: rest =>
    if key < entry.1 then (key, value) :: entry :: rest
    else if key = entry.1 then (key, value) :: rest
    else entry :: place key value rest

theorem mem_place {key value : Bytes} {entries : List (Bytes × Bytes)} {entry : Bytes × Bytes}
    (member : entry ∈ place key value entries) : entry = (key, value) ∨ entry ∈ entries := by
  induction entries with
  | nil => simpa [place] using member
  | cons head rest ih =>
    simp only [place] at member
    split at member
    · simpa using member
    · split at member
      · rcases List.mem_cons.mp member with same | old
        · exact .inl same
        · exact .inr (List.mem_cons_of_mem _ old)
      · rcases List.mem_cons.mp member with same | old
        · exact .inr (same ▸ List.mem_cons_self)
        · exact (ih old).imp_right (List.mem_cons_of_mem _)

theorem place_ascending {key value : Bytes} {entries : List (Bytes × Bytes)}
    (ascending : entries.Pairwise (·.1 < ·.1)) :
    (place key value entries).Pairwise (·.1 < ·.1) := by
  induction entries with
  | nil => simp [place]
  | cons head rest ih =>
    obtain ⟨below, tail⟩ := List.pairwise_cons.mp ascending
    simp only [place]
    split
    · rename_i before
      refine List.pairwise_cons.mpr ⟨fun entry member => ?_, ascending⟩
      rcases List.mem_cons.mp member with rfl | later
      · exact before
      · exact List.lt_trans before (below entry later)
    · split
      · rename_i same
        exact List.pairwise_cons.mpr ⟨fun entry member => same ▸ below entry member, tail⟩
      · rename_i notBefore notSame
        refine List.pairwise_cons.mpr ⟨fun entry member => ?_, ih tail⟩
        rcases mem_place member with rfl | old
        · rcases List.le_total head.1 key with le | le
          · exact (List.le_iff_lt_or_eq.mp le).resolve_right (fun same => notSame same.symm)
          · rcases List.le_iff_lt_or_eq.mp le with before | same
            · exact absurd before notBefore
            · exact absurd same notSame
        · exact below entry old

def insert (map : KeyMap) (key value : Bytes) : KeyMap :=
  ⟨place key value map.entries, place_ascending map.ascending⟩

def erase (map : KeyMap) (key : Bytes) : KeyMap :=
  ⟨map.entries.filter (·.1 != key), map.ascending.filter _⟩

def contains (map : KeyMap) (key : Bytes) : Bool :=
  (map.get? key).isSome

end KeyMap

end Custody
