/-! # Byte strings

Everything that is hashed, signed or sent is a list of bytes. This module holds fixed-width
numbers in both byte orders, exact splitting, and the bytes of a text. Readers here and in the
codecs take a byte string and return what they read with what is left.
-/

namespace Custody

/-- A byte string, first byte first. -/
abbrev Bytes := List UInt8

namespace Bytes

/-- The `width` low-order bytes of `n`, least significant first. -/
def ofNatLE : Nat → Nat → Bytes
  | 0, _ => []
  | width + 1, n => UInt8.ofNat n :: ofNatLE width (n / 256)

def toNatLE : Bytes → Nat
  | [] => 0
  | b :: rest => b.toNat + 256 * toNatLE rest

/-- The `width` low-order bytes of `n`, most significant first. -/
def ofNatBE (width n : Nat) : Bytes :=
  (ofNatLE width n).reverse

def toNatBE (bs : Bytes) : Nat :=
  bs.foldl (fun n b => 256 * n + b.toNat) 0

@[simp] theorem length_ofNatLE (width n : Nat) : (ofNatLE width n).length = width := by
  induction width generalizing n with
  | zero => rfl
  | succ width ih => simp only [ofNatLE, List.length_cons, ih]

@[simp] theorem length_ofNatBE (width n : Nat) : (ofNatBE width n).length = width := by
  simp only [ofNatBE, List.length_reverse, length_ofNatLE]

/-- Splits off the first `n` bytes, if there are that many. -/
def split? (n : Nat) (bs : Bytes) : Option (Bytes × Bytes) :=
  let taken := bs.take n
  if taken.length = n then some (taken, bs.drop n) else none

theorem split?_eq_some_iff {n : Nat} {bs taken rest : Bytes} :
    split? n bs = some (taken, rest) ↔ taken.length = n ∧ bs = taken ++ rest := by
  unfold split?
  constructor
  · intro split
    simp only [Option.ite_none_right_eq_some, Option.some.injEq, Prod.mk.injEq] at split
    obtain ⟨length, rfl, rfl⟩ := split
    exact ⟨length, (List.take_append_drop n bs).symm⟩
  · rintro ⟨rfl, rfl⟩
    simp

/-- The UTF-8 bytes of a text. -/
def ofText (text : String) : Bytes :=
  text.toByteArray.data.toList

/-- The text whose UTF-8 bytes these are, if they are well-formed UTF-8. -/
def toText? (bs : Bytes) : Option String :=
  String.fromUTF8? ⟨bs.toArray⟩

theorem ofText_inj {a b : String} : ofText a = ofText b ↔ a = b := by
  constructor
  · intro same
    apply String.toByteArray_inj.mp
    unfold ofText at same
    have data : a.toByteArray.data = b.toByteArray.data := Array.toList_inj.mp same
    cases h : a.toByteArray; cases h' : b.toByteArray
    simp_all
  · rintro rfl; rfl

end Bytes

end Custody
