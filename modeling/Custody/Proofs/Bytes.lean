import Custody.Bytes
import Mathlib.Algebra.Ring.Nat

/-! # Exact readers

A number of fixed width is read back from its bytes, and the bytes from their number, in both byte
orders. A reader of byte strings is exact when it takes the written forms of some items, with any
bytes behind them, and nothing else: what it accepts has one spelling, and no written form is the
beginning of another.
-/

namespace Custody.Bytes

/-- Reading back the low-order bytes of a number that fits them gives the number. -/
theorem toNatLE_ofNatLE {width n : Nat} (fits : n < 256 ^ width) :
    toNatLE (ofNatLE width n) = n := by
  induction width generalizing n with
  | zero => simp only [Nat.pow_zero] at fits; simp only [ofNatLE, toNatLE]; omega
  | succ width ih =>
    have quotient : n / 256 < 256 ^ width := by
      rw [Nat.div_lt_iff_lt_mul (by decide)]; rwa [Nat.pow_succ] at fits
    simp only [ofNatLE, toNatLE, ih quotient, UInt8.toNat_ofNat', Nat.reducePow]
    omega

theorem toNatLE_lt (bytes : Bytes) : toNatLE bytes < 256 ^ bytes.length := by
  induction bytes with
  | nil => decide
  | cons b rest ih =>
    have digit := b.toNat_lt
    simp only [toNatLE, List.length_cons, Nat.pow_succ]
    omega

/-- The number of a byte string, written in as many bytes, gives the byte string. -/
theorem ofNatLE_toNatLE (bytes : Bytes) : ofNatLE bytes.length (toNatLE bytes) = bytes := by
  induction bytes with
  | nil => rfl
  | cons b rest ih =>
    have digit := b.toNat_lt
    have quotient : (b.toNat + 256 * toNatLE rest) / 256 = toNatLE rest := by omega
    have head : UInt8.ofNat (b.toNat + 256 * toNatLE rest) = b := by
      apply UInt8.toNat_inj.mp
      simp only [UInt8.toNat_ofNat', Nat.reducePow]
      omega
    simp only [List.length_cons, toNatLE, ofNatLE, quotient, head, ih]

theorem toNatBE_append (high low : Bytes) :
    toNatBE (high ++ low) = low.foldl (fun n b => 256 * n + b.toNat) (toNatBE high) := by
  simp only [toNatBE, List.foldl_append]

/-- The two byte orders differ by reversal. -/
theorem toNatBE_eq_reverse (bytes : Bytes) : toNatBE bytes = toNatLE bytes.reverse := by
  suffices reversed : ∀ bytes : Bytes, toNatBE bytes.reverse = toNatLE bytes by
    simpa only [List.reverse_reverse] using reversed bytes.reverse
  intro bytes
  induction bytes with
  | nil => rfl
  | cons b rest ih =>
    rw [List.reverse_cons, toNatBE_append, ih]
    simp only [List.foldl_cons, List.foldl_nil, toNatLE]
    omega

theorem toNatBE_ofNatBE {width n : Nat} (fits : n < 256 ^ width) :
    toNatBE (ofNatBE width n) = n := by
  rw [toNatBE_eq_reverse, ofNatBE, List.reverse_reverse, toNatLE_ofNatLE fits]

theorem ofNatBE_toNatBE (bytes : Bytes) : ofNatBE bytes.length (toNatBE bytes) = bytes := by
  rw [toNatBE_eq_reverse, ofNatBE, ← List.length_reverse, ofNatLE_toNatLE, List.reverse_reverse]

theorem toNatBE_lt (bytes : Bytes) : toNatBE bytes < 256 ^ bytes.length := by
  rw [toNatBE_eq_reverse, ← List.length_reverse]
  exact toNatLE_lt bytes.reverse

theorem split?_append {n : Nat} {taken : Bytes} (length : taken.length = n) (rest : Bytes) :
    split? n (taken ++ rest) = some (taken, rest) :=
  split?_eq_some_iff.mpr ⟨length, rfl⟩

/-- A reader is exact: it takes the written form of a valid item, whatever follows, and returns the
item with what follows; and it takes nothing else. -/
def Reads {α : Type} (read? : Bytes → Option (α × Bytes)) (valid : α → Prop)
    (write : α → Bytes) : Prop :=
  ∀ bytes item rest, read? bytes = some (item, rest) ↔ valid item ∧ bytes = write item ++ rest

namespace Reads

variable {α : Type} {read? : Bytes → Option (α × Bytes)} {valid : α → Prop} {write : α → Bytes}

theorem read_append (reads : Reads read? valid write) {item : α} (holds : valid item)
    (rest : Bytes) : read? (write item ++ rest) = some (item, rest) :=
  (reads _ _ _).mpr ⟨holds, rfl⟩

/-- Written forms are prefix free. -/
theorem append_inj (reads : Reads read? valid write) {a b : α} {after after' : Bytes}
    (validA : valid a) (validB : valid b) (same : write a ++ after = write b ++ after') :
    a = b ∧ after = after' := by
  have read := reads.read_append validA after
  rw [same, reads.read_append validB after'] at read
  simpa [eq_comm] using read

theorem write_inj (reads : Reads read? valid write) {a b : α} (validA : valid a)
    (validB : valid b) (same : write a = write b) : a = b :=
  (reads.append_inj validA validB (congrArg (· ++ ([] : Bytes)) same)).1

/-- Only the validity of the items matters to an exact reader, not how it is said. -/
theorem congr {valid' : α → Prop} (reads : Reads read? valid write)
    (same : ∀ item, valid item ↔ valid' item) : Reads read? valid' write := by
  intro bytes item rest
  rw [reads, same]

end Reads

end Custody.Bytes
