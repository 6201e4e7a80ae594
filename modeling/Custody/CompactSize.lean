import Custody.Bytes

/-! # Compact sizes

Counts and lengths are written in one, three, five or nine bytes, and only the shortest form is
read. A count of `2⁶⁴` or more has no form; it is written as the nine-byte form of zero, which no
reader accepts.
-/

namespace Custody.CompactSize

def encode (n : Nat) : Bytes :=
  if n < 0xFD then [UInt8.ofNat n]
  else if n < 0x10000 then 0xFD :: Bytes.ofNatLE 2 n
  else if n < 0x100000000 then 0xFE :: Bytes.ofNatLE 4 n
  else if n < 0x10000000000000000 then 0xFF :: Bytes.ofNatLE 8 n
  else 0xFF :: Bytes.ofNatLE 8 0

/-- Reads the `width` bytes of a count that is at least `least`. -/
def decodeWide? (width least : Nat) (bytes : Bytes) : Option (Nat × Bytes) :=
  match Bytes.split? width bytes with
  | none => none
  | some (digits, rest) =>
    let n := Bytes.toNatLE digits
    if least ≤ n then some (n, rest) else none

/-- Reads a count, with what follows it. -/
def decode? : Bytes → Option (Nat × Bytes)
  | [] => none
  | b :: rest =>
    if b = 0xFD then decodeWide? 2 0xFD rest
    else if b = 0xFE then decodeWide? 4 0x10000 rest
    else if b = 0xFF then decodeWide? 8 0x100000000 rest
    else some (b.toNat, rest)

/-- What a reader leaves is shorter than what it is given. -/
theorem length_of_decode? {bytes rest : Bytes} {n : Nat} (read : decode? bytes = some (n, rest)) :
    rest.length < bytes.length := by
  have wide {width least : Nat} {tail : Bytes}
      (read : decodeWide? width least tail = some (n, rest)) : rest.length ≤ tail.length := by
    unfold decodeWide? at read
    split at read
    · simp at read
    · rename_i split
      obtain ⟨_, rfl⟩ := Bytes.split?_eq_some_iff.mp split
      simp only [Option.ite_none_right_eq_some, Option.some.injEq, Prod.mk.injEq] at read
      simp [read.2.2]
  cases bytes with
  | nil => simp [decode?] at read
  | cons b tail =>
    simp only [decode?] at read
    rw [List.length_cons, Nat.lt_succ_iff]
    repeat' split at read
    · exact wide read
    · exact wide read
    · exact wide read
    · simp only [Option.some.injEq, Prod.mk.injEq] at read
      exact Nat.le_of_eq (congrArg _ read.2.symm)

def size (n : Nat) : Nat :=
  if n < 0xFD then 1 else if n < 0x10000 then 3 else if n < 0x100000000 then 5 else 9

theorem length_encode (n : Nat) : (encode n).length = size n := by
  unfold encode size
  repeat' split
  all_goals simp_all

/-- A byte string after its length. -/
def sized (bytes : Bytes) : Bytes :=
  encode bytes.length ++ bytes

def readSized? (bytes : Bytes) : Option (Bytes × Bytes) :=
  match decode? bytes with
  | none => none
  | some (length, rest) => Bytes.split? length rest

theorem length_of_readSized? {bytes taken rest : Bytes}
    (read : readSized? bytes = some (taken, rest)) : rest.length < bytes.length := by
  unfold readSized? at read
  split at read
  · simp at read
  · rename_i decoded
    obtain ⟨_, rfl⟩ := Bytes.split?_eq_some_iff.mp read
    have shorter := length_of_decode? decoded
    simp only [List.length_append] at shorter
    omega

end Custody.CompactSize
