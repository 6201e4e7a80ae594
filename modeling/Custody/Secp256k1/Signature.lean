import Custody.Secp256k1.Point

/-! # Signatures and their DER form

A signature is a pair of scalars. Its written form is a sequence of two shortest-form integers.
The reader wants shortest lengths and integers without excess padding, and takes an integer that
is negative or not below the group order for zero, which no verification accepts. A signature is
normalized when its second scalar is at most half the order.
-/

namespace Custody.Secp256k1

/-- A pair of scalars. -/
structure Signature where
  r : Nat
  s : Nat
  r_lt : r < order
  s_lt : s < order
deriving DecidableEq

namespace Signature

/-- The largest normalized second scalar. -/
def halfOrder : Nat := order / 2

/-- The signature with the smaller of the two second scalars that verify alike. -/
def normalize (signature : Signature) : Signature :=
  if high : signature.s > halfOrder then
    { signature with
      s := order - signature.s
      s_lt := Nat.sub_lt order_pos (Nat.zero_lt_of_lt high) }
  else signature

/-- The two scalars in 32 bytes each. -/
def compact (signature : Signature) : Bytes :=
  Bytes.ofNatBE 32 signature.r ++ Bytes.ofNatBE 32 signature.s

/-- The shortest signed form of a scalar. -/
def integerBody (n : Nat) : Bytes :=
  match (Bytes.ofNatBE 32 n).dropWhile (· = 0) with
  | [] => [0]
  | b :: rest => if b < 0x80 then b :: rest else 0 :: b :: rest

def integer (n : Nat) : Bytes :=
  let body := integerBody n
  2 :: UInt8.ofNat body.length :: body

def der (signature : Signature) : Bytes :=
  let body := integer signature.r ++ integer signature.s
  0x30 :: UInt8.ofNat body.length :: body

/-- Reads a length in its shortest form: one byte below 128, or a count of bytes and that many,
at most eight. -/
def readLength? : Bytes → Option (Nat × Bytes)
  | [] => none
  | b :: rest =>
    if b < 0x80 then some (b.toNat, rest)
    else
      match Bytes.split? (b.toNat - 0x80) rest with
      | none => none
      | some (digits, rest) =>
        let length := Bytes.toNatBE digits
        if digits.head?.getD 0 ≠ 0 && digits.length ≤ 8 && 128 ≤ length && length ≤ rest.length then
          some (length, rest)
        else none

/-- Whether an integer's bytes have a first byte that the second makes redundant. -/
def isPadded : Bytes → Bool
  | a :: b :: _ => (a = 0 && b < 0x80) || (a = 0xFF && 0x80 ≤ b)
  | _ => false

/-- The scalar of an integer's bytes; zero for a negative one and for one that is too large. -/
def scalarOf (body : Bytes) : Nat :=
  let value := Bytes.toNatBE body
  if body.head?.getD 0 < 0x80 && value < order then value else 0

theorem scalarOf_lt (body : Bytes) : scalarOf body < order := by
  simp only [scalarOf]
  split
  · rename_i fits
    simp only [Bool.and_eq_true, decide_eq_true_eq] at fits
    exact fits.2
  · exact order_pos

/-- Reads a tagged integer's bytes. -/
def readInteger? : Bytes → Option (Bytes × Bytes)
  | 2 :: rest =>
    match readLength? rest with
    | none => none
    | some (length, rest) =>
      match Bytes.split? length rest with
      | none => none
      | some (body, rest) => if body.isEmpty || isPadded body then none else some (body, rest)
  | _ => none

/-- Reads a DER form that fills the whole byte string. -/
def ofDer? : Bytes → Option Signature
  | 0x30 :: rest =>
    match readLength? rest with
    | none => none
    | some (length, rest) =>
      if length ≠ rest.length then none
      else
        match readInteger? rest with
        | none => none
        | some (r, rest) =>
          match readInteger? rest with
          | none => none
          | some (s, rest) =>
            if rest.isEmpty then
              some ⟨scalarOf r, scalarOf s, scalarOf_lt r, scalarOf_lt s⟩
            else none
  | _ => none

/-- Reads a DER form, or else one that is followed by a single byte (as a sighash type is), and
normalizes the signature. -/
def read? (bytes : Bytes) : Option Signature :=
  let found :=
    match ofDer? bytes with
    | some signature => some signature
    | none => ofDer? bytes.dropLast
  found.map normalize

end Signature

end Custody.Secp256k1
