import Custody.Bytes

/-! # Base 64 for URLs, without padding

Each group of three bytes is four digits of the alphabet `A–Z a–z 0–9 - _`; a last group of one or
two bytes is two or three digits, whose unused low bits are zero. Reading accepts exactly what
writing produces.
-/

namespace Custody.Base64

/-- The digit of a value below 64. -/
def digit (value : Nat) : Char :=
  if value < 26 then Char.ofNat (65 + value)
  else if value < 52 then Char.ofNat (71 + value)
  else if value < 62 then Char.ofNat (value - 4)
  else if value = 62 then '-'
  else '_'

def value? (c : Char) : Option Nat :=
  if 'A' ≤ c && c ≤ 'Z' then some (c.toNat - 65)
  else if 'a' ≤ c && c ≤ 'z' then some (c.toNat - 71)
  else if '0' ≤ c && c ≤ '9' then some (c.toNat + 4)
  else if c = '-' then some 62
  else if c = '_' then some 63
  else none

/-- Digits of the bytes, in front of the digits written so far (reversed). -/
def encodeGroups : Bytes → List Char → List Char
  | a :: b :: c :: rest, done =>
    let group := 65536 * a.toNat + 256 * b.toNat + c.toNat
    encodeGroups rest
      (digit (group % 64) :: digit (group / 64 % 64) :: digit (group / 4096 % 64)
        :: digit (group / 262144) :: done)
  | [a, b], done =>
    let group := 4 * (256 * a.toNat + b.toNat)
    (digit (group % 64) :: digit (group / 64 % 64) :: digit (group / 4096) :: done).reverse
  | [a], done =>
    let group := 16 * a.toNat
    (digit (group % 64) :: digit (group / 64) :: done).reverse
  | [], done => done.reverse

def encode (bytes : Bytes) : String :=
  String.ofList (encodeGroups bytes [])

/-- Bytes of the digit values, in front of the bytes read so far (reversed). -/
def decodeGroups : List Nat → Bytes → Option Bytes
  | a :: b :: c :: d :: rest, done =>
    let group := 262144 * a + 4096 * b + 64 * c + d
    decodeGroups rest
      (UInt8.ofNat group :: UInt8.ofNat (group / 256) :: UInt8.ofNat (group / 65536) :: done)
  | [a, b, c], done =>
    let group := 4096 * a + 64 * b + c
    if group % 4 = 0 then
      some (UInt8.ofNat (group / 4) :: UInt8.ofNat (group / 1024) :: done).reverse
    else none
  | [a, b], done =>
    let group := 64 * a + b
    if group % 16 = 0 then some (UInt8.ofNat (group / 16) :: done).reverse else none
  | [_], _ => none
  | [], done => some done.reverse

/-- Values of the digits of a text, if all its characters are digits. -/
def values? (cs : List Char) : Option (List Nat) :=
  let values := cs.filterMap value?
  if values.length = cs.length then some values else none

def decode? (text : String) : Option Bytes :=
  (values? text.toList).bind fun values => decodeGroups values []

end Custody.Base64
