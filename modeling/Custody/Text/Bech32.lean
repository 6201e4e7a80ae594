import Custody.Bytes

/-! # Witness programs as text

A witness program is written as a prefix, the separator `1`, and digits of five bits: the version,
the program, and six checksum digits of a code over the prefix and the digits. The constant that
the checksum must leave is 1 for version 0 and another one for later versions. Text is written in
lower case and read in either, but not in a mix.
-/

namespace Custody.Bech32

/-- The digits in order of value. -/
def alphabet : List Char :=
  "qpzry9x8gf2tvdw0s3jn54khce6mua7l".toList

/-- A prefix with a witness version and program. -/
structure Program where
  hrp : String
  version : Nat
  program : Bytes
deriving DecidableEq

/-- Takes one digit into the remainder of the checksum code. -/
def polymodStep (rest value : Nat) : Nat :=
  let top := rest / 0x2000000
  let shifted := (rest % 0x2000000 * 32) ^^^ value
  [(1, 0x3b6a57b2), (2, 0x26508e6d), (4, 0x1ea119fa), (8, 0x3d4233dd), (16, 0x2a1462b3)].foldl
    (fun acc (bit, generator) => if top &&& bit = 0 then acc else acc ^^^ generator) shifted

/-- The remainder of the checksum code on some digits. -/
def polymod (values : List Nat) : Nat :=
  values.foldl polymodStep 1

/-- The prefix as digits: the high bits of each character, a zero, and the low bits. -/
def expandPrefix (hrp : List Char) : List Nat :=
  hrp.map (·.toNat / 32) ++ 0 :: hrp.map (·.toNat % 32)

/-- The remainder that a text of a witness version must leave. -/
def residue (version : Nat) : Nat :=
  if version = 0 then 1 else 0x2bc830a3

/-- The six checksum digits. -/
def checksum (hrp : List Char) (version : Nat) (values : List Nat) : List Nat :=
  let sum := polymod (expandPrefix hrp ++ values ++ List.replicate 6 0) ^^^ residue version
  [sum >>> 25 % 32, sum >>> 20 % 32, sum >>> 15 % 32, sum >>> 10 % 32, sum >>> 5 % 32, sum % 32]

/-- Regroups bytes into digits of five bits, with zero bits at the end. `bits` pending low bits of
`pending` come first. -/
def toDigits (pending bits : Nat) : Bytes → List Nat
  | [] => if bits = 0 then [] else [pending <<< (5 - bits) % 32]
  | b :: rest =>
    let value := 256 * pending + b.toNat
    if bits < 2 then
      value >>> (bits + 3) % 32 :: toDigits (value % (1 <<< (bits + 3))) (bits + 3) rest
    else
      value >>> (bits + 3) % 32 :: value >>> (bits - 2) % 32
        :: toDigits (value % (1 <<< (bits - 2))) (bits - 2) rest

/-- Regroups digits of five bits into bytes. What is left at the end must be at most four zero
bits. -/
def ofDigits? (pending bits : Nat) : List Nat → Option Bytes
  | [] => if bits ≤ 4 && pending = 0 then some [] else none
  | v :: rest =>
    let value := 32 * pending + v
    if bits < 3 then ofDigits? value (bits + 5) rest
    else
      (ofDigits? (value % (1 <<< (bits - 3))) (bits - 3) rest).map
        (UInt8.ofNat (value >>> (bits - 3)) :: ·)

/-- Whether a program of this length may have this version. -/
def isAllowed (version length : Nat) : Bool :=
  2 ≤ length && length ≤ 40 && (version ≠ 0 || length = 20 || length = 32)

/-- Writes a witness program under a lowercase prefix. -/
def encode? (hrp : String) (version : Nat) (program : Bytes) : Option String :=
  if version ≤ 16 && isAllowed version program.length then
    let values := version :: toDigits 0 0 program
    let all := values ++ checksum hrp.toList version values
    some (String.ofList (hrp.toList ++ '1' :: all.map (alphabet.getD · 'q')))
  else none

def maxLength : Nat := 90

/-- Whether the letters of a text are all of one case. -/
def isUniform (cs : List Char) : Bool :=
  !(cs.any Char.isUpper && cs.any Char.isLower)

/-- Whether characters can be a prefix: at least one, and visible ones only. -/
def isPrefix (hrp : List Char) : Bool :=
  1 ≤ hrp.length && hrp.length ≤ 83 && hrp.all fun c => 33 ≤ c.toNat && c.toNat ≤ 126

/-- The text before the last separator and the text after it. -/
def separate? (cs : List Char) : Option (List Char × List Char) :=
  let back := cs.reverse
  match back.dropWhile (· ≠ '1') with
  | [] => none
  | _ :: hrp => some (hrp.reverse, (back.takeWhile (· ≠ '1')).reverse)

def values? (cs : List Char) : Option (List Nat) :=
  let values := cs.filterMap (alphabet.idxOf? ·)
  if values.length = cs.length then some values else none

def decode? (text : String) : Option Program :=
  if text.utf8ByteSize ≤ maxLength && isUniform text.toList then
    match separate? (text.toList.map Char.toLower) with
    | none => none
    | some (hrp, data) =>
      match values? data with
      | some (version :: values) =>
        let body := values.take (values.length - 6)
        if isPrefix hrp && version ≤ 16 && 6 ≤ values.length
            && polymod (expandPrefix hrp ++ version :: values) = residue version then
          match ofDigits? 0 0 body with
          | some program =>
            if isAllowed version program.length then some ⟨String.ofList hrp, version, program⟩
            else none
          | none => none
        else none
      | _ => none
  else none

end Custody.Bech32
