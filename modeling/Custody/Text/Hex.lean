import Custody.Bytes

/-! # Hexadecimal text

Bytes are written with two lowercase digits each. Either case is read. A text of odd length is
refused before its digits are looked at; otherwise the first byte that is no digit is named with
its position.
-/

namespace Custody.Hex

/-- Why a text is not hexadecimal. -/
inductive Fault where
  | oddLength
  | badDigit (byte : UInt8) (position : Nat)
deriving DecidableEq

/-- The lowercase digit of a value below 16. -/
def digit (value : Nat) : Char :=
  if value < 10 then Char.ofNat (48 + value) else Char.ofNat (87 + value)

/-- The value of a digit, given as its ASCII byte. -/
def value? (byte : UInt8) : Option UInt8 :=
  if 48 ≤ byte && byte ≤ 57 then some (byte - 48)
  else if 97 ≤ byte && byte ≤ 102 then some (byte - 87)
  else if 65 ≤ byte && byte ≤ 70 then some (byte - 55)
  else none

def encode (bytes : Bytes) : String :=
  String.ofList (bytes.flatMap fun b => [digit (b.toNat / 16), digit (b.toNat % 16)])

/-- Reads digit pairs from position `position` on, in front of the bytes read so far (reversed). -/
def decodePairs (position : Nat) : Bytes → Bytes → Except Fault Bytes
  | high :: low :: rest, done =>
    match value? high with
    | none => .error (.badDigit high position)
    | some h =>
      match value? low with
      | none => .error (.badDigit low (position + 1))
      | some l => decodePairs (position + 2) rest ((16 * h + l) :: done)
  | _, done => .ok done.reverse

def decode (text : String) : Except Fault Bytes :=
  let spelled := Bytes.ofText text
  if spelled.length % 2 = 1 then .error .oddLength else decodePairs 0 spelled []

/-- A byte of the first code page as a quoted character: the usual short escapes, and the code in
hexadecimal for what does not print. -/
def quote (byte : UInt8) : String :=
  let code := byte.toNat
  let bare : String :=
    if code = 0 then "\\0"
    else if code = 9 then "\\t"
    else if code = 10 then "\\n"
    else if code = 13 then "\\r"
    else if code = 39 then "\\'"
    else if code = 92 then "\\\\"
    else if code < 32 || (127 ≤ code && code ≤ 160) || code = 173 then
      "\\u\x7b" ++ String.ofList (Nat.toDigits 16 code) ++ "\x7d"
    else String.singleton (Char.ofNat code)
  "'" ++ bare ++ "'"

def Fault.message : Fault → String
  | .oddLength => "Odd number of digits"
  | .badDigit byte position => s!"Invalid character {quote byte} at position {position}"

end Custody.Hex
