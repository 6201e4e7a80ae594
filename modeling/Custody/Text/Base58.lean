import Custody.Hash.Sha256

/-! # Base 58 with a checksum

A byte string is followed by the first four bytes of its double hash and written as a number in
base 58, with one digit `1` for each zero byte in front.
-/

namespace Custody.Base58

/-- The digits in order of value. -/
def alphabet : List Char :=
  "123456789ABCDEFGHJKLMNPQRSTUVWXYZabcdefghijkmnopqrstuvwxyz".toList

/-- The digits of a number, in front of the digits written so far. -/
def digits (n : Nat) (done : List Char) : List Char :=
  if n = 0 then done else digits (n / 58) (alphabet.getD (n % 58) '1' :: done)
termination_by n
decreasing_by omega

def encodeRaw (bytes : Bytes) : String :=
  let zeros := bytes.takeWhile (· = 0)
  String.ofList (zeros.map (fun _ => '1') ++ digits (Bytes.toNatBE bytes) [])

/-- The shortest bytes of a number, in front of the bytes written so far. -/
def bytesOf (n : Nat) (done : Bytes) : Bytes :=
  if n = 0 then done else bytesOf (n / 256) (UInt8.ofNat n :: done)
termination_by n
decreasing_by omega

def decodeRaw? (text : String) : Option Bytes :=
  let cs := text.toList
  let values := cs.filterMap (alphabet.idxOf? ·)
  if values.length = cs.length then
    let zeros := values.takeWhile (· = 0)
    some (zeros.map (fun _ => 0) ++ bytesOf (values.foldl (fun n v => 58 * n + v) 0) [])
  else none

/-- The first four bytes of the double hash. -/
def checksum (payload : Bytes) : Bytes :=
  (Sha256.doubleHash payload).take 4

/-- Writes a payload with its checksum. -/
def encode (payload : Bytes) : String :=
  encodeRaw (payload ++ checksum payload)

/-- Reads a payload whose checksum is right. -/
def decode? (text : String) : Option Bytes :=
  match decodeRaw? text with
  | none => none
  | some bytes =>
    let payload := bytes.take (bytes.length - 4)
    if 4 ≤ bytes.length && bytes.drop (bytes.length - 4) = checksum payload then some payload
    else none

end Custody.Base58
