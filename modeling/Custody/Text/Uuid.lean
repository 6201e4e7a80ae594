import Custody.Text.Hex

/-! # Unique identifiers

An identifier is 16 bytes. It is written as groups of 8, 4, 4, 4 and 12 lowercase digits between
hyphens. It is read in that form, alone, in braces or after `urn:uuid:`, and as 32 digits without
hyphens; letters may be of either case, those of `urn:uuid:` too, as the uuid library has it.
-/

namespace Custody

structure Uuid where
  bytes : Bytes
  size : bytes.length = 16
deriving DecidableEq

namespace Uuid

def nil : Uuid := ⟨List.replicate 16 0, rfl⟩

/-- The lengths of the groups of digits. -/
def groups : List Nat := [8, 4, 4, 4, 12]

/-- Splits digits into groups, with hyphens between them. -/
def hyphenate : List Nat → List Char → List Char
  | [], digits => digits
  | [_], digits => digits
  | size :: sizes, digits => digits.take size ++ '-' :: hyphenate sizes (digits.drop size)

def display (uuid : Uuid) : String :=
  String.ofList (hyphenate groups (Hex.encode uuid.bytes).toList)

/-- The bytes of groups of digits without their hyphens, if the hyphens are where they belong. -/
def unhyphenate? : List Nat → Bytes → Option Bytes
  | [], spelled => if spelled.isEmpty then some [] else none
  | [size], spelled => if spelled.length = size then some spelled else none
  | size :: sizes, spelled =>
    match spelled.drop size with
    | 0x2d :: rest => (unhyphenate? sizes rest).map (spelled.take size ++ ·)
    | _ => none

/-- The identifier that 32 digits spell, given as their ASCII bytes. -/
def ofDigits? (spelled : Bytes) : Option Uuid :=
  match Hex.decodePairs 0 spelled [] with
  | .error _ => none
  | .ok bytes =>
    if size : bytes.length = 16 ∧ spelled.length = 32 then some ⟨bytes, size.1⟩ else none

def lower (b : UInt8) : UInt8 :=
  if 65 ≤ b && b ≤ 90 then b + 32 else b

/-- A written form without braces or the prefix, if it is one with hyphens. -/
def unwrap? (spelled : Bytes) : Option Bytes :=
  let urn := Bytes.ofText "urn:uuid:"
  if spelled.length = 36 then some spelled
  else if spelled.length = 38 && spelled.head? = some 0x7b && spelled.getLast? = some 0x7d then
    some ((spelled.drop 1).take 36)
  else if spelled.length = 45 && (spelled.take 9).map lower = urn then some (spelled.drop 9)
  else none

def parse? (text : String) : Option Uuid :=
  let spelled := Bytes.ofText text
  if spelled.length = 32 then ofDigits? spelled
  else (unwrap? spelled).bind fun bare => (unhyphenate? groups bare).bind ofDigits?

end Uuid

end Custody
