import Custody.Json.Parser

/-! # Reading records

A record is read from an object, whose other fields are skipped, or from a list of its fields in
their order. No field may occur twice. A field without a default must be there; in a list the fields
at the end may be left out if they have one.
-/

namespace Custody.Json

/-- Reads a value of some type from a tree. -/
abbrev Decoder (α : Type) := Tree → Option α

namespace Decoder

def text : Decoder String
  | .string value => value
  | _ => none

def bool : Decoder Bool
  | .bool value => some value
  | _ => none

/-- Reads an integer from zero up to, but not including, a bound. -/
def below (bound : Nat) : Decoder Nat
  | .number (some (.int value)) =>
    if 0 ≤ value && value < bound then some value.toNat else none
  | _ => none

def byte : Decoder UInt8 := fun tree => (below UInt8.size tree).map UInt8.ofNat

def word32 : Decoder UInt32 := fun tree => (below UInt32.size tree).map UInt32.ofNat

def word64 : Decoder UInt64 := fun tree => (below UInt64.size tree).map UInt64.ofNat

/-- The double nearest to an integer of 64 bits. -/
def doubleOfInt (value : Int) : Double :=
  let magnitude := Double.ofNat value.natAbs
  if value < 0 then magnitude.neg else magnitude

/-- Reads a double; integers are taken for the nearest one. -/
def double : Decoder Double
  | .number (some (.real value)) => some value
  | .number (some (.int value)) => some (doubleOfInt value)
  | _ => none

def list {α : Type} (item : Decoder α) : Decoder (List α)
  | .array items => items.mapM item
  | _ => none

def optional {α : Type} (value : Decoder α) : Decoder (Option α)
  | .null => some none
  | tree => (value tree).map some

/-- Reads any value nested at most `depth` levels deep. -/
def value (depth : Nat) : Decoder Json := Tree.toJson? depth

end Decoder

/-- The fields of a record that are given, by the names that the record has. -/
structure Given where
  fields : List (String × Tree)

namespace Given

/-- Takes a field into those given so far: no name of the record twice, other names skipped. -/
def add? (names : List String) (given : Given) (field : Option String × Tree) : Option Given :=
  match field.1 with
  | none => none
  | some name =>
    if !names.contains name then some given
    else if (given.fields.lookup name).isSome then none
    else some ⟨given.fields ++ [(name, field.2)]⟩

/-- The fields of a record with some names. -/
def ofTree? (names : List String) : Tree → Option Given
  | .object fields => fields.foldlM (add? names) ⟨[]⟩
  | .array items => if names.length < items.length then none else some ⟨names.zip items⟩
  | _ => none

/-- Reads a field that must be there. -/
def required {α : Type} (given : Given) (name : String) (decode : Decoder α) : Option α :=
  (given.fields.lookup name).bind decode

/-- Reads a field that has a default. -/
def optional {α : Type} (given : Given) (name : String) (decode : Decoder α) (default : α) :
    Option α :=
  match given.fields.lookup name with
  | some tree => decode tree
  | none => some default

end Given

end Custody.Json
