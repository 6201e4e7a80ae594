import Custody.Decimal.Shortest
import Custody.Text.Hex

/-! # Values of JSON

A value with its compact text. Integers are kept apart from other numbers. The fields of an object
are written in their order; a value that was read as a whole has them in ascending order of their
names, each once.
-/

namespace Custody

inductive Json where
  | null
  | bool (value : Bool)
  | int (value : Int)
  | real (value : Double)
  | string (value : String)
  | array (items : List Json)
  | object (fields : List (String × Json))
deriving Inhabited, BEq

namespace Json

/-- Numbers are written plainly from five places behind the point to sixteen before it, and whole
ones end in `.0`. -/
def numberFormat : DecimalFormat := ⟨some (-4), some 16, ".0", .toEven⟩

/-- A character of a text as it is written between quotes. -/
def escape (c : Char) : List Char :=
  if c = '"' then ['\\', '"']
  else if c = '\\' then ['\\', '\\']
  else if c = '\n' then ['\\', 'n']
  else if c = '\r' then ['\\', 'r']
  else if c = '\t' then ['\\', 't']
  else if c.toNat = 8 then ['\\', 'b']
  else if c.toNat = 12 then ['\\', 'f']
  else if c.toNat < 32 then
    ['\\', 'u', '0', '0', Hex.digit (c.toNat / 16), Hex.digit (c.toNat % 16)]
  else [c]

def quote (text : String) : String :=
  String.ofList ('"' :: text.toList.flatMap escape ++ ['"'])

mutual

/-- The compact text of a value. -/
def render : Json → String
  | null => "null"
  | bool true => "true"
  | bool false => "false"
  | int value => toString value
  | real value => numberFormat.writeDouble value
  | string value => quote value
  | array items => "[" ++ ",".intercalate (renderItems items) ++ "]"
  | object fields => "\x7b" ++ ",".intercalate (renderFields fields) ++ "\x7d"

def renderItems : List Json → List String
  | [] => []
  | item :: rest => render item :: renderItems rest

def renderFields : List (String × Json) → List String
  | [] => []
  | (name, value) :: rest => (quote name ++ ":" ++ render value) :: renderFields rest

end

/-- Places a field among fields in ascending order, over one of the same name. -/
def placeField (name : String) (value : Json) : List (String × Json) → List (String × Json)
  | [] => [(name, value)]
  | field :: rest =>
    if name < field.1 then (name, value) :: field :: rest
    else if name = field.1 then (name, value) :: rest
    else field :: placeField name value rest

/-- The object of some fields: in ascending order, of one name the last. -/
def ofFields (fields : List (String × Json)) : Json :=
  .object (fields.foldl (fun done (name, value) => placeField name value done) [])

def nat (n : Nat) : Json := .int n

/-- The value of bytes as a list of numbers. -/
def ofByteList (bytes : Bytes) : Json :=
  .array (bytes.map fun b => nat b.toNat)

def isNull : Json → Bool
  | null => true
  | _ => false

end Json

end Custody
