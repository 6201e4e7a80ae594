import Custody.Json.Number

/-! # Reading JSON text

A text is read into a tree that keeps what the grammar allows but a value does not: repeated names,
numbers beyond the largest double, texts with half of a surrogate pair, and nesting of any depth.
What uses a part of the tree decides whether such a part is refused; what skips it does not care.
-/

namespace Custody.Json

/-- What a text says. -/
inductive Tree where
  | null
  | bool (value : Bool)
  /-- A number; `none` if it is beyond the largest double. -/
  | number (value : Option Number)
  /-- A text; `none` if it has half of a surrogate pair. -/
  | string (value : Option String)
  | array (items : List Tree)
  | object (fields : List (Option String × Tree))
deriving Inhabited

/-- Whether a character may stand between tokens. -/
def isSpace (c : Char) : Bool :=
  c = ' ' || c = '\t' || c = '\n' || c = '\r'

def skipSpace (cs : List Char) : List Char :=
  cs.dropWhile isSpace

def hexValue? (c : Char) : Option Nat :=
  if '0' ≤ c && c ≤ '9' then some (c.toNat - 48)
  else if 'a' ≤ c && c ≤ 'f' then some (c.toNat - 87)
  else if 'A' ≤ c && c ≤ 'F' then some (c.toNat - 55)
  else none

def hexValue4? (a b c d : Char) : Option Nat := do
  return 4096 * (← hexValue? a) + 256 * (← hexValue? b) + 16 * (← hexValue? c) + (← hexValue? d)

/-- The code of the character that a letter after a backslash stands for. -/
def shortEscape? (c : Char) : Option Nat :=
  if c = '"' then some 34
  else if c = '\\' then some 92
  else if c = '/' then some 47
  else if c = 'b' then some 8
  else if c = 'f' then some 12
  else if c = 'n' then some 10
  else if c = 'r' then some 13
  else if c = 't' then some 9
  else none

/-- Reads the codes of a text up to its closing quote, in front of the codes read so far
(reversed). -/
def readCodes? : List Char → List Nat → Option (List Nat × List Char)
  | [], _ => none
  | '"' :: rest, done => some (done.reverse, rest)
  | '\\' :: 'u' :: a :: b :: c :: d :: rest, done =>
    match hexValue4? a b c d with
    | some code => readCodes? rest (code :: done)
    | none => none
  | '\\' :: c :: rest, done =>
    match shortEscape? c with
    | some code => readCodes? rest (code :: done)
    | none => none
  | c :: rest, done => if c.toNat < 32 then none else readCodes? rest (c.toNat :: done)

/-- The characters of codes, where two halves of a surrogate pair stand for one character, in front
of the characters so far (reversed). -/
def joinSurrogates? : List Nat → List Char → Option (List Char)
  | [], done => some done.reverse
  | high :: low :: rest, done =>
    if 0xD800 ≤ high && high < 0xDC00 then
      if 0xDC00 ≤ low && low < 0xE000 then
        let code := 0x10000 + 0x400 * (high - 0xD800) + (low - 0xDC00)
        joinSurrogates? rest (Char.ofNat code :: done)
      else none
    else if 0xDC00 ≤ high && high < 0xE000 then none
    else joinSurrogates? (low :: rest) (Char.ofNat high :: done)
  | [code], done =>
    if 0xD800 ≤ code && code < 0xE000 then none else some (Char.ofNat code :: done).reverse

/-- Reads a text after its opening quote. -/
def readString? (cs : List Char) : Option (Option String × List Char) :=
  (readCodes? cs []).map fun (codes, rest) => ((joinSurrogates? codes []).map String.ofList, rest)

def takeDigits (cs : List Char) : List Nat × List Char :=
  ((cs.takeWhile Char.isDigit).map fun c => c.toNat - 48, cs.dropWhile Char.isDigit)

/-- Reads a point and digits, if there is a point. -/
def readFraction? (cs : List Char) : Option (Option (List Nat) × List Char) :=
  match cs with
  | '.' :: rest =>
    let (digits, rest) := takeDigits rest
    if digits.isEmpty then none else some (some digits, rest)
  | _ => some (none, cs)

def readExponentDigits? (negative : Bool) (cs : List Char) :
    Option (Option (Bool × List Nat) × List Char) :=
  let (digits, rest) := takeDigits cs
  if digits.isEmpty then none else some (some (negative, digits), rest)

/-- Reads an exponent, if there is one. -/
def readExponent? (cs : List Char) : Option (Option (Bool × List Nat) × List Char) :=
  match cs with
  | c :: rest =>
    if c = 'e' || c = 'E' then
      match rest with
      | '+' :: rest => readExponentDigits? false rest
      | '-' :: rest => readExponentDigits? true rest
      | _ => readExponentDigits? false rest
    else some (none, cs)
  | [] => some (none, cs)

/-- Reads a number after its sign. A leading zero stands alone. -/
def readNumber? (negative : Bool) (cs : List Char) : Option (Option Number × List Char) := do
  let (whole, rest) := takeDigits cs
  if whole.isEmpty || (whole.head? = some 0 && whole.length ≠ 1) then none
  else
    let (fraction, rest) ← readFraction? rest
    let (exponent, rest) ← readExponent? rest
    return ((NumberText.mk negative whole fraction exponent).number?, rest)

/-- Reads what begins with a given character and is neither list nor object. -/
def readScalar? (c : Char) (rest : List Char) : Option (Tree × List Char) :=
  match c, rest with
  | '"', rest => (readString? rest).map fun (text, rest) => (.string text, rest)
  | 'n', 'u' :: 'l' :: 'l' :: rest => some (.null, rest)
  | 't', 'r' :: 'u' :: 'e' :: rest => some (.bool true, rest)
  | 'f', 'a' :: 'l' :: 's' :: 'e' :: rest => some (.bool false, rest)
  | '-', rest => (readNumber? true rest).map fun (number, rest) => (.number number, rest)
  | c, rest => (readNumber? false (c :: rest)).map fun (number, rest) => (.number number, rest)

mutual

/-- Reads a value. `fuel` bounds the number of steps. -/
def readTree? (fuel : Nat) (cs : List Char) : Option (Tree × List Char) :=
  match fuel with
  | 0 => none
  | fuel + 1 =>
    match skipSpace cs with
    | [] => none
    | '[' :: rest =>
      match skipSpace rest with
      | ']' :: rest => some (.array [], rest)
      | rest => (readItems? fuel rest []).map fun (items, rest) => (.array items, rest)
    | '\x7b' :: rest =>
      match skipSpace rest with
      | '\x7d' :: rest => some (.object [], rest)
      | rest => (readFields? fuel rest []).map fun (fields, rest) => (.object fields, rest)
    | c :: rest => readScalar? c rest

/-- Reads items up to the end of the list, in front of the items read so far (reversed). -/
def readItems? (fuel : Nat) (cs : List Char) (done : List Tree) :
    Option (List Tree × List Char) :=
  match fuel with
  | 0 => none
  | fuel + 1 =>
    match readTree? fuel cs with
    | none => none
    | some (item, rest) =>
      match skipSpace rest with
      | ',' :: rest => readItems? fuel rest (item :: done)
      | ']' :: rest => some ((item :: done).reverse, rest)
      | _ => none

/-- Reads fields up to the end of the object, in front of the fields read so far (reversed). -/
def readFields? (fuel : Nat) (cs : List Char) (done : List (Option String × Tree)) :
    Option (List (Option String × Tree) × List Char) :=
  match fuel with
  | 0 => none
  | fuel + 1 =>
    match skipSpace cs with
    | '"' :: rest =>
      match readString? rest with
      | none => none
      | some (name, rest) =>
        match skipSpace rest with
        | ':' :: rest =>
          match readTree? fuel rest with
          | none => none
          | some (value, rest) =>
            match skipSpace rest with
            | ',' :: rest => readFields? fuel rest ((name, value) :: done)
            | '\x7d' :: rest => some (((name, value) :: done).reverse, rest)
            | _ => none
        | _ => none
    | _ => none

end

/-- Reads a whole text. Two steps for each character are enough. -/
def Tree.ofText? (text : String) : Option Tree :=
  let cs := text.toList
  match readTree? (2 * cs.length + 2) cs with
  | some (tree, rest) => if (skipSpace rest).isEmpty then some tree else none
  | none => none

/-- The deepest nesting of a value. -/
def maxDepth : Nat := 127

mutual

/-- The value of a tree with at most `depth` levels of lists and objects, each part of which has a
value. -/
def Tree.toJson? (depth : Nat) : Tree → Option Json
  | .null => some .null
  | .bool value => some (.bool value)
  | .number value => value.map ofNumber
  | .string value => value.map .string
  | .array items => if depth = 0 then none else (itemsToJson? (depth - 1) items).map .array
  | .object fields => if depth = 0 then none else (fieldsToJson? (depth - 1) fields).map ofFields

def itemsToJson? (depth : Nat) : List Tree → Option (List Json)
  | [] => some []
  | item :: rest =>
    match item.toJson? depth, itemsToJson? depth rest with
    | some value, some values => some (value :: values)
    | _, _ => none

def fieldsToJson? (depth : Nat) : List (Option String × Tree) → Option (List (String × Json))
  | [] => some []
  | (name, field) :: rest =>
    match name, field.toJson? depth, fieldsToJson? depth rest with
    | some name, some value, some values => some ((name, value) :: values)
    | _, _, _ => none

end

mutual

def toTree : Json → Tree
  | .null => .null
  | .bool value => .bool value
  | .int value => .number (some (.int value))
  | .real value => .number (some (.real value))
  | .string value => .string (some value)
  | .array items => .array (itemsToTrees items)
  | .object fields => .object (fieldsToTrees fields)

def itemsToTrees : List Json → List Tree
  | [] => []
  | item :: rest => toTree item :: itemsToTrees rest

def fieldsToTrees : List (String × Json) → List (Option String × Tree)
  | [] => []
  | (name, value) :: rest => (some name, toTree value) :: fieldsToTrees rest

end

def parse? (text : String) : Option Json :=
  (Tree.ofText? text).bind (Tree.toJson? maxDepth)

end Custody.Json
