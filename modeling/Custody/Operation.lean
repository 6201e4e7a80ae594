import Custody.Operation.Error
import Custody.Text.Base64
import Custody.Text.Blank
import Custody.Text.Uuid

/-! # Operations

An operation is an instruction to the custody service, small enough for the memo of a transfer. Its
form is the identifier, the codes of action and curve, and two fields after their lengths: a public
key, which is text in memory, and extra data. What follows the form is not read.
-/

namespace Custody

/-- An instruction to the custody service. -/
structure Operation where
  id : Uuid
  /-- Code of the action. -/
  kind : UInt8
  /-- Code of the curve. -/
  curve : UInt8
  /-- The public key in lowercase hexadecimal digits. -/
  publicKey : String
  extra : Bytes
deriving DecidableEq

namespace Operation

def maxField : Nat := 200

def hasUpper (text : String) : Bool :=
  text.toList.any Char.isUpper

/-- The bytes of a public key's text, which must be lowercase. -/
def publicBytes (text : String) : Except OperationError Bytes :=
  if hasUpper text then .error (.invalidPublicKey s!"{text} is not lowercase hex")
  else
    match Hex.decode text with
    | .ok bytes => .ok bytes
    | .error fault => .error (.invalidPublicKey s!"{text}: {fault.message}")

/-- A field after its length. -/
def encodeField (name : String) (field : Bytes) : Except OperationError Bytes :=
  if maxField < field.length then .error (.fieldTooLarge name field.length maxField)
  else .ok (UInt8.ofNat field.length :: field)

def encode (op : Operation) : Except OperationError Bytes := do
  let key ← encodeField "public key" (← publicBytes op.publicKey)
  let extra ← encodeField "extra" op.extra
  return op.id.bytes ++ op.kind :: op.curve :: key ++ extra

/-- Reads `n` bytes of a field. -/
def take (name : String) (n : Nat) (bytes : Bytes) : Except OperationError (Bytes × Bytes) :=
  match Bytes.split? n bytes with
  | some parts => .ok parts
  | none => .error (.truncated name n bytes.length)

def takeByte (name : String) (bytes : Bytes) : Except OperationError (UInt8 × Bytes) :=
  match bytes with
  | b :: rest => .ok (b, rest)
  | [] => .error (.truncated name 1 0)

/-- Reads a field after its length. -/
def takeField (name : String) (bytes : Bytes) : Except OperationError (Bytes × Bytes) := do
  let (size, rest) ← takeByte name bytes
  take name size.toNat rest

def takeId (bytes : Bytes) : Except OperationError (Uuid × Bytes) :=
  match split : Bytes.split? 16 bytes with
  | some (id, rest) => .ok (⟨id, (Bytes.split?_eq_some_iff.mp split).1⟩, rest)
  | none => .error (.truncated "id" 16 bytes.length)

/-- Reads an operation, with what follows it. -/
def read (bytes : Bytes) : Except OperationError (Operation × Bytes) := do
  let (id, rest) ← takeId bytes
  let (kind, rest) ← takeByte "type" rest
  let (curve, rest) ← takeByte "curve" rest
  let (key, rest) ← takeField "public key" rest
  let (extra, rest) ← takeField "extra" rest
  return (⟨id, kind, curve, Hex.encode key, extra⟩, rest)

def decode (bytes : Bytes) : Except OperationError Operation :=
  (read bytes).map (·.1)

def encodeMemo (op : Operation) : Except OperationError String :=
  op.encode.map Base64.encode

/-- Reads an operation from a memo, which padding may follow. -/
def decodeMemo (memo : String) : Except OperationError Operation :=
  match Base64.decode? (Blank.trimEnd (· = '=') memo) with
  | some bytes => decode bytes
  | none => .error (.invalidBase64 "a character or the length is wrong")

end Operation

end Custody
