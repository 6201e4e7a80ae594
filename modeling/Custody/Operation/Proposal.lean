import Custody.Chain
import Custody.Operation

/-! # Proposals

The operations that a client sends to open an account and to move funds, and the memo that routes a
transfer to an application. The extra data of a proposal holds what is proposed.
-/

namespace Custody

namespace Operation

/-- A text with its ASCII letters in lower case. -/
def lowercase (text : String) : String :=
  String.ofList (text.toList.map Char.toLower)

def maxOwners : Nat := 255

/-- The identifiers of owners, one after the other. -/
def ownerBytes : List String → Except OperationError Bytes
  | [] => .ok []
  | owner :: rest =>
    match Uuid.parse? owner with
    | none => .error (.invalidUuid owner)
    | some uuid => (ownerBytes rest).map (uuid.bytes ++ ·)

/-- The extra data of an account: lock, threshold, and the number and identifiers of its owners. -/
def accountExtra (owners : List String) (threshold : UInt8) (timeLock : UInt16) :
    Except OperationError Bytes :=
  (ownerBytes owners).map fun ids =>
    Bytes.ofNatBE 2 timeLock.toNat ++ threshold :: UInt8.ofNat owners.length :: ids

def proposeAccount (id : Uuid) (publicKey : String) (owners : List String) (threshold : UInt8)
    (chain : Chain) (timeLock : UInt16) : Except OperationError Operation := do
  let kind ← chain.actionCode .proposeAccount
  if maxOwners < owners.length then throw (.tooManyOwners owners.length maxOwners)
  let extra ← accountExtra owners threshold timeLock
  return ⟨id, kind, chain.curve.code, lowercase publicKey, extra⟩

/-- The extra data of a transaction: its type, the identifier of the request it follows (zeros if
that is no identifier), and its tail. -/
def transactionExtra (type : UInt8) (head : String) (tail : Bytes) : Bytes :=
  type :: ((Uuid.parse? head).getD Uuid.nil).bytes ++ tail

/-- Asks to pay a batch of destinations, which a hash stands for. -/
def proposeBatch (id : Uuid) (publicKey : String) (type : UInt8) (head : String) (hash : Bytes)
    (chain : Chain) : Except OperationError Operation := do
  let kind ← chain.actionCode .proposeTransaction
  return ⟨id, kind, chain.curve.code, lowercase publicKey, transactionExtra type head hash⟩

def proposeTransaction (id : Uuid) (publicKey : String) (type : UInt8) (head destination : String)
    (chain : Chain) : Except OperationError Operation :=
  proposeBatch id publicKey type head (Bytes.ofText destination) chain

end Operation

/-- The memo of a transfer to an application: its identifier and a text, in base 64. -/
def mixinMemo (app memo : String) : Except OperationError String :=
  match Uuid.parse? app with
  | none => .error (.invalidUuid app)
  | some uuid => .ok (Base64.encode (uuid.bytes ++ Bytes.ofText memo))

end Custody
