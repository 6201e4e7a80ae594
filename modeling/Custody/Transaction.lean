import Custody.CompactSize
import Custody.Script
import Custody.Text.Hex

/-! # Transactions

A transaction spends outputs of earlier ones, named by outpoints, and creates new outputs. The
identifier of a transaction is shown with its bytes reversed.
-/

namespace Custody

/-- The identifier of a transaction, in the order of the wire. -/
structure Txid where
  bytes : Bytes
  size : bytes.length = 32
deriving DecidableEq, Hashable

namespace Txid

/-- The identifier of all zeros, which no transaction has. -/
def zero : Txid := ⟨List.replicate 32 0, rfl⟩

/-- The digits under which an identifier is shown. -/
def display (txid : Txid) : String :=
  Hex.encode txid.bytes.reverse

/-- The identifier that 64 digits show. -/
def ofDisplay? (text : String) : Option Txid :=
  match Hex.decode text with
  | .error _ => none
  | .ok shown => if size : shown.reverse.length = 32 then some ⟨shown.reverse, size⟩ else none

end Txid

/-- An output of a transaction, by its position. -/
structure OutPoint where
  txid : Txid
  vout : UInt32
deriving DecidableEq, Hashable

namespace OutPoint

/-- The outpoint that the input of mined coins names. -/
def null : OutPoint := ⟨Txid.zero, 0xFFFFFFFF⟩

def display (outpoint : OutPoint) : String :=
  s!"{outpoint.txid.display}:{outpoint.vout.toNat}"

end OutPoint

/-- The spending of an output. -/
structure TxIn where
  previous : OutPoint
  signatureScript : Script := []
  sequence : UInt32 := 0xFFFFFFFF
  witness : List Bytes := []
deriving DecidableEq

/-- An amount of satoshi under a locking script. -/
structure TxOut where
  value : UInt64
  script : Script
deriving DecidableEq

/-- A transfer from outputs of earlier transactions to new outputs. -/
structure Transaction where
  version : Int32
  lockTime : UInt32
  inputs : List TxIn
  outputs : List TxOut
deriving DecidableEq

namespace Transaction

/-- The transaction that assembly starts from: version 2, no lock time, nothing spent or paid. -/
def blank : Transaction := ⟨2, 0, [], []⟩

/-- Whether the only input of a transaction names the null outpoint. -/
def isCoinbase (tx : Transaction) : Bool :=
  match tx.inputs with
  | [input] => input.previous = OutPoint.null
  | _ => false

end Transaction

end Custody
