import Custody.Network
import Custody.Operation.Error

/-! # Chains of the custody service

Accounts live on one of five chains. Each has a code, the code of the curve of its keys, and a base
for the codes of the actions on it, which the chains of one family share.
-/

namespace Custody

/-- Codes of kinds of work that signers do. -/
inductive WorkType where
  | wrapper
  | keygenInput
  | signInput
  | keygenOutput
  | signOutput
deriving DecidableEq, Repr

namespace WorkType

def code : WorkType → UInt8
  | wrapper => 0
  | keygenInput => 1
  | signInput => 2
  | keygenOutput => 11
  | signOutput => 12

/-- All kinds of work, by ascending code. -/
def all : List WorkType := [wrapper, keygenInput, signInput, keygenOutput, signOutput]

end WorkType

/-- A curve with a signature scheme, as it is used on a chain. -/
inductive Curve where
  | ecdsaBitcoin
  | ecdsaEthereum
  | schnorrBitcoin
  | edwardsDefault
  | edwardsMixin
  | ecdsaLitecoin
  | ecdsaMvm
  | ecdsaPolygon
deriving DecidableEq, Repr

namespace Curve

/-- The code of a curve. Chains that share the scheme of another chain add to its code. -/
def code : Curve → UInt8
  | ecdsaBitcoin => 1
  | ecdsaEthereum => 2
  | schnorrBitcoin => 3
  | edwardsDefault => 11
  | edwardsMixin => 12
  | ecdsaLitecoin => 100 + 1
  | ecdsaMvm => 100 + 2
  | ecdsaPolygon => 110 + 2

def all : List Curve :=
  [ecdsaBitcoin, ecdsaEthereum, schnorrBitcoin, edwardsDefault, edwardsMixin, ecdsaLitecoin,
    ecdsaMvm, ecdsaPolygon]

end Curve

/-- What an operation asks for. -/
inductive Action where
  | proposeAccount
  | approveAccount
  | proposeTransaction
  | approveTransaction
  | revokeTransaction
  | closeAccount
  | refundTransaction
deriving DecidableEq, Repr

namespace Action

def name : Action → String
  | proposeAccount => "propose account"
  | approveAccount => "approve account"
  | proposeTransaction => "propose transaction"
  | approveTransaction => "approve transaction"
  | revokeTransaction => "revoke transaction"
  | closeAccount => "close account"
  | refundTransaction => "refund transaction"

/-- The distance of an action's code from the base of its chain. -/
def offset : Action → UInt8
  | proposeAccount => 0
  | approveAccount => 1
  | proposeTransaction => 2
  | approveTransaction => 3
  | revokeTransaction => 4
  | closeAccount => 5
  | refundTransaction => 6

end Action

/-- A chain that accounts live on. -/
inductive Chain where
  | bitcoin
  | ethereum
  | mvm
  | litecoin
  | polygon
deriving DecidableEq, Repr

namespace Chain

def all : List Chain := [bitcoin, ethereum, mvm, litecoin, polygon]

def code : Chain → UInt8
  | bitcoin => 1
  | ethereum => 2
  | mvm => 4
  | litecoin => 5
  | polygon => 6

def ofCode (code : UInt8) : Except OperationError Chain :=
  match all.find? (·.code = code) with
  | some chain => .ok chain
  | none => .error (.unsupportedChain code)

def curve : Chain → Curve
  | bitcoin => .ecdsaBitcoin
  | ethereum => .ecdsaEthereum
  | mvm => .ecdsaMvm
  | litecoin => .ecdsaLitecoin
  | polygon => .ecdsaPolygon

def network? : Chain → Option Network
  | bitcoin => some .bitcoin
  | litecoin => some .litecoin
  | _ => none

def isBitcoinFamily (chain : Chain) : Bool :=
  chain.network?.isSome

/-- Where the codes of actions on a chain start. -/
def actionBase (chain : Chain) : UInt8 :=
  if chain.isBitcoinFamily then 110 else 130

/-- The code of an action on a chain. Only other chains than those of the Bitcoin family refund. -/
def actionCode (chain : Chain) (action : Action) : Except OperationError UInt8 :=
  if chain.isBitcoinFamily && action = .refundTransaction then
    .error (.unsupportedAction action.name chain.code)
  else .ok (chain.actionBase + action.offset)

def displayName : Chain → String
  | bitcoin => "Bitcoin"
  | ethereum => "Ethereum"
  | mvm => "Mixin Virtual Machine"
  | litecoin => "Litecoin"
  | polygon => "Polygon"

def symbol : Chain → String
  | bitcoin => "BTC"
  | ethereum | mvm => "ETH"
  | litecoin => "LTC"
  | polygon => "MATIC"

/-- The name of a chain in records. -/
def tag : Chain → String
  | bitcoin => "Bitcoin"
  | ethereum => "Ethereum"
  | mvm => "Mvm"
  | litecoin => "Litecoin"
  | polygon => "Polygon"

def ofTag? (text : String) : Option Chain :=
  all.find? (·.tag = text)

end Chain

/-- Kinds of transaction that can be proposed. -/
inductive TransactionType where
  | normal
  | recovery
deriving DecidableEq, Repr

namespace TransactionType

def code : TransactionType → UInt8
  | normal => 0
  | recovery => 1

end TransactionType

/-- The asset in which Bitcoin accounts are kept. -/
def bitcoinAsset : String := "c6d0c728-2624-429b-8e0d-d9d19b6592fa"

/-- The asset in which fees for proposals are paid. -/
def pusdAsset : String := "31d2ea9c-95eb-3355-b65b-ba096853bc18"

end Custody
