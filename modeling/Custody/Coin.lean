import Custody.Address
import Custody.Transaction.Codec

/-! # Coins to spend

A coin is an unspent output together with the script that controls it: a compressed public key of
one signer, or the witness script of a multisig account. The length of the script tells which. A
multisig coin may take the backup route, on which an observer signs after a relative lock.
-/

namespace Custody

/-- An unspent output and the script that controls it. -/
structure Coin where
  /-- Identifier of the transaction, as it is shown. -/
  transactionHash : String
  index : UInt32
  satoshi : UInt64
  /-- The public key, or the witness script. -/
  script : Script
  sequence : UInt32
  /-- Whether an observer's signature is meant to count. -/
  routeBackup : Bool
deriving DecidableEq

/-- Who signs for a coin. -/
inductive Role where
  | singleKey
  | holder
  | observer
deriving DecidableEq, Repr

namespace Role

def isMultisig : Role → Bool
  | singleKey => false
  | holder | observer => true

def keyLength : Nat := 33

/-- A script of a multisig account is longer than this. -/
def multisigAbove : Nat := 100

def classify (script : Script) (routeBackup : Bool) : Except Error Role :=
  if multisigAbove < script.length then .ok (if routeBackup then observer else holder)
  else if script.length = keyLength && !routeBackup then .ok singleKey
  else
    .error (.invalidScript
      s!"{script.length} bytes (route backup {routeBackup}): {Hex.encode script}")

end Role

/-- What it takes to spend a coin. -/
structure Spend where
  role : Role
  address : String
  lock : Script
  /-- The script that a signature commits to. -/
  witnessScript : Script
  sequence : UInt32
deriving DecidableEq

namespace Spend

/-- How a coin with a given script is spent on a network. Only an observer uses the given sequence,
which must not be zero. -/
def derive (script : Script) (routeBackup : Bool) (sequence : UInt32) (network : Network) :
    Except Error Spend := do
  let role ← Role.classify script routeBackup
  let program := if role.isMultisig then Sha256.hash script else Ripemd160.hash160 script
  let lock := Script.payToWitness 0 program
  let address ← Address.encodeWitness 0 program network
  let sequence' := if role = .observer then sequence else 0xFFFFFFFF
  if sequence' = 0 then throw (.invalidSequence sequence)
  return {
    role
    address
    lock
    witnessScript := if role.isMultisig then script else lock
    sequence := sequence' }

end Spend

structure Payment where
  address : String
  satoshi : UInt64
deriving DecidableEq

end Custody
