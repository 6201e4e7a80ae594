import Custody.Host.Error
import Custody.Host.Record
import Custody.Message
import Custody.Operation.Proposal
import Custody.Packet.Signing
import Custody.Request

/-! # The interface of the host

What a host application calls, in texts, bytes and records. Work on transactions and messages is
for chains of the Bitcoin family, which is checked first; operations are for all chains.
-/

namespace Custody.Host

def network (chain : Chain) : Except HostError Network :=
  match chain.network? with
  | some network => .ok network
  | none => .error (.unsupportedChain chain.displayName)

/-- Builds the packet that pays a request at a Unix time. -/
def buildTransaction (chain : Chain) (coins : List Coin) (payments : List Payment)
    (payload : Bytes) (clock : UInt64 := 0) : Except HostError BuiltTransaction := do
  let network ← network chain
  let packet ← (Request.build ⟨coins, payments, payload, network⟩ clock).mapError Error.toHost
  let raw ← packet.toHex.mapError Error.toHost
  return ⟨packet.hash, raw, packet.fee?.getD 0, UInt32.ofNat packet.inputCount⟩

/-- Checks that the coins for the fee cover it at a rate. -/
def estimateTransactionFee (chain : Chain) (coins feeCoins : List Coin) (payments : List Payment)
    (rate : UInt64) (payload : Bytes) : Except HostError FeeRecord := do
  let network ← network chain
  let estimate ← (Request.estimateFee ⟨coins, payments, payload, network⟩ feeCoins rate).mapError
    Error.toHost
  return ⟨UInt64.ofNat estimate.virtualSize, estimate.fee, estimate.available⟩

/-- Signs every input of a packet in text form. -/
def signTransaction (chain : Chain) (raw privateKey : String) : Except HostError String := do
  let _ ← network chain
  (Packet.signText raw privateKey).mapError Error.toHost

/-- Whether a key has signed every input of a packet in hexadecimal text. -/
def isPartiallySignedBy (raw publicKey : String) : Bool :=
  Packet.isTextSignedBy raw publicKey

def parseAddress (chain : Chain) (address : String) : Except HostError Script := do
  let network ← network chain
  (Address.parse address network).mapError Error.toHost

def signMessage (chain : Chain) (message privateKey : String) : Except HostError String := do
  let network ← network chain
  (Message.sign message privateKey network).mapError Error.toHost

/-- Whether a signature of a message verifies. Only the chain and the key can fail. -/
def verifyMessage (chain : Chain) (publicKey message signature : String) :
    Except HostError Bool := do
  let network ← network chain
  let _ ← (parsePublicKey publicKey).mapError Error.toHost
  return (Message.verify publicKey message signature network).isOk

/-- Signs the approval of an account at an address. -/
def approveAccount (chain : Chain) (account address privateKey : String) :
    Except HostError String :=
  signMessage chain (Message.approval account address) privateKey

def approveTransaction (chain : Chain) (transaction hash privateKey : String) :
    Except HostError String :=
  signMessage chain (Message.approval transaction hash) privateKey

def revokeTransaction (chain : Chain) (transaction hash privateKey : String) :
    Except HostError String :=
  signMessage chain (Message.revocation transaction hash) privateKey

def parseId (id : String) : Except HostError Uuid :=
  match Uuid.parse? id with
  | some uuid => .ok uuid
  | none => .error (.invalidOperation s!"invalid uuid {id}")

def recordOf (op : Operation) : OperationRecord :=
  ⟨op.id.display, op.kind, op.curve, op.publicKey, op.extra⟩

/-- The memo of an operation. -/
def encodeOperation (record : OperationRecord) : Except HostError String := do
  let id ← parseId record.id
  let op : Operation := ⟨id, record.kind, record.curve, record.publicKey, record.extra⟩
  op.encodeMemo.mapError OperationError.toHost

def decodeOperation (memo : String) : Except HostError OperationRecord :=
  match Operation.decodeMemo memo with
  | .ok op => .ok (recordOf op)
  | .error error => .error error.toHost

def proposeAccount (id publicKey : String) (owners : List String) (threshold : UInt8)
    (chain : Chain) (timeLock : UInt16) : Except HostError OperationRecord := do
  let id ← parseId id
  let op ← (Operation.proposeAccount id publicKey owners threshold chain timeLock).mapError
    OperationError.toHost
  return recordOf op

def proposeTransaction (id publicKey : String) (type : UInt8) (head destination : String)
    (chain : Chain) : Except HostError OperationRecord := do
  let id ← parseId id
  let op ← (Operation.proposeTransaction id publicKey type head destination chain).mapError
    OperationError.toHost
  return recordOf op

/-- The memo of a transfer to an application. -/
def encodeMixinMemo (app memo : String) : Except HostError String :=
  (mixinMemo app memo).mapError OperationError.toHost

end Custody.Host
