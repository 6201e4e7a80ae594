import Custody.Amount
import Custody.Assembly
import Custody.Fee
import Custody.Packet.Digest
import Custody.Policy.Relay
import Custody.Policy.Sanity

/-! # Requests to pay

A request spends the coins of one address to some payments, perhaps with a payload of data. It is
estimated, which says whether further coins can pay the fee, or built, which gives the packet that
the parties sign. Change goes back to the address of the coins.
-/

namespace Custody

/-- What to spend, to whom, and the data to publish with it. -/
structure Request where
  coins : List Coin
  payments : List Payment
  payload : Bytes
  network : Network

namespace Request

def checkPayload (request : Request) : Except Error Unit :=
  if Fee.maxPayload < request.payload.length then
    .error (.payloadTooLarge request.payload.length Fee.maxPayload)
  else .ok ()

/-- What is left of a total after some outputs. -/
def change (total outputs : UInt64) : Except Error UInt64 :=
  if total < outputs then .error (.insufficientMain total outputs) else .ok (total - outputs)

/-- Assembles the transaction whose fee is estimated: the request's coins, the coins for the fee,
the payments, and change of any amount. Returns the total of the coins for the fee. -/
def assembleEstimate (request : Request) (feeCoins : List Coin) : Assembly UInt64 := do
  (request.checkPayload : Except _ _)
  let main ← Assembly.addInputs request.coins request.network
  let fee ← Assembly.addInputs feeCoins request.network
  let outputs ← Assembly.addOutputs request.payments request.network
  let rest ← (change main.total outputs : Except _ _)
  if 0 < rest then Assembly.addChange main rest request.network
  return fee.total

/-- Estimates the fee at a rate and checks that the coins for the fee can pay it. -/
def estimateFee (request : Request) (feeCoins : List Coin) (rate : UInt64) :
    Except Error Fee.Estimate := do
  let (available, tx) := (assembleEstimate request feeCoins).runFrom Transaction.blank
  let available ← available
  let size := Fee.virtualSize tx.inputs.length tx.outputs.length request.payload.length
  let fee := Fee.fee size rate
  if available < fee then throw (.insufficientFee fee available)
  return ⟨size, fee, available⟩

/-- Assembles the transaction to build, up to the payload: the coins, the payments, and change above
the network's dust threshold. -/
def assemble (request : Request) : Assembly Assembly.Group := do
  (request.checkPayload : Except _ _)
  let main ← Assembly.addInputs request.coins request.network
  let outputs ← Assembly.addOutputs request.payments request.network
  let rest ← (change main.total outputs : Except _ _)
  if request.network.params.dustThreshold < rest then
    Assembly.addChange main rest request.network
  return main

/-- The output that publishes a payload, if there is one. -/
def payloadOutputs (payload : Bytes) : List TxOut :=
  if payload.isEmpty then [] else [⟨0, Script.nullData payload⟩]

/-- Checks that a transaction is no larger than its estimate, and the estimate not too large. -/
def checkSize (tx : Transaction) (estimate : Nat) : Except Error Unit := do
  let actual := tx.encode.length
  if estimate < actual then throw (.estimationExceeded actual estimate)
  if Fee.maxWeight < 4 * estimate then throw (.weightExceeded (4 * estimate) Fee.maxWeight)

/-- The fields of an input that spends a coin under a locking script. -/
def fieldsOf (lock : Script) (coin : Coin) (spend : Spend) : InputFields where
  witnessUtxo := some ⟨coin.satoshi, lock⟩
  witnessScript := some spend.witnessScript
  sighashType := some sighashType

def packetOf (tx : Transaction) (coins : List Coin) (main : Assembly.Group) :
    Except Error Packet := do
  match main.origin with
  | none => throw (.build "no main inputs")
  | some (_, lock) =>
    let packet ← (Packet.new tx).mapError Packet.Fault.toError
    let packet := { packet with inputs := List.zipWith (fieldsOf lock) coins main.spends }
    packet.checkSanity.mapError Packet.Fault.toError
    return packet

/-- Builds the packet of a request at a Unix time. What is built has no lock time, so the time makes
no difference and can be left out. -/
def build (request : Request) (clock : UInt64 := 0) : Except Error Packet := do
  let (main, tx) := (assemble request).runFrom Transaction.blank
  let main ← main
  let estimate :=
    Fee.virtualSize tx.inputs.length tx.outputs.length request.payload.length
  let tx := { tx with outputs := tx.outputs ++ payloadOutputs request.payload }
  checkSize tx estimate
  Sanity.check tx
  -- No clock comes so near to `2 ^ 64` that the sum would wrap.
  Relay.check tx Relay.lockTimeThreshold (clock + UInt64.ofNat Lock.maxSeconds)
  packetOf tx request.coins main

end Request

end Custody
