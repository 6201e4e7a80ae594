import Custody.Address
import Custody.Deposit
import Custody.Node.Record
import Custody.Node.Session
import Custody.Transaction.Codec

/-! # Queries of a node

What the custody client asks a Bitcoin or Litecoin node. The node's description of an output is not
trusted: it counts as a deposit only when the raw transaction, whose hash is the identifier asked
for, says the same.
-/

namespace Custody.Node

open Json (Decoder Given Tree)

/-- Replaces the address of an output by the only one in its legacy list. -/
def OutputRecord.useLegacyAddress (output : OutputRecord) : OutputRecord :=
  match output.script.legacyAddresses with
  | [address] => { output with script := { output.script with address } }
  | _ => output

/-- On Litecoin, takes addresses from the legacy lists. -/
def TxRecord.useLegacyAddresses (tx : TxRecord) (network : Network) : TxRecord :=
  if network = .litecoin then { tx with vout := tx.vout.map OutputRecord.useLegacyAddress } else tx

def getTransaction (hash : String) : Query TxRecord := do
  let tx ← callAs TxRecord.decode "getrawtransaction" [.string hash, .nat 1]
  return tx.useLegacyAddresses (← get).config.network

/-- The transactions with some hashes, without those that cannot be got. -/
def getAvailable : List String → Query (List TxRecord)
  | [] => return []
  | hash :: rest => do
    let found ← tryCatch (some <$> getTransaction hash) fun _ => pure none
    return found.toList ++ (← getAvailable rest)

/-- The transactions that wait for a block. -/
def getMempool : Query (List TxRecord) := do
  getAvailable (← callAs (Decoder.list Decoder.text) "getrawmempool" [])

def getBlock (hash : String) : Query BlockRecord :=
  callAs BlockRecord.decode "getblock" [.string hash, .nat 1]

/-- The block with a hash, with its transactions. -/
def getFullBlock (hash : String) : Query FullBlockRecord := do
  let block ← callAs FullBlockRecord.decode "getblock" [.string hash, .nat 2]
  let network := (← get).config.network
  return { block with
    tx := block.tx.map fun tx => { tx.useLegacyAddresses network with blockhash := hash } }

def getBlockHash (height : UInt64) : Query String :=
  callAs Decoder.text "getblockhash" [.nat height.toNat]

def getHeight : Query UInt64 :=
  callAs (fun tree => do (← Given.ofTree? ["blocks"] tree).required "blocks" Decoder.word64)
    "getblockchaininfo" []

/-- The lowest fee rate, in satoshi per virtual byte. -/
def minFeeRate : UInt64 := 10

/-- A fee rate in coins per kilobyte as satoshi per virtual byte, with a tenth on top. -/
def feeRate (coins : Double) : UInt64 :=
  let rate := (coins.toFloat * 1.1 * 100000000.0 / 1024.0).toUInt64
  if rate < minFeeRate then minFeeRate else rate

def estimateFeeRate : Query UInt64 := do
  let zero : Double := ⟨0⟩
  let coins ← callAs
    (fun tree => do (← Given.ofTree? ["feerate"] tree).optional "feerate" Decoder.double zero)
    "estimatesmartfee" [.nat 1]
  if coins.toFloat <= 0 || !coins.isFinite then
    throw (.rpc s!"estimatesmartfee returned {plainDecimals.writeDouble coins}")
  return feeRate coins

/-- Sends a raw transaction and returns its hash. -/
def sendRawTransaction (raw : String) : Query String :=
  callAs Decoder.text "sendrawtransaction" [.string raw]

/-- The address that paid for the first input of a transaction, or the data of mined coins. -/
def getSender (tx : TxRecord) : Query String := do
  match tx.vin with
  | [] => throw (.rpc s!"transaction {tx.txid} has no inputs")
  | first :: _ =>
    if !first.coinbase.isEmpty then return first.coinbase
    let previous ← getTransaction first.txid
    match previous.vout[first.vout.toNat]? with
    | some output => return output.script.address
    | none => throw (.rpc s!"{first.txid}:{first.vout.toNat} not found")

/-- The deposit that a node describes: an output to a witness program of version 0 with an address
and an exact amount. -/
def describedDeposit? (tx : TxRecord) (index : UInt32) : Option Deposit :=
  match tx.vout[index.toNat]? with
  | none => none
  | some output =>
    let kind := output.script.kind
    if kind ≠ "witness_v0_scripthash" && kind ≠ "witness_v0_keyhash" then none
    else if output.script.address.isEmpty then none
    else
      (Amount.ofDouble? output.value).map fun satoshi => {
        address := output.script.address
        satoshi
        height := 0
        time := none
        coinbase := (tx.vin.head?.map (!·.coinbase.isEmpty)).getD false }

/-- A deposit with the height and time of its block. -/
def locate (deposit : Deposit) (blockhash : String) : Query Deposit := do
  if blockhash.isEmpty then return { deposit with height := 0xFFFFFFFFFFFFFFFF }
  let block ← getBlock blockhash
  return { deposit with height := block.height, time := some block.time }

/-- The transaction that the node's raw bytes hold. -/
def rawTransaction (hash : String) (tx : TxRecord) : Except Error Transaction := do
  match Hex.decode tx.hex with
  | .error fault => throw (.rpc s!"transaction {hash} hex: {fault.message}")
  | .ok bytes =>
    match Transaction.ofBytes? bytes with
    | some raw => return raw
    | none => throw (.rpc s!"transaction {hash} decode: not the wire form of a transaction")

/-- Whether a raw transaction has the hash and as many outputs as asked for, and its output at an
index pays a deposit's amount to a witness program of version 0 with the deposit's address. -/
def confirms (raw : Transaction) (hash : String) (outputs : Nat) (index : UInt32)
    (deposit : Deposit) (network : Network) : Except Error Bool :=
  if raw.txid.display ≠ hash || raw.outputs.length ≠ outputs then .ok false
  else
    match raw.outputs[index.toNat]? with
    | none => .ok false
    | some output =>
      if output.value ≠ deposit.satoshi then .ok false
      else if !(output.script.isWitnessPubkeyHash || output.script.isWitnessScriptHash) then
        .ok false
      else
        (Address.encodeWitness 0 (output.script.drop 2) network).map (· = deposit.address)

/-- The deposit at an output, with the node's description of its transaction; nothing if there is no
such output, it is not to a witness program of version 0, or the raw transaction says otherwise. -/
def getDeposit (hash : String) (index : UInt32) : Query (Option (TxRecord × Deposit)) := do
  let tx ← getTransaction hash
  match describedDeposit? tx index with
  | none => return none
  | some described =>
    let deposit ← locate described tx.blockhash
    let raw ← (rawTransaction hash tx : Except _ _)
    let network := (← get).config.network
    let confirmed ← (confirms raw hash tx.vout.length index deposit network : Except _ _)
    return if confirmed then some (tx, deposit) else none

end Custody.Node
