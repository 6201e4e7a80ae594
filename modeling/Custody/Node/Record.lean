import Custody.Json.Record

/-! # Records of a node

Transactions and blocks as a node describes them, with their JSON forms. A node leaves out what does
not apply, so most fields have an empty default.
-/

namespace Custody.Node

open Json (Decoder Given Tree)

/-- The locking script of an output. -/
structure ScriptRecord where
  hex : String
  kind : String
  address : String
  /-- Where older nodes list the address. -/
  legacyAddresses : List String
deriving DecidableEq

/-- An input: mined coins, or an output of an earlier transaction. -/
structure InputRecord where
  coinbase : String
  txid : String
  vout : UInt32
deriving DecidableEq

/-- An output with its amount in coins. -/
structure OutputRecord where
  value : Double
  n : UInt32
  script : ScriptRecord
deriving DecidableEq

structure TxRecord where
  txid : String
  vin : List InputRecord
  vout : List OutputRecord
  /-- Hash of the block of the transaction; empty outside a block. -/
  blockhash : String
  hex : String
deriving DecidableEq

/-- A block with the identifiers of its transactions. -/
structure BlockRecord where
  hash : String
  height : UInt64
  tx : List String
  time : UInt64
deriving DecidableEq

/-- A block with its transactions. -/
structure FullBlockRecord where
  hash : String
  height : UInt64
  tx : List TxRecord
deriving DecidableEq

namespace ScriptRecord

def decode : Decoder ScriptRecord := fun tree => do
  let given ← Given.ofTree? ["hex", "type", "address", "addresses"] tree
  return {
    hex := ← given.optional "hex" Decoder.text ""
    kind := ← given.optional "type" Decoder.text ""
    address := ← given.optional "address" Decoder.text ""
    legacyAddresses := ← given.optional "addresses" (Decoder.list Decoder.text) [] }

/-- The JSON form, without an empty list of addresses. -/
def toJson (record : ScriptRecord) : Json :=
  .object ([("hex", .string record.hex), ("type", .string record.kind),
    ("address", .string record.address)]
    ++ if record.legacyAddresses.isEmpty then []
      else [("addresses", .array (record.legacyAddresses.map .string))])

end ScriptRecord

namespace InputRecord

def decode : Decoder InputRecord := fun tree => do
  let given ← Given.ofTree? ["coinbase", "txid", "vout"] tree
  return {
    coinbase := ← given.optional "coinbase" Decoder.text ""
    txid := ← given.optional "txid" Decoder.text ""
    vout := ← given.optional "vout" Decoder.word32 0 }

def toJson (record : InputRecord) : Json :=
  .object [("coinbase", .string record.coinbase), ("txid", .string record.txid),
    ("vout", .nat record.vout.toNat)]

end InputRecord

namespace OutputRecord

def decode : Decoder OutputRecord := fun tree => do
  let given ← Given.ofTree? ["value", "n", "scriptPubKey"] tree
  return {
    value := ← given.required "value" Decoder.double
    n := ← given.required "n" Decoder.word32
    script := ← given.required "scriptPubKey" ScriptRecord.decode }

def toJson (record : OutputRecord) : Json :=
  .object [("value", .real record.value), ("n", .nat record.n.toNat),
    ("scriptPubKey", record.script.toJson)]

end OutputRecord

namespace TxRecord

def decode : Decoder TxRecord := fun tree => do
  let given ← Given.ofTree? ["txid", "vin", "vout", "blockhash", "hex"] tree
  return {
    txid := ← given.required "txid" Decoder.text
    vin := ← given.optional "vin" (Decoder.list InputRecord.decode) []
    vout := ← given.optional "vout" (Decoder.list OutputRecord.decode) []
    blockhash := ← given.optional "blockhash" Decoder.text ""
    hex := ← given.optional "hex" Decoder.text "" }

def toJson (record : TxRecord) : Json :=
  .object [("txid", .string record.txid), ("vin", .array (record.vin.map InputRecord.toJson)),
    ("vout", .array (record.vout.map OutputRecord.toJson)),
    ("blockhash", .string record.blockhash), ("hex", .string record.hex)]

end TxRecord

namespace BlockRecord

def decode : Decoder BlockRecord := fun tree => do
  let given ← Given.ofTree? ["hash", "height", "tx", "time"] tree
  return {
    hash := ← given.required "hash" Decoder.text
    height := ← given.required "height" Decoder.word64
    tx := ← given.optional "tx" (Decoder.list Decoder.text) []
    time := ← given.optional "time" Decoder.word64 0 }

def toJson (record : BlockRecord) : Json :=
  .object [("hash", .string record.hash), ("height", .nat record.height.toNat),
    ("tx", .array (record.tx.map .string)), ("time", .nat record.time.toNat)]

end BlockRecord

namespace FullBlockRecord

def decode : Decoder FullBlockRecord := fun tree => do
  let given ← Given.ofTree? ["hash", "height", "tx"] tree
  return {
    hash := ← given.required "hash" Decoder.text
    height := ← given.required "height" Decoder.word64
    tx := ← given.optional "tx" (Decoder.list TxRecord.decode) [] }

def toJson (record : FullBlockRecord) : Json :=
  .object [("hash", .string record.hash), ("height", .nat record.height.toNat),
    ("tx", .array (record.tx.map TxRecord.toJson))]

end FullBlockRecord

end Custody.Node
