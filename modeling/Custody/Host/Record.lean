import Custody.Chain
import Custody.Coin
import Custody.Deposit
import Custody.Json.Record

/-! # Records of the host

The records that the host passes in and gets back, with their JSON forms. Coins have two forms: with
the script as hexadecimal text, and with the script as a list of bytes.
-/

namespace Custody

open Json (Decoder Given)

/-- A transaction that is ready for its signers. -/
structure BuiltTransaction where
  hash : String
  /-- The packet as hexadecimal text. -/
  raw : String
  fee : UInt64
  inputCount : UInt32
deriving DecidableEq

/-- A fee that can be paid. -/
structure FeeRecord where
  virtualSize : UInt64
  fee : UInt64
  available : UInt64
deriving DecidableEq

/-- An operation with its identifier as text. -/
structure OperationRecord where
  id : String
  kind : UInt8
  curve : UInt8
  publicKey : String
  extra : Bytes
deriving DecidableEq

def Json.Decoder.hexBytes : Decoder Bytes := fun tree => do
  (Hex.decode (← text tree)).toOption

def Json.Decoder.byteList : Decoder Bytes := list byte

namespace Coin

/-- Reads a coin whose script is in a given form. -/
def decode (script : Decoder Script) : Decoder Coin := fun tree => do
  let given ← Given.ofTree?
    ["transaction_hash", "index", "satoshi", "script", "sequence", "route_backup"] tree
  return {
    transactionHash := ← given.required "transaction_hash" Decoder.text
    index := ← given.required "index" Decoder.word32
    satoshi := ← given.required "satoshi" Decoder.word64
    script := ← given.required "script" script
    sequence := ← given.required "sequence" Decoder.word32
    routeBackup := ← given.required "route_backup" Decoder.bool }

def toJson (script : Script → Json) (coin : Coin) : Json :=
  .object [("transaction_hash", .string coin.transactionHash), ("index", .nat coin.index.toNat),
    ("satoshi", .nat coin.satoshi.toNat), ("script", script coin.script),
    ("sequence", .nat coin.sequence.toNat), ("route_backup", .bool coin.routeBackup)]

end Coin

namespace Deposit

def decode : Decoder Deposit := fun tree => do
  let given ← Given.ofTree? ["address", "satoshi", "height", "time", "coinbase"] tree
  return {
    address := ← given.required "address" Decoder.text
    satoshi := ← given.required "satoshi" Decoder.word64
    height := ← given.optional "height" Decoder.word64 0
    time := ← given.optional "time" (Decoder.optional Decoder.word64) none
    coinbase := ← given.optional "coinbase" Decoder.bool false }

def toJson (deposit : Deposit) : Json :=
  .object [("address", .string deposit.address), ("satoshi", .nat deposit.satoshi.toNat),
    ("height", .nat deposit.height.toNat),
    ("time", (deposit.time.map fun time => Json.nat time.toNat).getD .null),
    ("coinbase", .bool deposit.coinbase)]

end Deposit

namespace Payment

def decode : Decoder Payment := fun tree => do
  let given ← Given.ofTree? ["address", "satoshi"] tree
  return {
    address := ← given.required "address" Decoder.text
    satoshi := ← given.required "satoshi" Decoder.word64 }

def toJson (payment : Payment) : Json :=
  .object [("address", .string payment.address), ("satoshi", .nat payment.satoshi.toNat)]

end Payment

namespace BuiltTransaction

def decode : Decoder BuiltTransaction := fun tree => do
  let given ← Given.ofTree? ["hash", "raw", "fee", "input_count"] tree
  return {
    hash := ← given.required "hash" Decoder.text
    raw := ← given.required "raw" Decoder.text
    fee := ← given.required "fee" Decoder.word64
    inputCount := ← given.required "input_count" Decoder.word32 }

def toJson (built : BuiltTransaction) : Json :=
  .object [("hash", .string built.hash), ("raw", .string built.raw), ("fee", .nat built.fee.toNat),
    ("input_count", .nat built.inputCount.toNat)]

end BuiltTransaction

namespace FeeRecord

def decode : Decoder FeeRecord := fun tree => do
  let given ← Given.ofTree? ["virtual_size", "fee", "available"] tree
  return {
    virtualSize := ← given.required "virtual_size" Decoder.word64
    fee := ← given.required "fee" Decoder.word64
    available := ← given.required "available" Decoder.word64 }

def toJson (record : FeeRecord) : Json :=
  .object [("virtual_size", .nat record.virtualSize.toNat), ("fee", .nat record.fee.toNat),
    ("available", .nat record.available.toNat)]

end FeeRecord

namespace OperationRecord

def decode : Decoder OperationRecord := fun tree => do
  let given ← Given.ofTree? ["id", "kind", "curve", "public", "extra"] tree
  return {
    id := ← given.required "id" Decoder.text
    kind := ← given.required "kind" Decoder.byte
    curve := ← given.required "curve" Decoder.byte
    publicKey := ← given.required "public" Decoder.text
    extra := ← given.required "extra" Decoder.byteList }

def toJson (record : OperationRecord) : Json :=
  .object [("id", .string record.id), ("kind", .nat record.kind.toNat),
    ("curve", .nat record.curve.toNat), ("public", .string record.publicKey),
    ("extra", .ofByteList record.extra)]

end OperationRecord

namespace Chain

/-- Reads a chain: its name, or an object with the name as the only field and nothing in it. -/
def decode : Decoder Chain
  | .string value => value.bind ofTag?
  | .object [(name, .null)] => name.bind ofTag?
  | _ => none

def toJson (chain : Chain) : Json := .string chain.tag

end Chain

end Custody
