import Custody.Bytes

/-! # Bitcoin-family networks

The two networks whose coins are held in custody, each with the parameters of its addresses,
messages and policy.
-/

namespace Custody

inductive Network where
  | bitcoin
  | litecoin
deriving DecidableEq, Repr

/-- What distinguishes one network from another. -/
structure NetworkParams where
  /-- Number of the network among the chains of the custody service. -/
  chainId : UInt8
  name : String
  /-- Version byte of addresses that name a public key. -/
  pubkeyHashVersion : UInt8
  /-- Version byte of addresses that name a script. -/
  scriptHashVersion : UInt8
  /-- Prefix of witness addresses. -/
  hrp : String
  protocolVersion : UInt32
  /-- Largest change, in satoshi, that is left to the fee. -/
  dustThreshold : UInt64
  /-- Expected seconds between blocks. -/
  blockSeconds : UInt64
  /-- Text in front of every signed message. -/
  messageHeader : String
  /-- Confirmations after which mined coins can be spent. -/
  coinbaseMaturity : UInt64
deriving DecidableEq, Repr

namespace Network

def params : Network → NetworkParams
  | .bitcoin => {
      chainId := 1
      name := "bitcoin"
      pubkeyHashVersion := 0x00
      scriptHashVersion := 0x05
      hrp := "bc"
      protocolVersion := 70016
      dustThreshold := 1000
      blockSeconds := 600
      messageHeader := "Bitcoin Signed Message:\n"
      coinbaseMaturity := 100 }
  | .litecoin => {
      chainId := 5
      name := "litecoin"
      pubkeyHashVersion := 0x30
      scriptHashVersion := 0x32
      hrp := "ltc"
      protocolVersion := 70015
      dustThreshold := 10000
      blockSeconds := 150
      messageHeader := "Litecoin Signed Message:\n"
      coinbaseMaturity := 100 }

def name (network : Network) : String :=
  network.params.name

def ofChainId? (id : UInt8) : Option Network :=
  if id = 1 then some .bitcoin else if id = 5 then some .litecoin else none

end Network

end Custody
