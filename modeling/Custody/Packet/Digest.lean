import Custody.Packet

/-! # What a signature commits to

A signature on an input covers the version and lock time of the transaction, the outpoint and
sequence of that input, the amount and script that it spends, and all outputs. Other inputs are not
covered (their places hold zeros), so inputs that pay the fee can be added after signing.
-/

namespace Custody

/-- The sighash type of every signature: all outputs, and only the signed input. -/
def sighashType : UInt32 := 0x81

/-- The script code of an input: the script itself, or for a public key hash in the witness the
script that pays to that hash. -/
def scriptCode (script : Script) : Script :=
  if script.isWitnessPubkeyHash then Script.payToPubkeyHash (script.drop 2) else script

/-- The bytes whose double hash is signed for an input of a transaction. -/
def digestPreimage (tx : Transaction) (input : TxIn) (script : Script) (value : UInt64) : Bytes :=
  tx.encodeVersion ++ List.replicate 64 0
    ++ input.previous.txid.bytes ++ Bytes.ofNatLE 4 input.previous.vout.toNat
    ++ CompactSize.sized (scriptCode script) ++ Bytes.ofNatLE 8 value.toNat
    ++ Bytes.ofNatLE 4 input.sequence.toNat
    ++ Sha256.doubleHash (tx.outputs.flatMap TxOut.encode)
    ++ Bytes.ofNatLE 4 tx.lockTime.toNat ++ Bytes.ofNatLE 4 sighashType.toNat

namespace Packet

/-- The bytes whose double hash is signed for an input of a packet. -/
def preimage (packet : Packet) (index : Nat) : Except Error Bytes :=
  match packet.inputs[index]? with
  | none => .error (Fault.outOfRange index).toError
  | some fields =>
    match fields.witnessUtxo with
    | none => .error (Fault.noWitnessUtxo index).toError
    | some utxo =>
      match fields.witnessScript with
      | none => .error (Fault.noWitnessScript index).toError
      | some script =>
        match packet.unsignedTx.inputs[index]? with
        | some input => .ok (digestPreimage packet.unsignedTx input script utxo.value)
        | none =>
          .error (.signing (if script.isWitnessPubkeyHash
            then s!"p2wpkh sighash of input {index}: error encoding segwit v0 signing data"
            else s!"p2wsh sighash of input {index}: invalid input index"))

/-- The digest that is signed for an input of a packet. -/
def sighash (packet : Packet) (index : Nat) : Except Error Bytes :=
  (packet.preimage index).map Sha256.doubleHash

end Packet

end Custody
