import Custody.Packet.Digest
import Custody.Proofs.Script

/-! # Digests of all sighash types

BIP 143 says for each sighash type which parts of a transaction a signature on an input commits to.
Packets have one type: of those parts it leaves out the other inputs. The script of an input goes in
as its script code.
-/

namespace Custody

section ScriptCode

/-- The script code of the program of a public key hash pays to that hash. -/
theorem scriptCode_of_program {program : Bytes} (size : program.length = 20) :
    scriptCode ([0x00, 0x14] ++ program) = [0x76, 0xa9, 0x14] ++ program ++ [0x88, 0xac] := by
  have pays : Script.isWitnessPubkeyHash ([0x00, 0x14] ++ program) = true := by
    simp [Script.isWitnessPubkeyHash, Script.isProgram, size]
  rw [scriptCode, if_pos pays]
  rfl

/-- Any other script is its own script code. -/
theorem scriptCode_of_ne {script : Script}
    (other : ∀ program : Bytes, program.length = 20 → script ≠ [0x00, 0x14] ++ program) :
    scriptCode script = script := by
  refine if_neg fun pays => ?_
  unfold Script.isWitnessPubkeyHash Script.isProgram at pays
  split at pays
  · rename_i a b program
    simp only [Bool.and_eq_true, decide_eq_true_eq] at pays
    obtain ⟨⟨rfl, rfl⟩, size⟩ := pays
    exact other program size rfl
  · cases pays

end ScriptCode

namespace Bip143

/-- Whether a signature leaves the other inputs open. -/
def anyoneCanPay (type : UInt32) : Bool :=
  type &&& 0x80 ≠ 0

/-- Whether a signature covers no outputs. -/
def coversNone (type : UInt32) : Bool :=
  type &&& 0x1f = 0x02

/-- Whether a signature covers only the output at the place of its input. -/
def coversSingle (type : UInt32) : Bool :=
  type &&& 0x1f = 0x03

/-- What stands for a part that is left open. -/
def blank : Bytes :=
  List.replicate 32 0

/-- The commitment to the outpoints of all inputs. -/
def hashPrevouts (type : UInt32) (tx : Transaction) : Bytes :=
  if anyoneCanPay type then blank
  else
    Sha256.doubleHash (tx.inputs.flatMap fun input =>
      input.previous.txid.bytes ++ Bytes.ofNatLE 4 input.previous.vout.toNat)

/-- The commitment to the sequences of all inputs. -/
def hashSequence (type : UInt32) (tx : Transaction) : Bytes :=
  if anyoneCanPay type || coversNone type || coversSingle type then blank
  else Sha256.doubleHash (tx.inputs.flatMap fun input => Bytes.ofNatLE 4 input.sequence.toNat)

/-- The commitment to the outputs. -/
def hashOutputs (type : UInt32) (tx : Transaction) (index : Nat) : Bytes :=
  if coversNone type then blank
  else if coversSingle type then
    match tx.outputs[index]? with
    | some output => Sha256.doubleHash output.encode
    | none => blank
  else Sha256.doubleHash (tx.outputs.flatMap TxOut.encode)

/-- The digest of the input at `index` that spends an amount under a script code. -/
def digest (type : UInt32) (tx : Transaction) (index : Nat) (input : TxIn) (code : Script)
    (value : UInt64) : Bytes :=
  Sha256.doubleHash (
    Bytes.ofNatLE 4 tx.version.toUInt32.toNat ++ hashPrevouts type tx ++ hashSequence type tx
      ++ (input.previous.txid.bytes ++ Bytes.ofNatLE 4 input.previous.vout.toNat)
      ++ CompactSize.sized code ++ Bytes.ofNatLE 8 value.toNat
      ++ Bytes.ofNatLE 4 input.sequence.toNat ++ hashOutputs type tx index
      ++ Bytes.ofNatLE 4 tx.lockTime.toNat ++ Bytes.ofNatLE 4 type.toNat)

/-- What is signed for a packet has the digest of the packet's sighash type. -/
theorem doubleHash_digestPreimage (tx : Transaction) (index : Nat) (input : TxIn) (script : Script)
    (value : UInt64) :
    Sha256.doubleHash (digestPreimage tx input script value) =
      digest sighashType tx index input (scriptCode script) value := by
  have alone : anyoneCanPay sighashType = true := by decide
  have none : coversNone sighashType = false := by decide
  have single : coversSingle sighashType = false := by decide
  have zeros : (List.replicate 64 0 : Bytes) = blank ++ blank := rfl
  simp only [digest, digestPreimage, hashPrevouts, hashSequence, hashOutputs, alone, none, single,
    zeros, Transaction.encodeVersion, List.append_assoc, Bool.true_or, Bool.false_eq_true,
    ↓reduceIte]

end Bip143

end Custody
