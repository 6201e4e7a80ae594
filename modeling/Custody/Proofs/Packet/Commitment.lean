import Custody.Proofs.Packet.Digest
import Custody.Proofs.Transaction

/-! # What a digest commits to

The bytes that are hashed for an input spell out a commitment: the version and lock time of the
transaction, the outpoint, sequence, amount and script code of the input, and the double hash of the
outputs. Two inputs, of one packet or of two, share those bytes exactly when they share the
commitment, so no message is signed for two spends. Whatever else a packet says can change under a
signature: other inputs can come, go and move, and the signed one can be described anew.
-/

namespace Custody

/-- The fields with other signatures, carried entries, sighash type and locking script. -/
def InputFields.redeclare (fields : InputFields) (signatures unknown : KeyMap)
    (type : Option UInt32) (lock : Script) : InputFields :=
  { fields with
    witnessUtxo := fields.witnessUtxo.map fun utxo => { utxo with script := lock }
    sighashType := type
    partialSignatures := signatures
    unknown := unknown }

namespace Packet

/-- What a signature on an input commits to. -/
structure Commitment where
  version : Int32
  lockTime : UInt32
  previous : OutPoint
  sequence : UInt32
  value : UInt64
  code : Script
  /-- The double hash of the wire forms of the outputs. -/
  outputs : Bytes
  size : outputs.length = 32

/-- The spelling of a commitment. -/
def Commitment.bytes (committed : Commitment) : Bytes :=
  Bytes.ofNatLE 4 committed.version.toUInt32.toNat ++ List.replicate 64 0
    ++ committed.previous.txid.bytes ++ Bytes.ofNatLE 4 committed.previous.vout.toNat
    ++ CompactSize.sized committed.code ++ Bytes.ofNatLE 8 committed.value.toNat
    ++ Bytes.ofNatLE 4 committed.sequence.toNat ++ committed.outputs
    ++ Bytes.ofNatLE 4 committed.lockTime.toNat ++ Bytes.ofNatLE 4 sighashType.toNat

/-- No two commitments are spelled alike: all parts but the script code have fixed sizes, and the
size of the whole tells that of the script code. -/
theorem Commitment.bytes_inj {a b : Commitment} : a.bytes = b.bytes ↔ a = b := by
  refine ⟨fun same => ?_, congrArg bytes⟩
  obtain ⟨⟨version⟩, lockTime, ⟨⟨txid, width⟩, vout⟩, sequence, value, code, outputs, size⟩ := a
  obtain ⟨⟨version'⟩, lockTime', ⟨⟨txid', width'⟩, vout'⟩, sequence', value', code', outputs',
    size'⟩ := b
  simp only [bytes, List.append_assoc] at same
  obtain ⟨versions, afterVersion⟩ := reads_readUInt32.append_inj trivial trivial same
  obtain ⟨txids, afterTxid⟩ :=
    List.append_inj (List.append_cancel_left afterVersion) (width.trans width'.symm)
  obtain ⟨vouts, afterVout⟩ := reads_readUInt32.append_inj trivial trivial afterTxid
  -- The script code is the only part without a fixed size, so it is told by what follows it.
  obtain ⟨codes, afterCode⟩ := List.append_inj' afterVout (by simp [size, size'])
  rw [CompactSize.sized_inj] at codes
  obtain ⟨values, afterValue⟩ := reads_readUInt64.append_inj trivial trivial afterCode
  obtain ⟨sequences, afterSequence⟩ := reads_readUInt32.append_inj trivial trivial afterValue
  obtain ⟨hashes, afterOutputs⟩ := List.append_inj afterSequence (size.trans size'.symm)
  obtain ⟨lockTimes, _⟩ := reads_readUInt32.append_inj trivial trivial afterOutputs
  subst versions txids vouts codes values sequences hashes lockTimes
  rfl

/-- What a signature on an input of a packet commits to, if the packet says enough of the input. -/
def commitment? (packet : Packet) (index : Nat) : Option Commitment := do
  let fields ← packet.inputs[index]?
  let utxo ← fields.witnessUtxo
  let script ← fields.witnessScript
  let input ← packet.unsignedTx.inputs[index]?
  return {
    version := packet.unsignedTx.version
    lockTime := packet.unsignedTx.lockTime
    previous := input.previous
    sequence := input.sequence
    value := utxo.value
    code := scriptCode script
    outputs := Sha256.doubleHash (packet.unsignedTx.outputs.flatMap TxOut.encode)
    size := Sha256.length_doubleHash _ }

variable {packet : Packet} {index : Nat}

/-- What is hashed for an input is its commitment. -/
theorem preimage_eq_ok_iff {message : Bytes} :
    packet.preimage index = .ok message ↔
      ∃ committed, packet.commitment? index = some committed ∧ committed.bytes = message := by
  unfold preimage commitment?
  cases packet.inputs[index]? with
  | none => simp
  | some fields =>
    cases utxo : fields.witnessUtxo with
    | none => simp [utxo]
    | some utxo =>
      cases script : fields.witnessScript with
      | none => simp [utxo, script]
      | some script =>
        cases packet.unsignedTx.inputs[index]? with
        | none => simp [utxo, script]
        | some input =>
          simp only [bind, Option.bind_some, utxo, script, pure, Option.some.injEq,
            exists_eq_left', Except.ok.injEq]
          rfl

theorem sighash_eq_ok {committed : Commitment} (known : packet.commitment? index = some committed) :
    packet.sighash index = .ok (Sha256.doubleHash committed.bytes) := by
  rw [sighash, preimage_eq_ok_iff.mpr ⟨committed, known, rfl⟩]
  rfl

/-- Whether a packet has at some place an input of another packet. Its other inputs and their fields
are any, and so are the signatures, carried entries, sighash type and locking script that it
declares for this one. -/
structure Respends (packet : Packet) (place : Nat) (original : Packet) (index : Nat) : Prop where
  version : packet.unsignedTx.version = original.unsignedTx.version
  lockTime : packet.unsignedTx.lockTime = original.unsignedTx.lockTime
  outputs : packet.unsignedTx.outputs = original.unsignedTx.outputs
  input : packet.unsignedTx.inputs[place]? = original.unsignedTx.inputs[index]?
  fields : ∃ signatures unknown type lock, packet.inputs[place]? =
    original.inputs[index]?.map (·.redeclare signatures unknown type lock)

theorem Respends.commitment?_eq {original : Packet} {place : Nat}
    (respends : packet.Respends place original index) :
    packet.commitment? place = original.commitment? index := by
  obtain ⟨version, lockTime, outputs, input, signatures, unknown, type, lock, fields⟩ := respends
  simp only [commitment?, version, lockTime, outputs, input, fields]
  cases original.inputs[index]? with
  | none => rfl
  | some fields =>
    simp only [Option.map_some, bind, Option.bind_some, InputFields.redeclare]
    cases fields.witnessUtxo <;> rfl

/-- The message that is signed for an input commits to version and lock time, to outpoint, sequence,
declared amount and script code of the input, and to the double hash of the outputs, and to nothing
else: two inputs share a message exactly when they agree on these. The outputs are known from what
is hashed of them, since every script in memory has a length that can be written. A packet that has
the input at any place, among any other inputs, has its digest. -/
theorem preimage_commits {p q : Packet} {i j : Nat} {message message' : Bytes}
    (hashed : p.preimage i = .ok message) (hashed' : q.preimage j = .ok message') :
    p.sighash i = .ok (Sha256.doubleHash message) ∧
    (∃ committed committed', p.commitment? i = some committed ∧
      q.commitment? j = some committed' ∧ (message = message' ↔ committed = committed')) ∧
    (∀ program : Bytes, program.length = 20 →
      scriptCode ([0x00, 0x14] ++ program) = [0x76, 0xa9, 0x14] ++ program ++ [0x88, 0xac]) ∧
    (∀ script : Script,
      (∀ program : Bytes, program.length = 20 → script ≠ [0x00, 0x14] ++ program) →
      scriptCode script = script) ∧
    (∀ outputs outputs' : List TxOut, (∀ output ∈ outputs, output.script.length < 2 ^ 64) →
      outputs.flatMap TxOut.encode = outputs'.flatMap TxOut.encode → outputs = outputs') ∧
    ∀ (packet : Packet) (place : Nat), packet.Respends place p i →
      packet.sighash place = p.sighash i := by
  obtain ⟨committed, known, rfl⟩ := preimage_eq_ok_iff.mp hashed
  obtain ⟨committed', known', rfl⟩ := preimage_eq_ok_iff.mp hashed'
  refine ⟨sighash_eq_ok known, ⟨committed, committed', known, known', Commitment.bytes_inj⟩,
    fun _ => scriptCode_of_program, fun _ => scriptCode_of_ne,
    fun _ _ => TxOut.flatMap_encode_inj, fun packet place respends => ?_⟩
  rw [sighash_eq_ok known, sighash_eq_ok (respends.commitment?_eq.trans known)]

/-- A packet with one input. -/
def lone : Packet where
  unsignedTx := ⟨2, 0, [{ previous := ⟨Txid.zero, 0⟩ }], [⟨1000, [0x51]⟩]⟩
  globals := KeyMap.empty
  inputs := [{ witnessUtxo := some ⟨2000, []⟩, witnessScript := some [0x51] }]
  outputs := [KeyMap.empty]

/-- The packet with an input in front, and its own input signed and described anew. -/
def joined : Packet where
  unsignedTx :=
    { lone.unsignedTx with
      inputs := { previous := ⟨Txid.zero, 1⟩ } :: lone.unsignedTx.inputs }
  globals := KeyMap.empty
  inputs := {} :: lone.inputs.map
    (·.redeclare (KeyMap.empty.insert [2] [1]) (KeyMap.empty.insert [9] [1]) (some 1) [0x52])
  outputs := [KeyMap.empty]

theorem preimage_commits_joined :
    ∃ message, lone.preimage 0 = .ok message ∧ joined.preimage 1 = .ok message ∧
      joined.sighash 1 = lone.sighash 0 := by
  have hashed : lone.preimage 0 =
      .ok (digestPreimage lone.unsignedTx { previous := ⟨Txid.zero, 0⟩ } [0x51] 2000) := rfl
  have hashed' : joined.preimage 1 =
      .ok (digestPreimage joined.unsignedTx { previous := ⟨Txid.zero, 0⟩ } [0x51] 2000) := rfl
  have respends : joined.Respends 1 lone 0 := ⟨rfl, rfl, rfl, rfl, _, _, _, _, rfl⟩
  obtain ⟨_, ⟨committed, committed', known, known', same⟩, _, _, _, unchanged⟩ :=
    preimage_commits hashed hashed'
  rw [respends.commitment?_eq, known] at known'
  exact ⟨_, hashed, same.mpr (Option.some.inj known') ▸ hashed', unchanged joined 1 respends⟩

end Packet

end Custody
