import Custody.Proofs.Packet.Digest
import Custody.Proofs.Packet.Signing
import Custody.Proofs.Request

/-! # Built packets can be signed

Whatever is built can be signed: each input has the digest of its own coin, the packet is read back
from its text before and after signing, and the signer is the only one who has signed then.
-/

namespace Custody.Request

open Secp256k1

variable {request : Request} {packet : Packet} {clock : UInt64}

/-- The script code that a signature for a coin commits to: the witness script, or what pays to the
hash of the public key. -/
def codeOf (coin : Coin) : Script :=
  if coin.script.length = 33 then
    [0x76, 0xa9, 0x14] ++ Ripemd160.hash160 coin.script ++ [0x88, 0xac]
  else coin.script

private theorem scriptCode_witnessScript {coin : Coin} (spendable : coin.Spendable)
    (network : Network) : scriptCode (coin.spend network).witnessScript = codeOf coin := by
  by_cases key : coin.script.length = 33
  · have lock : coin.lock = [0x00, 0x14] ++ Ripemd160.hash160 coin.script := by
      rw [Coin.lock, if_pos key]
      rfl
    simp only [Coin.spend, codeOf, key, ↓reduceIte, lock,
      scriptCode_of_program (Ripemd160.length_hash160 coin.script)]
  · have long : 100 < coin.script.length :=
      spendable.shaped.resolve_left fun single => key single.1
    have other : ∀ program : Bytes, program.length = 20 →
        coin.script ≠ [0x00, 0x14] ++ program := by
      intro program size same
      rw [same, List.length_append, size] at long
      exact absurd long (by decide)
    simp only [Coin.spend, codeOf, key, ↓reduceIte, scriptCode_of_ne other]

/-- The digest of an input is that of its coin. -/
theorem sighash_packet (admissible : request.Admissible) {index : Nat} {coin : Coin}
    (known : request.coins[index]? = some coin) :
    request.packet.unsignedTx.inputs[index]? = some coin.input ∧
      request.packet.sighash index = .ok (Bip143.digest sighashType request.packet.unsignedTx index
        coin.input (codeOf coin) coin.satoshi) := by
  have spendable := admissible.coins coin (List.mem_of_getElem? known)
  have fields : request.packet.inputs[index]? =
      some (fieldsOf coin.lock coin (coin.spend request.network)) := by
    rw [Request.packet, List.getElem?_map, known]
    rfl
  have input : request.packet.unsignedTx.inputs[index]? = some coin.input := by
    rw [Request.packet, transaction, List.getElem?_map, known]
    rfl
  refine ⟨input, ?_⟩
  rw [← scriptCode_witnessScript spendable request.network, ← Bip143.doubleHash_digestPreimage]
  simp only [Packet.sighash, Packet.preimage, fields, fieldsOf, input]
  rfl

theorem signable_packet (admissible : request.Admissible) : request.packet.Signable := by
  intro index below
  rw [Request.packet, List.length_map] at below
  exact ⟨_, (sighash_packet admissible (List.getElem?_eq_getElem below)).2⟩

/-- What the packet says of its inputs can be read if the scripts of the coins can. -/
private theorem fits_fields {coin : Coin} (fits : Packet.Fits coin.script) (network : Network)
    {entry : Bytes × Bytes}
    (member : entry ∈ (fieldsOf coin.lock coin (coin.spend network)).toMap.entries) :
    entry.1 ≠ [] ∧ Packet.Fits entry.1 ∧ Packet.Fits entry.2 := by
  have lock : coin.lock.length ≤ 34 := by
    rw [coin.lock_eq, Script.length_payToWitness]
    rcases coin.length_program with size | size <;> omega
  obtain ⟨⟨keyType, key⟩, value⟩ := InputFields.mem_entries_toMap rfl rfl member
  refine ⟨by rw [key]; exact List.cons_ne_nil _ _, ?_, ?_⟩
  · rw [key]
    exact Packet.fits_of_length_le (by decide : 1 ≤ 3999991)
  · rcases value with utxo | sighash | script
    · obtain same := Option.some.inj utxo
      rw [← same]
      refine Packet.fits_of_length_le ?_
      have size := CompactSize.size_le coin.lock.length
      simp only [TxOut.length_encode]
      omega
    · obtain same := Option.some.inj sighash
      rw [← same]
      exact Packet.fits_of_length_le (by decide)
    · obtain same := Option.some.inj script
      rw [← same, Coin.spend]
      dsimp only
      split
      · exact Packet.fits_of_length_le (by omega)
      · exact fits

/-- Nothing is carried along and nobody has signed. -/
theorem blank_of_mem_inputs {fields : InputFields}
    (member : fields ∈ request.packet.inputs) :
    fields.unknown = KeyMap.empty ∧ fields.partialSignatures = KeyMap.empty := by
  obtain ⟨_, _, rfl⟩ := List.mem_map.mp member
  exact ⟨rfl, rfl⟩

/-- A built packet can be read back if the scripts of the coins can. -/
theorem wellFormed_packet (admissible : request.Admissible)
    (fits : ∀ coin ∈ request.coins, Packet.Fits coin.script) : request.packet.WellFormed := by
  have size := admissible.size
  have weight := admissible.weight
  have encode : Packet.Fits request.transaction.encode :=
    Packet.fits_of_length_le (by omega)
  have inputs : ∀ fields ∈ request.packet.inputs, ∀ entry ∈ fields.toMap.entries,
      entry.1 ≠ [] ∧ Packet.Fits entry.1 ∧ Packet.Fits entry.2 := by
    intro fields member entry held
    obtain ⟨coin, carried, rfl⟩ := List.mem_map.mp member
    exact fits_fields (fits coin carried) request.network held
  have empty : ∀ map ∈ request.packet.outputs, map = KeyMap.empty := by
    intro map member
    obtain ⟨_, _, rfl⟩ := List.mem_map.mp member
    rfl
  constructor
  case unsigned => exact request.transaction_unsigned
  case inputMaps => simp only [Request.packet, transaction, List.length_map]
  case outputMaps => simp only [Request.packet, List.length_map]
  case keyed =>
    refine Packet.forall_mem_maps.mpr ⟨?_, fun fields member entry held =>
      (inputs fields member entry held).1, fun map member entry held => ?_⟩
    · exact List.forall_mem_singleton.mpr (by decide : Packet.transactionKey ≠ [])
    · rw [empty map member] at held
      cases held
  case transaction => rfl
  case carried =>
    intro fields member entry held
    rw [(blank_of_mem_inputs member).1] at held
    cases held
  case signers =>
    intro fields member entry held
    rw [(blank_of_mem_inputs member).2] at held
    cases held
  case signatures =>
    intro fields member entry held
    rw [(blank_of_mem_inputs member).2] at held
    cases held
  case fits =>
    refine Packet.forall_mem_maps.mpr ⟨?_, fun fields member entry held =>
      (inputs fields member entry held).2, fun map member entry held => ?_⟩
    · exact List.forall_mem_singleton.mpr
        ⟨(by decide : Packet.Fits Packet.transactionKey), encode⟩
    · rw [empty map member] at held
      cases held

/-- Every built packet can be signed by every key, as far as signatures by the key verify. Its
digests are those of its coins; it passes through its text with no signature on it; and once signed
it passes through its text with signatures by the signer, and by nobody else. -/
theorem build_sign (fits : ∀ coin ∈ request.coins, Packet.Fits coin.script)
    (built : request.build clock = .ok packet) (key : SecretKey)
    (accepted : ∀ index digest, packet.sighash index = .ok digest →
      verify key.publicKey digest (Secp256k1.sign key digest) = true) :
    packet.inputs.length = request.coins.length ∧
    (∀ index coin, request.coins[index]? = some coin → ∃ input,
      packet.unsignedTx.inputs[index]? = some input ∧
      packet.sighash index = .ok (Bip143.digest 0x81 packet.unsignedTx index input
        (if coin.script.length = 33 then
          [0x76, 0xa9, 0x14] ++ Ripemd160.hash160 coin.script ++ [0x88, 0xac]
        else coin.script) coin.satoshi)) ∧
    (∃ hex, packet.toHex = .ok hex ∧ ∀ text, Packet.isTextSignedBy hex text = false) ∧
    ∃ signed hex, packet.sign key = (signed, .ok ()) ∧ signed.toHex = .ok hex ∧
      Packet.isTextSignedBy hex (Hex.encode key.publicKey.bytes) = true ∧
      ∀ text, Packet.isTextSignedBy hex text = true ↔
        parsePublicKey text = .ok key.publicKey := by
  obtain ⟨admissible, rfl⟩ := build_eq_ok_iff.mp built
  have wellFormed := wellFormed_packet admissible fits
  have signable := signable_packet admissible
  have unsigned (other : PublicKey) : request.packet.isSignedBy other = false :=
    Packet.isSignedBy_eq_false (fun _ member => (blank_of_mem_inputs member).2) other
  have spends : request.packet.inputs ≠ [] := by
    rw [Request.packet, ne_eq, List.map_eq_nil_iff]
    exact admissible.spends
  have signer := signable.isSignedBy_signedBy spends accepted
  refine ⟨List.length_map _, fun index coin known => ⟨_, sighash_packet admissible known⟩, ?_, ?_⟩
  · obtain ⟨hex, written, checked⟩ := wellFormed.exists_toHex
    refine ⟨hex, written, fun text => ?_⟩
    rw [Bool.eq_false_iff, ne_eq, checked]
    rintro ⟨other, _, held⟩
    rw [unsigned other] at held
    cases held
  · obtain ⟨hex, written, checked⟩ := (wellFormed.signedBy key).exists_toHex
    have only (text : String) : Packet.isTextSignedBy hex text = true ↔
        parsePublicKey text = .ok key.publicKey := by
      rw [checked]
      constructor
      · rintro ⟨other, parsed, held⟩
        by_cases same : other = key.publicKey
        · rw [parsed, same]
        · rw [Packet.isSignedBy_signedBy_of_ne same, unsigned other] at held
          cases held
      · intro parsed
        exact ⟨_, parsed, signer⟩
    exact ⟨_, hex, signable.sign_eq key, written, (only _).mpr (parsePublicKey_encode _), only⟩

/-- The secret key of the generator. -/
def unitKey : SecretKey :=
  ⟨1, by decide, by decide +kernel⟩

/-- The digests of the inputs of `settlement`. -/
def settlementDigests : List Bytes :=
  [0x5c296a322317b3208578dc31011d58a2260296aef2b7ec84ffab9e7c14aec7a3,
    0x1298130af0d087597592dd34910880ad97bdde62c98e59680a73bf2c92f57f86].map (Bytes.ofNatBE 32)

private theorem sighash_settlement :
    [settlement.packet.sighash 0, settlement.packet.sighash 1] = settlementDigests.map .ok := by
  decide +kernel

private theorem verify_settlementDigests : ∀ digest ∈ settlementDigests,
    verify unitKey.publicKey digest (Secp256k1.sign unitKey digest) = true := by
  decide +kernel

/-- Signatures by the key of the generator on `settlement` verify. -/
theorem accepted_settlement (index : Nat) (digest : Bytes)
    (known : settlement.packet.sighash index = .ok digest) :
    verify unitKey.publicKey digest (Secp256k1.sign unitKey digest) = true := by
  have listed : .ok digest ∈ [settlement.packet.sighash 0, settlement.packet.sighash 1] := by
    match index with
    | 0 | 1 => simp [known]
    | _ + 2 => cases known
  rw [sighash_settlement, List.mem_map_of_injective fun _ _ => Except.ok.inj] at listed
  exact verify_settlementDigests digest listed

theorem fits_settlement : ∀ coin ∈ settlement.coins, Packet.Fits coin.script :=
  List.forall_mem_cons.mpr ⟨Packet.fits_of_length_le (by decide),
    List.forall_mem_singleton.mpr (Packet.fits_of_length_le (by decide))⟩

theorem build_sign_settlement :
    (∀ coin ∈ settlement.coins, Packet.Fits coin.script) ∧
      settlement.build 1700000000 = .ok settlement.packet ∧
      (∃ hex, settlement.packet.toHex = .ok hex ∧
        Packet.isTextSignedBy hex (Hex.encode unitKey.publicKey.bytes) = false) ∧
      ∃ signed hex, settlement.packet.sign unitKey = (signed, .ok ()) ∧ signed.toHex = .ok hex ∧
        Packet.isTextSignedBy hex (Hex.encode unitKey.publicKey.bytes) = true := by
  have built := build_settlement 1700000000
  obtain ⟨_, _, ⟨hex, written, unsigned⟩, signed, hex', signs, written', checked, _⟩ :=
    build_sign fits_settlement built unitKey accepted_settlement
  exact ⟨fits_settlement, built, ⟨hex, written, unsigned _⟩, signed, hex', signs, written', checked⟩

end Custody.Request
