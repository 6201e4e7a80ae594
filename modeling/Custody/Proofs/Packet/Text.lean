import Custody.Host
import Custody.Proofs.Packet.Transport
import Custody.Proofs.Request.Signing

/-! # Signing packets in texts

A party gets a packet as a text, signs it and passes it on as hexadecimal text. That succeeds
exactly when the text is one of a packet, the key is one and every input has a digest. What is
passed on is the packet with the party's signatures, and nothing else has changed, so what the other
parties have signed stays signed.
-/

namespace Custody.Packet

open Secp256k1

variable {packet : Packet} {raw privateKey result : String}

/-- A packet that is signed and written was one whose inputs all have digests, and is written as the
signed packet. -/
private theorem sign_toHex_eq_ok_iff (wellFormed : packet.WellFormed) (key : SecretKey) :
    (∃ done, (packet.sign key).2 = .ok done ∧ (packet.sign key).1.toHex = .ok result) ↔
      packet.Signable ∧ Hex.encode (packet.signedBy key).serialize = result := by
  have verdict : (packet.sign key).2 = .ok () ↔ packet.Signable := by
    rw [sign_eq, signVerdict_eq_ok_iff]
  have hex (signable : packet.Signable) :
      (packet.sign key).1.toHex = .ok (Hex.encode (packet.signedBy key).serialize) := by
    rw [signable.sign_eq, (wellFormed.signedBy key).toHex]
  constructor
  · rintro ⟨⟨⟩, signed, written⟩
    have signable := verdict.mp signed
    rw [hex signable] at written
    exact ⟨signable, Except.ok.inj written⟩
  · rintro ⟨signable, rfl⟩
    exact ⟨(), verdict.mpr signable, hex signable⟩

/-- A text is signed if it is one of a packet whose inputs all have digests; the result is the text
of the signed packet. -/
theorem signText_eq_ok_iff :
    signText raw privateKey = .ok result ↔
      ∃ packet key, decode (Bytes.ofText raw) = .ok packet ∧
        parsePrivateKey privateKey = .ok key ∧ packet.Signable ∧
        Hex.encode (packet.signedBy key).serialize = result := by
  simp only [signText, Except.bind_eq_ok_iff, Except.mapError_eq_ok_iff]
  constructor
  · rintro ⟨packet, decoded, key, parsed, signed⟩
    exact ⟨packet, key, decoded, parsed,
      (sign_toHex_eq_ok_iff (wellFormed_of_decode decoded) key).mp signed⟩
  · rintro ⟨packet, key, decoded, parsed, signed⟩
    exact ⟨packet, decoded, key, parsed,
      (sign_toHex_eq_ok_iff (wellFormed_of_decode decoded) key).mpr signed⟩

/-- A text is signed exactly when it is one of a packet, the key is the text of a key and every
input has a digest, whatever the network. The result is the hexadecimal text of the packet with the
key's signatures on all inputs and no other change. Who else has signed stays as it was; the signer
has signed, if there are inputs and signatures by the key verify. -/
theorem signText_exact (raw privateKey : String) :
    ((∃ result, signText raw privateKey = .ok result) ↔
      ∃ packet key, decode (Bytes.ofText raw) = .ok packet ∧
        parsePrivateKey privateKey = .ok key ∧
        ∀ index < packet.inputs.length, ∃ digest, packet.sighash index = .ok digest) ∧
    (∀ chain network, Host.network chain = .ok network →
      Host.signTransaction chain raw privateKey =
        (signText raw privateKey).mapError Error.toHost) ∧
    ∀ packet key result, decode (Bytes.ofText raw) = .ok packet →
      parsePrivateKey privateKey = .ok key → signText raw privateKey = .ok result →
      ∃ signed : Packet, result = Hex.encode signed.serialize ∧
        parse signed.serialize = .ok signed ∧ signed.unsignedTx = packet.unsignedTx ∧
        signed.globals = packet.globals ∧ signed.outputs = packet.outputs ∧
        signed.inputs.length = packet.inputs.length ∧
        (∀ (index : Nat) (fields : InputFields), packet.inputs[index]? = some fields →
          ∃ digest, packet.sighash index = .ok digest ∧
            signed.inputs[index]? = some { fields with
              partialSignatures :=
                fields.partialSignatures.insert key.publicKey.bytes (signDigest digest key) }) ∧
        (∀ text other, parsePublicKey text = .ok other → other ≠ key.publicKey →
          isTextSignedBy result text = isTextSignedBy (Hex.encode packet.serialize) text) ∧
        ((∀ index digest, packet.sighash index = .ok digest →
            verify key.publicKey digest (Secp256k1.sign key digest) = true) →
          ∀ text, parsePublicKey text = .ok key.publicKey →
            (isTextSignedBy result text = true ↔ packet.inputs ≠ [])) := by
  refine ⟨?_, ?_, ?_⟩
  · constructor
    · rintro ⟨result, signed⟩
      obtain ⟨packet, key, decoded, parsed, signable, _⟩ := signText_eq_ok_iff.mp signed
      exact ⟨packet, key, decoded, parsed, signable⟩
    · rintro ⟨packet, key, decoded, parsed, signable⟩
      exact ⟨_, signText_eq_ok_iff.mpr ⟨packet, key, decoded, parsed, signable, rfl⟩⟩
  · intro chain network supported
    rw [Host.signTransaction, supported]
    rfl
  · intro packet key result decoded parsed signed
    obtain ⟨packet', key', decoded', parsed', signable, rfl⟩ := signText_eq_ok_iff.mp signed
    obtain rfl : packet' = packet := Except.ok.inj (decoded'.symm.trans decoded)
    obtain rfl : key' = key := Except.ok.inj (parsed'.symm.trans parsed)
    have wellFormed := wellFormed_of_decode decoded
    refine ⟨packet'.signedBy key', rfl, (wellFormed.signedBy key').parse_serialize, rfl, rfl, rfl,
      packet'.length_inputs_signedBy key', ?_, ?_, ?_⟩
    · intro index fields found
      obtain ⟨digest, known⟩ := signable index (List.getElem?_eq_some_iff.mp found).1
      refine ⟨digest, known, ?_⟩
      rw [getElem?_signedBy, found, signatureBy, known]
      rfl
    · intro text other parsedOther differ
      simp only [(wellFormed.signedBy key').isTextSignedBy_encode,
        wellFormed.isTextSignedBy_encode, parsedOther, isSignedBy_signedBy_of_ne differ]
    · intro accepted text parsedSigner
      simp only [(wellFormed.signedBy key').isTextSignedBy_encode, parsedSigner]
      refine ⟨fun held => ?_, fun spends => signable.isSignedBy_signedBy spends accepted⟩
      have filled := (isSignedBy_eq_true_iff.mp held).1
      rwa [← List.length_pos_iff, length_inputs_signedBy, List.length_pos_iff] at filled

theorem signText_exact_settlement :
    ∃ result,
      signText (Hex.encode Request.settlement.packet.serialize) (Hex.encode Request.unitKey.bytes) =
        .ok result ∧
      isTextSignedBy result (Hex.encode Request.unitKey.publicKey.bytes) = true := by
  have wellFormed := Request.wellFormed_packet Request.admissible_settlement Request.fits_settlement
  have decoded := (decode_encode _).trans wellFormed.parse_serialize
  have parsed := parsePrivateKey_encode Request.unitKey
  obtain ⟨success, _, exact⟩ := signText_exact (Hex.encode Request.settlement.packet.serialize)
    (Hex.encode Request.unitKey.bytes)
  obtain ⟨result, signed⟩ := success.mpr
    ⟨_, _, decoded, parsed, Request.signable_packet Request.admissible_settlement⟩
  obtain ⟨_, _, _, _, _, _, _, _, _, checked⟩ := exact _ _ result decoded parsed signed
  have signer := parsePublicKey_encode Request.unitKey.publicKey
  exact ⟨result, signed, (checked Request.accepted_settlement _ signer).mpr (List.cons_ne_nil _ _)⟩

end Custody.Packet
