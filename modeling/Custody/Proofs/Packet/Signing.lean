import Custody.Proofs.Packet.Write
import Custody.Proofs.Signing

/-! # Signing changes nothing but signatures

A signature on one input changes no digest of the packet, so one pass signs every input that has a
digest. The packet stays well-formed, the signer has signed it, and anyone else has signed it
exactly when they had before. Texts of well-formed packets are checked as the packets themselves.
-/

namespace Custody.Packet

open Secp256k1

variable {packet : Packet}

section Sign

variable {key : SecretKey}

/-- The packet with signatures by a key on `count` inputs from `index` on. -/
def signedFrom (packet : Packet) (key : SecretKey) (index count : Nat) : Packet :=
  { packet with
    inputs := packet.inputs.mapIdx fun place fields =>
      if index ≤ place ∧ place < index + count then
        fields.sign key.publicKey.bytes (packet.signatureBy key place)
      else fields }

/-- The packet with signatures by a key on all inputs. -/
def signedBy (packet : Packet) (key : SecretKey) : Packet :=
  packet.signedFrom key 0 packet.inputs.length

theorem bare_signedFrom (packet : Packet) (key : SecretKey) (index count : Nat) :
    (packet.signedFrom key index count).bare = packet.bare := by
  have inputs : (packet.signedFrom key index count).inputs.map InputFields.bare =
      packet.inputs.map InputFields.bare := by
    apply List.ext_getElem?
    intro place
    simp only [signedFrom, List.getElem?_map, List.getElem?_mapIdx, Option.map_map]
    congr 1
    funext fields
    simp only [Function.comp_apply]
    split <;> rfl
  exact congrArg (fun fields => { packet with inputs := fields }) inputs

/-- Signing some inputs leaves signatures by the signer on them, and all others as they are. -/
theorem partialSignature?_signedFrom (packet : Packet) (key : SecretKey) (first count index : Nat)
    (publicKey : Bytes) :
    (packet.signedFrom key first count).partialSignature? index publicKey =
      if publicKey = key.publicKey.bytes ∧ index < packet.inputs.length ∧
          first ≤ index ∧ index < first + count then
        some (packet.signatureBy key index)
      else packet.partialSignature? index publicKey := by
  simp only [partialSignature?, signedFrom, List.getElem?_mapIdx]
  cases known : packet.inputs[index]? with
  | none =>
    have above := List.getElem?_eq_none_iff.mp known
    simp [Nat.not_lt.mpr above]
  | some fields =>
    obtain ⟨below, _⟩ := List.getElem?_eq_some_iff.mp known
    by_cases range : first ≤ index ∧ index < first + count
    · simp [range, below, InputFields.sign, KeyMap.get?_insert]
    · simp [range]

/-- The log of signing leaves signatures by the signer on the inputs that it comes to. -/
private theorem last?_signLog (packet : Packet) (key : SecretKey) (index : Nat)
    (publicKey : Bytes) :
    last? (packet.signLog key) index publicKey =
      if publicKey = key.publicKey.bytes ∧ index ∈ packet.digested then
        some (packet.signatureBy key index)
      else none := by
  split
  · rename_i written
    obtain ⟨rfl, reached⟩ := written
    exact last?_eq_some (List.mem_map_of_mem reached) agrees_signLog
  · rename_i unwritten
    rw [Option.eq_none_iff_forall_ne_some]
    intro signature found
    obtain ⟨place, reached, same⟩ := List.mem_map.mp (mem_of_last?_eq_some found)
    obtain ⟨rfl, rfl, rfl⟩ := Write.mk.inj same
    exact unwritten ⟨rfl, reached⟩

/-- Signing leaves signatures on the inputs in front of the first that has no digest. -/
theorem replay_signLog {stop : Nat} (reached : packet.digested = List.range stop)
    (inRange : stop ≤ packet.inputs.length) (key : SecretKey) :
    packet.replay (packet.signLog key) = packet.signedFrom key 0 stop := by
  refine eq_of_bare ((packet.bare_replay _).trans (packet.bare_signedFrom ..).symm) ?_
  intro index publicKey
  have range : (index < packet.inputs.length ∧ 0 ≤ index ∧ index < 0 + stop) ↔ index < stop := by
    omega
  rw [partialSignature?_replay (packet.signLog_inRange key), last?_signLog,
    partialSignature?_signedFrom]
  simp only [reached, List.mem_range, range]
  split <;> rfl

theorem Signable.sign_eq (signable : packet.Signable) (key : SecretKey) :
    packet.sign key = (packet.signedBy key, .ok ()) := by
  rw [Packet.sign_eq, signVerdict_eq_ok_iff.mpr signable,
    replay_signLog signable.digested_eq (Nat.le_refl _), signedBy]

/-- Signing that fails leaves signatures on the inputs in front of the first that has no digest, and
fails as that digest does. -/
theorem sign_eq_error {left : Packet} {failure : Error}
    (failed : packet.sign key = (left, .error failure)) :
    ∃ stop < packet.inputs.length, packet.sighash stop = .error failure ∧
      (∀ index < stop, ∃ digest, packet.sighash index = .ok digest) ∧
      left = packet.signedFrom key 0 stop := by
  rw [Packet.sign_eq] at failed
  obtain ⟨rfl, verdict⟩ := Prod.mk.inj failed
  obtain ⟨stop, below, stops, digests, reached⟩ := signVerdict_error verdict
  exact ⟨stop, below, stops, digests, replay_signLog reached (Nat.le_of_lt below) key⟩

theorem getElem?_signedBy (packet : Packet) (key : SecretKey) (index : Nat) :
    (packet.signedBy key).inputs[index]? =
      packet.inputs[index]?.map
        (·.sign key.publicKey.bytes (packet.signatureBy key index)) := by
  simp only [signedBy, signedFrom, List.getElem?_mapIdx]
  cases known : packet.inputs[index]? with
  | none => rfl
  | some fields =>
    obtain ⟨below, _⟩ := List.getElem?_eq_some_iff.mp known
    simp [below]

@[simp] theorem length_inputs_signedBy (packet : Packet) (key : SecretKey) :
    (packet.signedBy key).inputs.length = packet.inputs.length := by
  simp only [signedBy, signedFrom, List.length_mapIdx]

theorem bare_signedBy (packet : Packet) (key : SecretKey) :
    (packet.signedBy key).bare = packet.bare :=
  packet.bare_signedFrom key 0 packet.inputs.length

theorem sighash_signedBy (packet : Packet) (key : SecretKey) (index : Nat) :
    (packet.signedBy key).sighash index = packet.sighash index :=
  sighash_of_bare (packet.bare_signedBy key) index

/-- Signing leaves a signature by the signer, and those by others as they are. -/
theorem partialSignature?_signedBy (packet : Packet) (key : SecretKey) (index : Nat)
    (publicKey : Bytes) :
    (packet.signedBy key).partialSignature? index publicKey =
      if publicKey = key.publicKey.bytes ∧ index < packet.inputs.length then
        some (packet.signatureBy key index)
      else packet.partialSignature? index publicKey := by
  rw [signedBy, partialSignature?_signedFrom, Nat.zero_add]
  simp only [Nat.zero_le, true_and, and_self]

/-- A compressed key is an encoding of its point. -/
theorem decode?_bytes (key : PublicKey) : Point.decode? key.bytes = some key.point := by
  have short : (Bytes.ofNatBE 32 key.point.x).length ≠ 64 := by
    rw [Bytes.length_ofNatBE]
    decide
  have decodes := key.decodes
  unfold PublicKey.bytes
  rw [Point.compress] at decodes ⊢
  rw [Point.decode?, if_neg short, decodes]

/-- What a key leaves can be read as its signature. -/
theorem readableSignature_signatureBy (packet : Packet) (key : SecretKey) (index : Nat) :
    ReadableSignature key.publicKey.bytes (packet.signatureBy key index) where
  signer := by rw [decode?_bytes]; rfl
  signed := Signature.der_ne_nil _
  fits := fits_of_length_le (Nat.le_trans (Signature.length_der_le _) (by decide))

/-- A signed packet is still one that is read from some bytes. -/
theorem WellFormed.signedBy (wellFormed : packet.WellFormed) (key : SecretKey) :
    (packet.signedBy key).WellFormed := by
  obtain ⟨bare, present⟩ := wellFormed_iff_bare.mp wellFormed
  refine wellFormed_iff_bare.mpr ⟨(packet.bare_signedBy key).symm ▸ bare, ?_⟩
  intro index publicKey signature found
  rw [partialSignature?_signedBy] at found
  split at found
  · rename_i here
    obtain rfl := Option.some.inj found
    rw [here.1]
    exact packet.readableSignature_signatureBy key index
  · exact present index publicKey signature found

end Sign

section Verify

theorem length_of_sighash {index : Nat} {digest : Bytes}
    (known : packet.sighash index = .ok digest) : digest.length = 32 := by
  unfold sighash at known
  cases found : packet.preimage index with
  | error failure =>
    rw [found] at known
    cases known
  | ok preimage =>
    rw [found] at known
    obtain rfl := Except.ok.inj known
    exact Sha256.length_doubleHash preimage

theorem verifyInput_eq_ok_iff {key : PublicKey} {index : Nat} :
    packet.verifyInput key index = .ok () ↔
      ∃ signature digest, packet.partialSignature? index key.bytes = some signature ∧
        packet.sighash index = .ok digest ∧ verifySignature key digest signature = .ok () := by
  unfold verifyInput
  cases packet.partialSignature? index key.bytes with
  | none => simp [throw, throwThe, MonadExceptOf.throw]
  | some signature => simp [Except.bind_eq_ok_iff]

/-- A packet is signed by a key if it has inputs and the key's signatures on all of them verify. -/
theorem isSignedBy_eq_true_iff {key : PublicKey} :
    packet.isSignedBy key = true ↔
      packet.inputs ≠ [] ∧
        ∀ index < packet.inputs.length, packet.verifyInput key index = .ok () := by
  have verified : packet.isSignedBy key = true ↔ packet.verifySignatures key = .ok () := by
    unfold isSignedBy
    cases packet.verifySignatures key <;> simp [Except.isOk, Except.toBool]
  rw [verified]
  simp only [verifySignatures, Except.check_eq_ok_iff, Except.forM_eq_ok_iff, List.mem_range,
    List.isEmpty_iff, ne_eq]

/-- A packet without signatures is signed by nobody. -/
theorem isSignedBy_eq_false (blank : ∀ fields ∈ packet.inputs,
    fields.partialSignatures = KeyMap.empty) (key : PublicKey) : packet.isSignedBy key = false := by
  rw [Bool.eq_false_iff, ne_eq, isSignedBy_eq_true_iff]
  rintro ⟨spends, verified⟩
  obtain ⟨first, inputs, same⟩ := List.exists_cons_of_ne_nil spends
  have missing := packet.partialSignature?_eq_none blank 0 key.bytes
  have passed := verified 0 (by rw [same]; exact Nat.succ_pos _)
  obtain ⟨signature, _, found, _⟩ := verifyInput_eq_ok_iff.mp passed
  rw [missing] at found
  cases found

variable {key : SecretKey}

/-- Who else has signed is not changed by signing. -/
theorem isSignedBy_signedBy_of_ne {other : PublicKey} (differ : other ≠ key.publicKey) :
    (packet.signedBy key).isSignedBy other = packet.isSignedBy other := by
  have apart : other.bytes ≠ key.publicKey.bytes := mt PublicKey.bytes_inj.mp differ
  have same (index : Nat) :
      (packet.signedBy key).verifyInput other index = packet.verifyInput other index := by
    simp only [verifyInput, partialSignature?_signedBy, sighash_signedBy, apart, false_and,
      ↓reduceIte]
  have filled : (packet.signedBy key).inputs ≠ [] ↔ packet.inputs ≠ [] := by
    rw [← List.length_pos_iff, ← List.length_pos_iff, length_inputs_signedBy]
  rw [Bool.eq_iff_iff, isSignedBy_eq_true_iff, isSignedBy_eq_true_iff, filled,
    length_inputs_signedBy]
  simp only [same]

/-- A packet is signed by the key that signs it, if signatures by the key verify. -/
theorem Signable.isSignedBy_signedBy (signable : packet.Signable) (spends : packet.inputs ≠ [])
    (accepted : ∀ index digest, packet.sighash index = .ok digest →
      verify key.publicKey digest (Secp256k1.sign key digest) = true) :
    (packet.signedBy key).isSignedBy key.publicKey = true := by
  rw [isSignedBy_eq_true_iff, length_inputs_signedBy]
  refine ⟨?_, fun index below => ?_⟩
  · rw [← List.length_pos_iff, length_inputs_signedBy]
    exact List.length_pos_iff.mpr spends
  · obtain ⟨digest, known⟩ := signable index below
    have signature : packet.signatureBy key index = signDigest digest key := by
      rw [signatureBy, known]
      rfl
    have found : (packet.signedBy key).partialSignature? index key.publicKey.bytes =
        some (signDigest digest key) := by
      rw [partialSignature?_signedBy, if_pos ⟨rfl, below⟩, signature]
    have verified := verifySignature_signDigest (length_of_sighash known)
      (accepted index digest known)
    refine verifyInput_eq_ok_iff.mpr ⟨_, digest, found, ?_, verified⟩
    rw [sighash_signedBy, known]

theorem WellFormed.toHex (wellFormed : packet.WellFormed) :
    packet.toHex = .ok (Hex.encode packet.serialize) := by
  rw [Packet.toHex, wellFormed.marshal]
  rfl

/-- The text of a well-formed packet is checked as the packet. -/
theorem WellFormed.isTextSignedBy_encode (wellFormed : packet.WellFormed) (text : String) :
    isTextSignedBy (Hex.encode packet.serialize) text =
      match parsePublicKey text with
      | .ok key => packet.isSignedBy key
      | .error _ => false := by
  simp only [isTextSignedBy, Hex.decode_encode, wellFormed.parse_serialize]
  cases parsePublicKey text <;> rfl

/-- The text of a well-formed packet is signed by whom the packet is. -/
theorem WellFormed.exists_toHex (wellFormed : packet.WellFormed) :
    ∃ hex, packet.toHex = .ok hex ∧ ∀ text,
      isTextSignedBy hex text = true ↔
        ∃ key, parsePublicKey text = .ok key ∧ packet.isSignedBy key = true := by
  refine ⟨_, wellFormed.toHex, fun text => ?_⟩
  rw [wellFormed.isTextSignedBy_encode]
  cases parsePublicKey text with
  | error failure => simp
  | ok key => simp

end Verify

end Custody.Packet
