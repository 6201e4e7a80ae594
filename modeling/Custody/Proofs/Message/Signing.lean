import Custody.Host
import Custody.Proofs.Message
import Custody.Proofs.Request.Signing
import Custody.Proofs.Text.Base64

/-! # Signed messages verify

What the host signs is verified under the signer's key, for the message that was signed, with a byte
behind the signature or without. Approvals and revocations are messages of their form. The host's
verification has an answer wherever the chain and the key have one, whatever else it is given.
-/

namespace Custody

open Secp256k1

namespace Message

variable {network : Network} {privateKey publicKey : String}

/-- Whether verification accepts what signing a message produces. -/
def Accepted (key : SecretKey) (message : String) (network : Network) : Prop :=
  Secp256k1.verify key.publicKey (digest message network)
    (Secp256k1.sign key (digest message network)) = true

theorem sign_eq {key : SecretKey} (parsed : parsePrivateKey privateKey = .ok key)
    (message : String) :
    sign message privateKey network =
      .ok (Base64.encode (signDigest (digest message network) key)) := by
  rw [sign, parsed]
  rfl

/-- The text of some bytes is verified as the bytes. -/
theorem verify_encode {key : PublicKey} (parsed : parsePublicKey publicKey = .ok key)
    (message : String) (bytes : Bytes) :
    verify publicKey message (Base64.encode bytes) network =
      verifySignature key (digest message network) bytes := by
  simp only [verify, Base64.decode?_encode, verifySignatureText, parsed]
  rfl

end Message

namespace Host

variable {chain : Chain} {network : Network} {privateKey publicKey : String}

theorem network_eq_ok_iff : Host.network chain = .ok network ↔ chain.network? = some network := by
  unfold Host.network
  cases chain.network? <;> simp

theorem signMessage_eq {key : SecretKey} (supported : chain.network? = some network)
    (parsed : parsePrivateKey privateKey = .ok key) (message : String) :
    signMessage chain message privateKey =
      .ok (Base64.encode (signDigest (Message.digest message network) key)) := by
  rw [signMessage, network_eq_ok_iff.mpr supported]
  change (Message.sign message privateKey network).mapError Error.toHost = _
  rw [Message.sign_eq parsed]
  rfl

theorem verifyMessage_eq {key : PublicKey} (supported : chain.network? = some network)
    (parsed : parsePublicKey publicKey = .ok key) (message signature : String) :
    verifyMessage chain publicKey message signature =
      .ok (Message.verify publicKey message signature network).isOk := by
  rw [verifyMessage, network_eq_ok_iff.mpr supported, parsed]
  rfl

/-- Whatever message and signature are given, only the chain and the key decide whether there is an
answer. -/
theorem exists_verifyMessage_eq_error_iff {message signature : String} :
    (∃ failure, verifyMessage chain publicKey message signature = .error failure) ↔
      chain.isBitcoinFamily = false ∨ ∃ failure, parsePublicKey publicKey = .error failure := by
  cases known : chain.network? with
  | none =>
    have refused : Host.network chain = .error (.unsupportedChain chain.displayName) := by
      rw [Host.network, known]
    simp [verifyMessage, refused, Chain.isBitcoinFamily, known, bind, Except.bind]
  | some network =>
    cases parsed : parsePublicKey publicKey with
    | error failure =>
      simp [verifyMessage, network_eq_ok_iff.mpr known, parsed, Chain.isBitcoinFamily, known, bind,
        Except.bind, Except.mapError]
    | ok key =>
      simp [verifyMessage_eq known parsed, Chain.isBitcoinFamily, known]

/-- The answer is yes exactly when the signature verifies. -/
theorem verifyMessage_eq_ok_true_iff {key : PublicKey} (supported : chain.network? = some network)
    (parsed : parsePublicKey publicKey = .ok key) {message signature : String} :
    verifyMessage chain publicKey message signature = .ok true ↔
      Message.verify publicKey message signature network = .ok () := by
  rw [verifyMessage_eq supported parsed]
  cases Message.verify publicKey message signature network <;> simp [Except.isOk, Except.toBool]

/-- A signature that the host makes is verified for its message, also with a byte behind it. -/
theorem verifyMessage_signature {key : SecretKey} (supported : chain.network? = some network)
    (published : parsePublicKey publicKey = .ok key.publicKey) {message : String}
    (accepted : Message.Accepted key message network) {behind : Bytes}
    (short : behind.length ≤ 1) :
    verifyMessage chain publicKey message
      (Base64.encode (signDigest (Message.digest message network) key ++ behind)) = .ok true := by
  rw [verifyMessage_eq_ok_true_iff supported published, Message.verify_encode published, signDigest,
    verifySignature_der_append _ short]
  exact verifySignature_signDigest (Sha256.length_doubleHash _) accepted

/-- The host signs every message, and what it signs is verified under the key's own text, as far as
signatures by the key verify: messages with a byte behind the signature or without, and approvals
and revocations as the messages of their form. Verification fails only for a chain of another family
or a text that is no public key; else the answer is yes exactly when the signature verifies. -/
theorem signedMessage_verifies :
    (∀ key : SecretKey, parsePublicKey (Hex.encode key.publicKey.bytes) = .ok key.publicKey) ∧
    (∀ chain network privateKey key publicKey, chain.network? = some network →
      parsePrivateKey privateKey = .ok key → parsePublicKey publicKey = .ok key.publicKey →
      (∀ message, ∃ der, signMessage chain message privateKey = .ok (Base64.encode der) ∧
        (Message.Accepted key message network → ∀ behind : Bytes, behind.length ≤ 1 →
          verifyMessage chain publicKey message (Base64.encode (der ++ behind)) = .ok true)) ∧
      (∀ id tail, ∃ signature, approveAccount chain id tail privateKey = .ok signature ∧
        approveTransaction chain id tail privateKey = .ok signature ∧
        (Message.Accepted key ("APPROVE:" ++ id ++ ":" ++ tail) network →
          verifyMessage chain publicKey ("APPROVE:" ++ id ++ ":" ++ tail) signature = .ok true)) ∧
      ∀ id tail, ∃ signature, revokeTransaction chain id tail privateKey = .ok signature ∧
        (Message.Accepted key ("REVOKE:" ++ id ++ ":" ++ tail) network →
          verifyMessage chain publicKey ("REVOKE:" ++ id ++ ":" ++ tail) signature = .ok true)) ∧
    ∀ chain publicKey message signature,
      ((∃ failure, verifyMessage chain publicKey message signature = .error failure) ↔
        chain.isBitcoinFamily = false ∨ ∃ failure, parsePublicKey publicKey = .error failure) ∧
      ∀ network key, chain.network? = some network → parsePublicKey publicKey = .ok key →
        (verifyMessage chain publicKey message signature = .ok true ↔
          Message.verify publicKey message signature network = .ok ()) := by
  refine ⟨fun key => parsePublicKey_encode key.publicKey, ?_, ?_⟩
  · intro chain network privateKey key publicKey supported parsed published
    have signs := signMessage_eq supported parsed
    have verifies {message : String} (accepted : Message.Accepted key message network)
        {behind : Bytes} (short : behind.length ≤ 1) :=
      verifyMessage_signature supported published accepted short
    -- An answer to a proposal is the message of its text, whose signature has nothing behind it.
    have answers (answer : Message.Answer) (id tail : String) : ∃ signature,
        signMessage chain (answer.text id tail) privateKey = .ok signature ∧
        (Message.Accepted key (answer.text id tail) network →
          verifyMessage chain publicKey (answer.text id tail) signature = .ok true) := by
      refine ⟨_, signs _, fun accepted => ?_⟩
      have alone := verifies accepted (show ([] : Bytes).length ≤ 1 from Nat.zero_le 1)
      rwa [List.append_nil] at alone
    refine ⟨fun message => ⟨_, signs message, fun accepted _ => verifies accepted⟩, ?_, ?_⟩
    · intro id tail
      obtain ⟨signature, signed, verified⟩ := answers .approves id tail
      exact ⟨signature, signed, signed, verified⟩
    · intro id tail
      exact answers .revokes id tail
  · intro chain publicKey message signature
    exact ⟨exists_verifyMessage_eq_error_iff,
      fun network key supported parsed => verifyMessage_eq_ok_true_iff supported parsed⟩

private theorem accepted_approval :
    Message.Accepted Request.unitKey "APPROVE:id:hash" .bitcoin := by
  unfold Message.Accepted
  decide +kernel

/-- The approval of a transaction verifies, as does the message of its text with a byte behind the
signature. -/
theorem signedMessage_verifies_approval :
    Chain.bitcoin.network? = some .bitcoin ∧
      parsePrivateKey (Hex.encode Request.unitKey.bytes) = .ok Request.unitKey ∧
      (∃ signature,
        approveTransaction .bitcoin "id" "hash" (Hex.encode Request.unitKey.bytes) =
          .ok signature ∧
        verifyMessage .bitcoin (Hex.encode Request.unitKey.publicKey.bytes) "APPROVE:id:hash"
          signature = .ok true) ∧
      ∃ der,
        signMessage .bitcoin "APPROVE:id:hash" (Hex.encode Request.unitKey.bytes) =
          .ok (Base64.encode der) ∧
        verifyMessage .bitcoin (Hex.encode Request.unitKey.publicKey.bytes) "APPROVE:id:hash"
          (Base64.encode (der ++ [0x81])) = .ok true := by
  have parsed := parsePrivateKey_encode Request.unitKey
  obtain ⟨published, verifies, _⟩ := signedMessage_verifies
  obtain ⟨signs, approves, _⟩ :=
    verifies .bitcoin .bitcoin _ _ _ rfl parsed (published Request.unitKey)
  obtain ⟨signature, _, signed, verified⟩ := approves "id" "hash"
  obtain ⟨der, signed', verified'⟩ := signs "APPROVE:id:hash"
  exact ⟨rfl, parsed, ⟨signature, signed, verified accepted_approval⟩, der, signed',
    verified' accepted_approval [0x81] (by decide)⟩

end Host

end Custody
