import Custody.Proofs.Except
import Custody.Proofs.Secp256k1.Signature
import Custody.Proofs.Text.Hex
import Custody.Signing

/-! # Keys and signatures are read exactly

The texts of keys are read as the keys. A signature is read from its DER form, alone or in front of
a single byte, and comes out normalized. So a signature and its opposite, whose second scalars add
up to the group order, are verified alike, in all four spellings.
-/

namespace Custody

open Secp256k1

section Keys

theorem parsePublicKey_encode (key : PublicKey) :
    parsePublicKey (Hex.encode key.bytes) = .ok key := by
  simp [parsePublicKey, PublicKey.parse, Hex.decode_encode]

theorem parsePrivateKey_encode (key : SecretKey) :
    parsePrivateKey (Hex.encode key.bytes) = .ok key := by
  have fits : key.scalar < 256 ^ 32 := Nat.lt_trans key.below (by decide)
  have value : Bytes.toNatBE key.bytes = key.scalar := Bytes.toNatBE_ofNatBE fits
  have read : SecretKey.ofBytes? key.bytes = some key := by
    have range : key.bytes.length = 32 ∧ 0 < key.scalar ∧ key.scalar < order :=
      ⟨Bytes.length_ofNatBE 32 _, key.positive, key.below⟩
    simp only [SecretKey.ofBytes?, value, range, and_self, ↓reduceDIte]
  simp [parsePrivateKey, SecretKey.parse, Hex.decode_encode, read]

end Keys

section Signatures

variable {bytes : Bytes} {signature : Signature}

theorem parseSignature_eq_ok_iff :
    parseSignature bytes = .ok signature ↔ Signature.read? bytes = some signature := by
  unfold parseSignature
  cases Signature.read? bytes <;> simp

/-- A signature is verified if the digest has the right size and it is read as one that the key
accepts. -/
theorem verifySignature_eq_ok_iff {key : PublicKey} {digest : Bytes} :
    verifySignature key digest bytes = .ok () ↔
      digest.length = 32 ∧
        ∃ signature, Signature.read? bytes = some signature ∧
          verify key digest signature = true := by
  simp only [verifySignature, Except.check_eq_ok_iff, Except.bind_eq_ok_iff,
    Except.last_check_eq_ok_iff, parseSignature_eq_ok_iff, ne_eq, Decidable.not_not,
    Bool.not_eq_true', Bool.not_eq_false]

/-- Nothing is known of a signature but what it is read as. -/
theorem verifySignature_congr {bytes' : Bytes}
    (same : Signature.read? bytes = Signature.read? bytes') (key : PublicKey) (digest : Bytes) :
    verifySignature key digest bytes = verifySignature key digest bytes' := by
  rw [verifySignature, verifySignature, parseSignature, parseSignature, same]

/-- What signing produces is verified, as far as the key accepts it. -/
theorem verifySignature_signDigest {key : SecretKey} {digest : Bytes} (sized : digest.length = 32)
    (accepted : verify key.publicKey digest (sign key digest) = true) :
    verifySignature key.publicKey digest (signDigest digest key) = .ok () :=
  verifySignature_eq_ok_iff.mpr ⟨sized, _, Signature.read?_der_sign key digest, accepted⟩

/-- A byte behind a form does not count. -/
theorem verifySignature_der_append (signature : Signature) {behind : Bytes}
    (short : behind.length ≤ 1) (key : PublicKey) (digest : Bytes) :
    verifySignature key digest (signature.der ++ behind) =
      verifySignature key digest signature.der := by
  apply verifySignature_congr
  rw [Signature.read?_append signature.ofDer?_der, Signature.read?_der, if_pos short]

/-- What is read as a signature is a form of it, perhaps with one byte behind, and what is read is
normalized and read again from its own form. A form with more than one byte behind it is refused.
The forms of two signatures whose second scalars add up to the group order, each perhaps with one
byte behind it, are verified alike under every key and for every digest: as the normalized one. -/
theorem parseSignature_exact :
    (∀ bytes signature, parseSignature bytes = .ok signature →
      (∃ form behind written, bytes = form ++ behind ∧ behind.length ≤ 1 ∧
        Signature.ofDer? form = some written ∧ written.normalize = signature) ∧
      signature.s ≤ order / 2 ∧ parseSignature signature.der = .ok signature ∧
      (∀ b, parseSignature (signature.der ++ [b]) = .ok signature) ∧
      ∀ a b rest, parseSignature (signature.der ++ a :: b :: rest) =
        .error (.invalidSignature "malformed DER: malformed signature")) ∧
    ∀ signature twin : Signature, twin.r = signature.r → signature.s + twin.s = order →
      ∀ (key : PublicKey) (digest : Bytes),
        (verifySignature key digest signature.der = .ok () ↔
          digest.length = 32 ∧ verify key digest signature.normalize = true) ∧
        ∀ behind : Bytes, behind.length ≤ 1 →
          verifySignature key digest (signature.der ++ behind) =
            verifySignature key digest signature.der ∧
          verifySignature key digest (twin.der ++ behind) =
            verifySignature key digest signature.der := by
  constructor
  · intro bytes signature parsed
    obtain ⟨form, behind, written, split, short, read, rfl⟩ :=
      Signature.read?_eq_some_iff.mp (parseSignature_eq_ok_iff.mp parsed)
    have low := written.s_normalize_le
    have again := Signature.read?_append (Signature.ofDer?_der written.normalize)
    rw [Signature.normalize_eq_self low] at again
    refine ⟨⟨form, behind, written, split, short, read, rfl⟩, low, ?_, fun b => ?_,
      fun a b rest => ?_⟩
    · have alone := again []
      rw [List.append_nil] at alone
      exact parseSignature_eq_ok_iff.mpr alone
    · exact parseSignature_eq_ok_iff.mpr (again [b])
    · rw [parseSignature, again (a :: b :: rest)]
      rfl
  · intro signature twin sameR opposite key digest
    have normal := Signature.normalize_eq_of_add_eq sameR opposite
    have alike :
        verifySignature key digest twin.der = verifySignature key digest signature.der := by
      apply verifySignature_congr
      rw [Signature.read?_der, Signature.read?_der, normal]
    refine ⟨?_, fun behind short => ⟨verifySignature_der_append signature short key digest, ?_⟩⟩
    · rw [verifySignature_eq_ok_iff, Signature.read?_der]
      simp
    · rw [verifySignature_der_append twin short, alike]

/-- The signature of ones. -/
def Secp256k1.Signature.ones : Signature :=
  ⟨1, 1, one_lt_order, one_lt_order⟩

/-- The signature whose second scalar is the largest. Its form has an integer of 33 bytes. -/
def Secp256k1.Signature.largest : Signature :=
  ⟨1, order - 1, one_lt_order, Nat.sub_lt order_pos Nat.one_pos⟩

theorem parseSignature_exact_ones :
    parseSignature [0x30, 6, 2, 1, 1, 2, 1, 1, 0x81] = .ok Signature.ones ∧
      parseSignature (Signature.ones.der ++ [0, 0]) =
        .error (.invalidSignature "malformed DER: malformed signature") ∧
      Signature.largest.r = Signature.ones.r ∧
      Signature.ones.s + Signature.largest.s = order ∧
      ∀ key digest, verifySignature key digest (Signature.largest.der ++ [0x81]) =
        verifySignature key digest Signature.ones.der := by
  have parsed : parseSignature [0x30, 6, 2, 1, 1, 2, 1, 1, 0x81] = .ok Signature.ones := by
    decide
  have opposite : Signature.ones.s + Signature.largest.s = order := by decide
  obtain ⟨_, _, _, _, refused⟩ := parseSignature_exact.1 _ _ parsed
  have alike (key : PublicKey) (digest : Bytes) :=
    (parseSignature_exact.2 Signature.ones Signature.largest rfl opposite key digest).2 [0x81]
  exact ⟨parsed, refused 0 0 [], rfl, opposite,
    fun key digest => (alike key digest (Nat.le_refl 1)).2⟩

end Signatures

end Custody
