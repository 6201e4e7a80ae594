import Custody.Proofs.Bytes
import Custody.Secp256k1.Ecdsa

/-! # Signatures are read as they are written

The DER form of a signature is read back as the signature, normalized, also with a byte behind it,
but not with more: what a form is followed by never makes it another form. What signing returns is
normalized already, so that its written form is read as it was made.
-/

namespace Custody.Secp256k1.Signature

open Bytes

theorem order_lt : order < 256 ^ 32 := by decide

section Integer

variable {n : Nat}

private theorem toNatBE_dropWhile (bytes : Bytes) :
    toNatBE (bytes.dropWhile (· = 0)) = toNatBE bytes := by
  induction bytes with
  | nil => rfl
  | cons b rest ih =>
    rw [List.dropWhile_cons]
    split
    · rename_i zero
      obtain rfl := of_decide_eq_true zero
      exact ih
    · rfl

/-- The bytes of an integer are those of the scalar without leading zeros, and a zero in front where
the first would make it negative or there is none. -/
private theorem integerBody_cases (n : Nat) :
    ∃ digits, digits = (ofNatBE 32 n).dropWhile (· = 0) ∧
      (digits = [] ∧ integerBody n = [0] ∨
        (∃ b rest, digits = b :: rest ∧ b ≠ 0 ∧ b < 0x80 ∧ integerBody n = b :: rest) ∨
        ∃ b rest, digits = b :: rest ∧ 0x80 ≤ b ∧ integerBody n = 0 :: b :: rest) := by
  refine ⟨_, rfl, ?_⟩
  have first := List.head?_dropWhile_not (fun b : UInt8 => decide (b = 0)) (ofNatBE 32 n)
  unfold integerBody
  split
  · rename_i none
    exact .inl ⟨none, rfl⟩
  · rename_i b rest some
    rw [some] at first
    split
    · rename_i positive
      exact .inr (.inl ⟨b, rest, some, of_decide_eq_false first, positive, rfl⟩)
    · rename_i negative
      exact .inr (.inr ⟨b, rest, some, UInt8.not_lt.mp negative, rfl⟩)

theorem toNatBE_integerBody (fits : n < 256 ^ 32) : toNatBE (integerBody n) = n := by
  obtain ⟨digits, known, cases⟩ := integerBody_cases n
  have value : toNatBE digits = n := by
    rw [known, toNatBE_dropWhile, toNatBE_ofNatBE fits]
  rcases cases with ⟨rfl, body⟩ | ⟨b, rest, rfl, _, _, body⟩ | ⟨b, rest, rfl, _, body⟩
  all_goals
    rw [body]
    exact value

theorem length_integerBody (n : Nat) :
    0 < (integerBody n).length ∧ (integerBody n).length ≤ 33 := by
  obtain ⟨digits, known, cases⟩ := integerBody_cases n
  have length : digits.length ≤ 32 := by
    rw [known, ← length_ofNatBE 32 n]
    exact (List.dropWhile_sublist _).length_le
  rcases cases with ⟨rfl, body⟩ | ⟨b, rest, rfl, _, _, body⟩ | ⟨b, rest, rfl, _, body⟩
  all_goals
    rw [body]
    simp only [List.length_cons, List.length_nil] at length ⊢
    omega

/-- The bytes of an integer are the shortest of a number that is not negative. -/
theorem isPadded_integerBody (n : Nat) :
    isPadded (integerBody n) = false ∧ (integerBody n).head?.getD 0 < 0x80 := by
  obtain ⟨_, _, ⟨_, body⟩ | ⟨b, rest, _, nonzero, positive, body⟩ | ⟨b, rest, _, negative, body⟩⟩ :=
    integerBody_cases n
  · rw [body]
    decide
  · rw [body]
    have notMax : b ≠ 0xFF := by
      rintro rfl
      exact absurd positive (by decide)
    exact ⟨by cases rest <;> simp [isPadded, nonzero, notMax], positive⟩
  · rw [body]
    exact ⟨by simp [isPadded, negative], (by decide : (0 : UInt8) < 0x80)⟩

theorem scalarOf_integerBody (below : n < order) : scalarOf (integerBody n) = n := by
  have value := toNatBE_integerBody (Nat.lt_trans below order_lt)
  simp only [scalarOf, value, isPadded_integerBody n, below, decide_true, Bool.and_self, ↓reduceIte]

/-- Lengths below 128 take one byte. -/
private theorem readLength?_ofNat {length : Nat} (short : length < 128) (rest : Bytes) :
    readLength? (UInt8.ofNat length :: rest) = some (length, rest) := by
  have small : UInt8.ofNat length < 0x80 := by
    rw [UInt8.lt_iff_toNat_lt, UInt8.toNat_ofNat_of_lt' (by decide +revert)]
    exact short
  rw [readLength?, if_pos small, UInt8.toNat_ofNat_of_lt' (Nat.lt_trans short (by decide))]

theorem readInteger?_integer (n : Nat) (rest : Bytes) :
    readInteger? (integer n ++ rest) = some (integerBody n, rest) := by
  obtain ⟨positive, short⟩ := length_integerBody n
  have filled : (integerBody n).isEmpty = false :=
    List.isEmpty_eq_false_iff.mpr (List.ne_nil_of_length_pos positive)
  simp only [integer, List.cons_append, readInteger?, readLength?_ofNat (Nat.lt_of_le_of_lt short
    (by decide)), split?_append rfl, filled, isPadded_integerBody n, Bool.or_self,
    Bool.false_eq_true, ↓reduceIte]

end Integer

section Der

theorem length_integer_le (n : Nat) : (integer n).length ≤ 35 := by
  obtain ⟨_, short⟩ := length_integerBody n
  simp only [integer, List.length_cons]
  omega

theorem length_der_le (signature : Signature) : signature.der.length ≤ 72 := by
  have r := length_integer_le signature.r
  have s := length_integer_le signature.s
  simp only [der, List.length_cons, List.length_append]
  omega

theorem der_ne_nil (signature : Signature) : signature.der ≠ [] :=
  List.cons_ne_nil _ _

theorem ofDer?_der (signature : Signature) : ofDer? signature.der = some signature := by
  have r := length_integer_le signature.r
  have s := length_integer_le signature.s
  have short : (integer signature.r ++ integer signature.s).length < 128 := by
    rw [List.length_append]
    omega
  have readR := readInteger?_integer signature.r (integer signature.s)
  have readS := readInteger?_integer signature.s []
  rw [List.append_nil] at readS
  simp only [der, ofDer?, readLength?_ofNat short, readR, readS, ne_eq, not_true_eq_false,
    List.isEmpty_nil, scalarOf_integerBody signature.r_lt, scalarOf_integerBody signature.s_lt,
    ↓reduceIte]

theorem read?_der (signature : Signature) : read? signature.der = some signature.normalize := by
  rw [read?, ofDer?_der]
  rfl

end Der

section Strict

/-- A length is read without regard to what is behind its bytes. -/
private theorem readLength?_append {bytes rest : Bytes} {length : Nat}
    (read : readLength? bytes = some (length, rest)) (behind : Bytes) :
    readLength? (bytes ++ behind) = some (length, rest ++ behind) := by
  unfold readLength? at read
  split at read
  · cases read
  · rename_i b tail
    rw [List.cons_append, readLength?]
    split at read
    · rename_i short
      obtain ⟨rfl, rfl⟩ := Prod.mk.inj (Option.some.inj read)
      exact if_pos short
    · rename_i long
      rw [if_neg long]
      split at read
      · cases read
      · rename_i digits after split
        obtain ⟨count, rfl⟩ := split?_eq_some_iff.mp split
        simp only [Option.ite_none_right_eq_some, Bool.and_eq_true, decide_eq_true_eq,
          Option.some.injEq, Prod.mk.injEq] at read
        obtain ⟨⟨⟨⟨first, few⟩, least⟩, fits⟩, rfl, rfl⟩ := read
        have fits' : toNatBE digits ≤ (after ++ behind).length := by
          rw [List.length_append]
          omega
        have kept : (digits.head?.getD 0 ≠ 0 && digits.length ≤ 8 && 128 ≤ toNatBE digits &&
            toNatBE digits ≤ (after ++ behind).length) = true := by
          simp only [first, few, least, fits', ne_eq, not_false_eq_true, decide_true, Bool.and_self]
        simp only [List.append_assoc, split?_append count, kept, ↓reduceIte]

/-- A form that fills a byte string does not fill a longer one: the length that it gives ends
there. -/
theorem ofDer?_append {bytes behind : Bytes} {signature : Signature}
    (read : ofDer? bytes = some signature) (more : behind ≠ []) :
    ofDer? (bytes ++ behind) = none := by
  unfold ofDer? at read
  split at read
  · rename_i rest
    split at read
    · cases read
    · rename_i length body known
      split at read
      · cases read
      · rename_i filled
        have longer : length ≠ (body ++ behind).length := by
          have := List.length_pos_iff.mpr more
          rw [List.length_append]
          omega
        simp only [List.cons_append, ofDer?, readLength?_append known, longer, ne_eq,
          not_false_eq_true, ↓reduceIte]
  · cases read

/-- A form is read with at most one byte behind it. -/
theorem read?_append {bytes : Bytes} {signature : Signature}
    (read : ofDer? bytes = some signature) (behind : Bytes) :
    read? (bytes ++ behind) = if behind.length ≤ 1 then some signature.normalize else none := by
  match behind with
  | [] =>
    rw [List.append_nil, read?, read]
    rfl
  | [b] =>
    rw [read?, ofDer?_append read (List.cons_ne_nil b []), List.dropLast_concat, read]
    rfl
  | a :: b :: rest =>
    have shorter : (bytes ++ a :: b :: rest).dropLast = bytes ++ a :: (b :: rest).dropLast := by
      rw [List.dropLast_append_of_ne_nil (List.cons_ne_nil a _), List.dropLast_cons_cons]
    rw [read?, ofDer?_append read (List.cons_ne_nil a _), shorter,
      ofDer?_append read (List.cons_ne_nil a _)]
    rfl

/-- What is read is a form with at most one byte behind it, and nothing else. -/
theorem read?_eq_some_iff {bytes : Bytes} {signature : Signature} :
    read? bytes = some signature ↔
      ∃ form behind written, bytes = form ++ behind ∧ behind.length ≤ 1 ∧
        ofDer? form = some written ∧ written.normalize = signature := by
  constructor
  · intro read
    unfold read? at read
    obtain ⟨written, found, normal⟩ := Option.map_eq_some_iff.mp read
    cases whole : ofDer? bytes with
    | some written' =>
      rw [whole] at found
      obtain rfl := Option.some.inj found
      exact ⟨bytes, [], written', (List.append_nil bytes).symm, Nat.zero_le 1, whole, normal⟩
    | none =>
      rw [whole] at found
      have filled : bytes ≠ [] := by
        rintro rfl
        cases found
      exact ⟨bytes.dropLast, [bytes.getLast filled], written,
        (List.dropLast_concat_getLast filled).symm, Nat.le_refl 1, found, normal⟩
  · rintro ⟨form, behind, written, rfl, short, read, rfl⟩
    rw [read?_append read, if_pos short]

end Strict

section Normal

theorem s_normalize_le (signature : Signature) : signature.normalize.s ≤ halfOrder := by
  unfold normalize
  split
  · unfold halfOrder at *
    dsimp only
    omega
  · rename_i low
    exact Nat.not_lt.mp low

theorem normalize_eq_self {signature : Signature} (low : signature.s ≤ halfOrder) :
    signature.normalize = signature :=
  dif_neg (Nat.not_lt.mpr low)

/-- The order is odd, so of two scalars that add up to it one is at most the half. -/
private theorem order_eq : order = 2 * halfOrder + 1 := by decide

/-- Signatures whose second scalars add up to the order are normalized to one. -/
theorem normalize_eq_of_add_eq {signature twin : Signature} (sameR : twin.r = signature.r)
    (opposite : signature.s + twin.s = order) : twin.normalize = signature.normalize := by
  have odd := order_eq
  obtain ⟨r, s, _, _⟩ := signature
  obtain ⟨r', s', _, _⟩ := twin
  dsimp only at sameR opposite
  subst sameR
  unfold normalize
  by_cases high : s > halfOrder
  · have low : ¬ s' > halfOrder := by omega
    rw [dif_pos high, dif_neg low]
    simp only [mk.injEq, true_and]
    omega
  · have high' : s' > halfOrder := by omega
    rw [dif_pos high', dif_neg high]
    simp only [mk.injEq, true_and]
    omega

variable {key : SecretKey} {digest : Bytes}

private theorem s_signWith?_le {nonce : Nat} {signature : Signature}
    (signed : signWith? key digest nonce = some signature) : signature.s ≤ halfOrder := by
  unfold signWith? at signed
  split at signed
  · cases signed
  · split at signed
    · cases signed
    · dsimp only at signed
      split at signed
      · cases signed
      · obtain rfl := Option.some.inj signed
        exact s_normalize_le _

private theorem s_signFrom_le (attempts : Nat) (nonces : Nonces) :
    (signFrom key digest attempts nonces).s ≤ halfOrder := by
  induction attempts generalizing nonces with
  | zero =>
    simp only [signFrom]
    decide
  | succ attempts ih =>
    simp only [signFrom]
    split
    · rename_i signature signed
      exact s_signWith?_le signed
    · exact ih _

/-- What signing returns is read as it was made. -/
theorem read?_der_sign (key : SecretKey) (digest : Bytes) :
    read? (sign key digest).der = some (sign key digest) := by
  rw [read?_der]
  exact congrArg some (normalize_eq_self (s_signFrom_le _ _))

end Normal

end Custody.Secp256k1.Signature
