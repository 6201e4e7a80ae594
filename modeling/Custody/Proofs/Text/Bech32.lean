import Custody.Proofs.Text.Ascii
import Custody.Proofs.Text.Digits
import Custody.Text.Bech32
import Mathlib.Data.List.TakeWhile
import Mathlib.Data.Nat.Bitwise

/-! # Witness programs are read back, and from one spelling

A text is read as a witness program exactly when lower case makes it the text of the program, and
it does not mix cases. Regrouped bytes are recovered from their digits and the digits from the
bytes, since both spell one number. The checksum is the only one that leaves the residue because
the checksum code is linear: six digits behind the others change the remainder by the number they
spell.
-/

namespace Custody.Bech32

open Digits

section Digits

theorem toDigits_lt (pending bits : Nat) (bytes : Bytes) :
    ∀ digit ∈ toDigits pending bits bytes, digit < 32 := by
  induction bytes generalizing pending bits with
  | nil =>
    unfold toDigits
    split
    · simp
    · intro digit member
      rw [List.mem_singleton.mp member]
      exact Nat.mod_lt _ (by decide)
  | cons b rest ih =>
    simp only [toDigits]
    have small (n : Nat) : n % 32 < 32 := Nat.mod_lt n (by decide)
    split
    · exact List.forall_mem_cons.mpr ⟨small _, ih _ _⟩
    · exact List.forall_mem_cons.mpr ⟨small _, List.forall_mem_cons.mpr ⟨small _, ih _ _⟩⟩

theorem length_toDigits_le {bits : Nat} (few : bits ≤ 4) (pending : Nat) (bytes : Bytes) :
    5 * (toDigits pending bits bytes).length ≤ 8 * bytes.length + bits + 4 := by
  induction bytes generalizing pending bits with
  | nil =>
    unfold toDigits
    split <;> simp only [List.length_nil, List.length_cons] <;> omega
  | cons b rest ih =>
    simp only [toDigits]
    split
    · have fewer : bits + 3 ≤ 4 := by omega
      have tail := ih fewer ((256 * pending + b.toNat) % (1 <<< (bits + 3)))
      simp only [List.length_cons]
      omega
    · have fewer : bits - 2 ≤ 4 := by omega
      have tail := ih fewer ((256 * pending + b.toNat) % (1 <<< (bits - 2)))
      simp only [List.length_cons]
      omega

private theorem ofDigits?_few {bits : Nat} (few : bits < 3) (pending value : Nat)
    (rest : List Nat) :
    ofDigits? pending bits (value :: rest) = ofDigits? (32 * pending + value) (bits + 5) rest := by
  rw [ofDigits?, if_pos few]

private theorem ofDigits?_enough {bits : Nat} (enough : ¬ bits < 3) (pending value : Nat)
    (rest : List Nat) :
    ofDigits? pending bits (value :: rest) =
      (ofDigits? ((32 * pending + value) % 2 ^ (bits - 3)) (bits - 3) rest).map
        (UInt8.ofNat ((32 * pending + value) / 2 ^ (bits - 3)) :: ·) := by
  rw [ofDigits?, if_neg enough]
  simp only [Nat.shiftRight_eq_div_pow, Nat.one_shiftLeft]

private theorem toDigits_few {bits : Nat} (few : bits < 2) (pending : Nat) (b : UInt8)
    (rest : Bytes) :
    toDigits pending bits (b :: rest) = (256 * pending + b.toNat) / 2 ^ (bits + 3) % 32 ::
      toDigits ((256 * pending + b.toNat) % 2 ^ (bits + 3)) (bits + 3) rest := by
  rw [toDigits]
  simp only [few, Nat.shiftRight_eq_div_pow, Nat.one_shiftLeft, ↓reduceIte]

private theorem toDigits_many {bits : Nat} (many : ¬ bits < 2) (pending : Nat) (b : UInt8)
    (rest : Bytes) :
    toDigits pending bits (b :: rest) = (256 * pending + b.toNat) / 2 ^ (bits + 3) % 32 ::
      (256 * pending + b.toNat) / 2 ^ (bits - 2) % 32 ::
        toDigits ((256 * pending + b.toNat) % 2 ^ (bits - 2)) (bits - 2) rest := by
  rw [toDigits]
  simp only [many, Nat.shiftRight_eq_div_pow, Nat.one_shiftLeft, ↓reduceIte]

/-- Pending bits are one digit more, which zero bits fill up. -/
private theorem ofDigits?_toDigits_nil {bits high low : Nat} (some : 1 ≤ bits) (few : bits ≤ 4)
    (fitsLow : low < 2 ^ bits) :
    ofDigits? high (8 - bits) (toDigits low bits []) =
      Option.some [UInt8.ofNat (2 ^ bits * high + low)] := by
  have whole : 32 * high + low * 2 ^ (5 - bits) % 32 =
      2 ^ (8 - bits - 3) * (2 ^ bits * high + low) := by
    obtain rfl | rfl | rfl | rfl : bits = 1 ∨ bits = 2 ∨ bits = 3 ∨ bits = 4 := by omega
    all_goals
      simp only [Nat.reduceSub, Nat.reducePow] at fitsLow ⊢
      omega
  have left : 8 - bits - 3 ≤ 4 := by omega
  rw [toDigits, if_neg (by omega), Nat.shiftLeft_eq, ofDigits?_enough (by omega), whole,
    Nat.mul_mod_right, Nat.mul_div_cancel_left _ (Nat.two_pow_pos _), ofDigits?]
  simp [left]

/-- Between two bytes the low bits of the last byte are pending on the side of the writer, and its
high bits on the side of the reader. -/
private theorem ofDigits?_toDigits_pending (bytes : Bytes) :
    ofDigits? 0 0 (toDigits 0 0 bytes) = some bytes ∧
      ∀ bits high low, 1 ≤ bits → bits ≤ 4 → low < 2 ^ bits → high < 2 ^ (8 - bits) →
        ofDigits? high (8 - bits) (toDigits low bits bytes) =
          some (UInt8.ofNat (2 ^ bits * high + low) :: bytes) := by
  induction bytes with
  | nil =>
    exact ⟨by decide, fun bits high low some few fitsLow _ =>
      ofDigits?_toDigits_nil some few fitsLow⟩
  | cons b rest ih =>
    obtain ⟨aligned, pending⟩ := ih
    have byte := b.toNat_lt
    refine ⟨?_, fun bits high low some few fitsLow fitsHigh => ?_⟩
    · rw [toDigits_few (by decide), ofDigits?_few (by decide)]
      have next : 2 ^ 3 * (b.toNat / 8 % 32) + b.toNat % 8 = b.toNat := by omega
      simp only [Nat.reducePow, Nat.zero_add, Nat.mul_zero]
      rw [pending 3 _ _ (by decide) (by decide) (by omega) (by omega), next,
        UInt8.ofNat_toNat]
    · -- The reader lags behind the writer by the pending bits, so each number of them is a case.
      obtain rfl | rfl | rfl | rfl : bits = 1 ∨ bits = 2 ∨ bits = 3 ∨ bits = 4 := by omega
      all_goals simp only [Nat.reduceSub, Nat.reducePow] at fitsLow fitsHigh ⊢
      · have known : (32 * high + (256 * low + b.toNat) / 16 % 32) / 16 = 2 * high + low := by omega
        have next : 2 ^ 4 * ((32 * high + (256 * low + b.toNat) / 16 % 32) % 16) +
            (256 * low + b.toNat) % 16 = b.toNat := by omega
        rw [toDigits_few (by decide), ofDigits?_enough (by decide)]
        simp only [Nat.reduceAdd, Nat.reduceSub, Nat.reducePow, known]
        rw [pending 4 _ _ (by decide) (by decide) (by omega) (by omega), next,
          UInt8.ofNat_toNat, Option.map_some]
      · have known : (32 * high + (256 * low + b.toNat) / 32 % 32) / 8 = 4 * high + low := by omega
        have next : 32 * ((32 * high + (256 * low + b.toNat) / 32 % 32) % 8) +
            (256 * low + b.toNat) % 32 = b.toNat := by omega
        rw [toDigits_many (by decide), ofDigits?_enough (by decide), ofDigits?_enough (by decide)]
        simp only [Nat.reduceAdd, Nat.reduceSub, Nat.reducePow, known, next, Nat.mod_one, aligned,
          Nat.div_one, Option.map_some, UInt8.ofNat_toNat]
      · have known : (32 * high + (256 * low + b.toNat) / 64 % 32) / 4 = 8 * high + low := by omega
        have next : 2 ^ 1 * (32 * ((32 * high + (256 * low + b.toNat) / 64 % 32) % 4) +
            (256 * low + b.toNat) / 2 % 32) + (256 * low + b.toNat) % 2 = b.toNat := by omega
        rw [toDigits_many (by decide), ofDigits?_enough (by decide), ofDigits?_few (by decide)]
        simp only [Nat.reduceAdd, Nat.reduceSub, Nat.reducePow, known]
        rw [pending 1 _ _ (by decide) (by decide) (by omega) (by omega), next,
          UInt8.ofNat_toNat, Option.map_some]
      · have known : (32 * high + (256 * low + b.toNat) / 128 % 32) / 2 = 16 * high + low := by
          omega
        have next : 2 ^ 2 * (32 * ((32 * high + (256 * low + b.toNat) / 128 % 32) % 2) +
            (256 * low + b.toNat) / 4 % 32) + (256 * low + b.toNat) % 4 = b.toNat := by omega
        rw [toDigits_many (by decide), ofDigits?_enough (by decide), ofDigits?_few (by decide)]
        simp only [Nat.reduceAdd, Nat.reduceSub, Nat.reducePow, known]
        rw [pending 2 _ _ (by decide) (by decide) (by omega) (by omega), next,
          UInt8.ofNat_toNat, Option.map_some]

/-- The bytes are recovered from their digits. -/
theorem ofDigits?_toDigits (bytes : Bytes) : ofDigits? 0 0 (toDigits 0 0 bytes) = some bytes :=
  (ofDigits?_toDigits_pending bytes).1

/-- Digits that are read as bytes spell the number of the bytes, with at most four bits behind it
that are zero. -/
private theorem value_of_ofDigits? {digits : List Nat} {pending bits : Nat} {program : Bytes}
    (fits : pending < 2 ^ bits) (few : bits < 8) (small : ∀ digit ∈ digits, digit < 32)
    (read : ofDigits? pending bits digits = some program) :
    ∃ left ≤ 4, bits + 5 * digits.length = 8 * program.length + left ∧
      value 32 (pending :: digits) = 2 ^ left * value 256 (program.map UInt8.toNat) := by
  induction digits generalizing pending bits program with
  | nil =>
    simp only [ofDigits?, Bool.and_eq_true, decide_eq_true_eq, Option.ite_none_right_eq_some,
      Option.some.injEq] at read
    obtain ⟨⟨atMost, rfl⟩, rfl⟩ := read
    exact ⟨bits, atMost, by simp, by simp [value]⟩
  | cons digit digits ih =>
    obtain ⟨here, later⟩ := List.forall_mem_cons.mp small
    have fitsNext : 32 * pending + digit < 2 ^ (bits + 5) := by
      rw [Nat.pow_add]
      omega
    rw [value_cons_cons]
    by_cases lacks : bits < 3
    · rw [ofDigits?_few lacks] at read
      obtain ⟨left, atMost, length, same⟩ := ih fitsNext (by omega) later read
      exact ⟨left, atMost, by rw [List.length_cons]; omega, same⟩
    · rw [ofDigits?_enough lacks] at read
      obtain ⟨tail, readTail, rfl⟩ := Option.map_eq_some_iff.mp read
      obtain ⟨left, atMost, length, same⟩ :=
        ih (Nat.mod_lt _ (Nat.two_pow_pos _)) (by omega) later readTail
      have byte : (UInt8.ofNat ((32 * pending + digit) / 2 ^ (bits - 3))).toNat =
          (32 * pending + digit) / 2 ^ (bits - 3) := by
        refine UInt8.toNat_ofNat_of_lt' (Nat.div_lt_of_lt_mul (Nat.lt_of_lt_of_eq fitsNext ?_))
        have exponent : bits + 5 = bits - 3 + 8 := by omega
        rw [exponent, Nat.pow_add]
      have powers : 32 ^ digits.length * 2 ^ (bits - 3) = 2 ^ left * 256 ^ tail.length := by
        have exponent : 5 * digits.length + (bits - 3) = left + 8 * tail.length := by omega
        calc 32 ^ digits.length * 2 ^ (bits - 3)
            = 2 ^ (5 * digits.length + (bits - 3)) := by rw [Nat.pow_add, Nat.pow_mul]
          _ = 2 ^ left * 256 ^ tail.length := by rw [exponent, Nat.pow_add, Nat.pow_mul]
      refine ⟨left, atMost, by simp only [List.length_cons]; omega, ?_⟩
      generalize 32 * pending + digit = next at byte same
      calc value 32 (next :: digits)
          = 32 ^ digits.length * (2 ^ (bits - 3) * (next / 2 ^ (bits - 3)) +
              next % 2 ^ (bits - 3)) + value 32 digits := by rw [Nat.div_add_mod, value_cons]
        _ = 32 ^ digits.length * 2 ^ (bits - 3) * (next / 2 ^ (bits - 3)) +
              value 32 (next % 2 ^ (bits - 3) :: digits) := by
            rw [value_cons, Nat.mul_add, Nat.mul_assoc, Nat.add_assoc]
        _ = 2 ^ left * (256 ^ tail.length * (next / 2 ^ (bits - 3)) +
              value 256 (tail.map UInt8.toNat)) := by
            rw [powers, same, Nat.mul_add, Nat.mul_assoc]
        _ = 2 ^ left * value 256
              ((UInt8.ofNat (next / 2 ^ (bits - 3)) :: tail).map UInt8.toNat) := by
            rw [List.map_cons, value_cons, byte, List.length_map]

/-- Digits that are read as bytes are the digits of the bytes. -/
theorem toDigits_of_ofDigits? {digits : List Nat} {program : Bytes}
    (small : ∀ digit ∈ digits, digit < 32) (read : ofDigits? 0 0 digits = some program) :
    toDigits 0 0 program = digits := by
  obtain ⟨left, few, length, same⟩ := value_of_ofDigits? (by decide) (by decide) small read
  obtain ⟨left', few', length', same'⟩ := value_of_ofDigits? (by decide) (by decide)
    (toDigits_lt 0 0 program) (ofDigits?_toDigits program)
  obtain rfl : left' = left := by omega
  have spelled := same'.trans same.symm
  simp only [value_cons, Nat.mul_zero, Nat.zero_add] at spelled
  exact value_inj (by decide) (by omega) (toDigits_lt 0 0 program) small spelled

end Digits

section Checksum

private theorem foldl_generators_xor (top a change : Nat) (generators : List (Nat × Nat)) :
    generators.foldl
        (fun acc (bit, generator) => if top &&& bit = 0 then acc else acc ^^^ generator)
        (a ^^^ change) =
      generators.foldl
        (fun acc (bit, generator) => if top &&& bit = 0 then acc else acc ^^^ generator) a
        ^^^ change := by
  induction generators generalizing a with
  | nil => rfl
  | cons head rest ih =>
    have moved : a ^^^ change ^^^ head.2 = a ^^^ head.2 ^^^ change := by
      rw [Nat.xor_assoc, Nat.xor_comm change, Nat.xor_assoc]
    simp only [List.foldl_cons, moved, ← ih]
    split <;> rfl

private theorem mul_add_eq_xor (n : Nat) {digit : Nat} (small : digit < 32) :
    n * 32 ^^^ digit = 32 * n + digit := by
  have small' : digit < 2 ^ 5 := small
  apply Nat.eq_of_testBit_eq
  intro i
  rw [Nat.mul_comm, show (32 : Nat) = 2 ^ 5 from rfl, Nat.testBit_two_pow_mul_add n small',
    Nat.testBit_xor, Nat.testBit_two_pow_mul]
  split
  · rename_i low
    simp [Nat.not_le.mpr low]
  · rename_i high
    have above := Nat.testBit_lt_two_pow
      (Nat.lt_of_lt_of_le small' (Nat.pow_le_pow_right (by decide) (Nat.not_lt.mp high)))
    simp [above, Nat.not_lt.mp high]

/-- A change of the remainder that is short enough is moved up by a step of the code. -/
private theorem polymodStep_xor (a : Nat) {change digit : Nat} (short : change < 2 ^ 25)
    (small : digit < 32) :
    polymodStep (a ^^^ change) digit = polymodStep a 0 ^^^ (32 * change + digit) := by
  have power : 0x2000000 = 2 ^ 25 := rfl
  have top : (a ^^^ change) / 0x2000000 = a / 0x2000000 := by
    rw [power, Nat.xor_div_two_pow, Nat.div_eq_of_lt short, Nat.xor_zero]
  have low : (a ^^^ change) % 0x2000000 * 32 ^^^ digit =
      a % 0x2000000 * 32 ^^^ (32 * change + digit) := by
    have shifted (n : Nat) : n * 32 = n <<< 5 := (Nat.shiftLeft_eq n 5).symm
    rw [power, Nat.xor_mod_two_pow, Nat.mod_eq_of_lt short, shifted, Nat.shiftLeft_xor_distrib,
      ← shifted, ← shifted, Nat.xor_assoc, mul_add_eq_xor change small]
  unfold polymodStep
  rw [top, low, Nat.xor_zero, foldl_generators_xor]

/-- At most six digits change the remainder by the number they spell. -/
private theorem foldl_polymodStep_xor {digits : List Nat} (small : ∀ digit ∈ digits, digit < 32)
    (few : digits.length ≤ 6) (a : Nat) {change : Nat}
    (short : change < 2 ^ (30 - 5 * digits.length)) :
    digits.foldl polymodStep (a ^^^ change) =
      (List.replicate digits.length 0).foldl polymodStep a ^^^
        digits.foldl (fun n digit => 32 * n + digit) change := by
  induction digits generalizing a change with
  | nil => rfl
  | cons digit digits ih =>
    obtain ⟨here, later⟩ := List.forall_mem_cons.mp small
    simp only [List.length_cons] at few short
    have shortHere : change < 2 ^ 25 :=
      Nat.lt_of_lt_of_le short (Nat.pow_le_pow_right (by decide) (by omega))
    have shortLater : 32 * change + digit < 2 ^ (30 - 5 * digits.length) := by
      have exponent : 30 - 5 * digits.length = 30 - 5 * (digits.length + 1) + 5 := by omega
      rw [exponent, Nat.pow_add]
      omega
    rw [List.foldl_cons, polymodStep_xor a shortHere here, ih later (by omega) _ shortLater]
    rfl

private theorem polymodStep_lt (a : Nat) {digit : Nat} (small : digit < 32) :
    polymodStep a digit < 2 ^ 30 := by
  have shifted : a % 0x2000000 * 32 ^^^ digit < 2 ^ 30 := by
    have below : a % 0x2000000 < 0x2000000 := Nat.mod_lt _ (by decide)
    rw [mul_add_eq_xor _ small]
    omega
  have generators : ∀ generator ∈
      [(1, 0x3b6a57b2), (2, 0x26508e6d), (4, 0x1ea119fa), (8, 0x3d4233dd), (16, 0x2a1462b3)],
      generator.2 < 2 ^ 30 := by decide
  unfold polymodStep
  generalize [(1, 0x3b6a57b2), (2, 0x26508e6d), (4, 0x1ea119fa), (8, 0x3d4233dd),
    (16, 0x2a1462b3)] = pairs at generators ⊢
  generalize a % 0x2000000 * 32 ^^^ digit = start at shifted ⊢
  induction pairs generalizing start with
  | nil => exact shifted
  | cons pair pairs ih =>
    obtain ⟨here, later⟩ := List.forall_mem_cons.mp generators
    rw [List.foldl_cons]
    refine ih later _ ?_
    dsimp only
    split
    · exact shifted
    · exact Nat.xor_lt_two_pow shifted here

theorem checksum_lt (hrp : List Char) (version : Nat) (values : List Nat) :
    ∀ digit ∈ checksum hrp version values, digit < 32 := by
  simp only [checksum, List.forall_mem_cons, List.not_mem_nil, false_implies, implies_true,
    and_true, Nat.shiftRight_eq_div_pow]
  omega

/-- Six digits behind others change the remainder by the number they spell. -/
private theorem polymod_append_six (front : List Nat) {sum : List Nat}
    (small : ∀ digit ∈ sum, digit < 32) (six : sum.length = 6) :
    polymod (front ++ sum) = polymod (front ++ List.replicate 6 0) ^^^ value 32 sum := by
  have changed := foldl_polymodStep_xor small (Nat.le_of_eq six) (polymod front)
    (Nat.two_pow_pos _)
  rw [Nat.xor_zero, six] at changed
  rw [polymod, polymod, List.foldl_append, List.foldl_append]
  exact changed

private theorem value_checksum (hrp : List Char) (version : Nat) (values : List Nat) :
    value 32 (checksum hrp version values) =
      polymod (expandPrefix hrp ++ values ++ List.replicate 6 0) ^^^ residue version := by
  have last (a : Nat) : (List.replicate 6 0).foldl polymodStep a < 2 ^ 30 :=
    polymodStep_lt _ (by decide)
  have residueFits : residue version < 2 ^ 30 := by
    unfold residue
    split <;> decide
  have sumFits := Nat.xor_lt_two_pow (last (polymod (expandPrefix hrp ++ values))) residueFits
  simp only [checksum, value, polymod, List.foldl_append, List.foldl_cons, List.foldl_nil,
    Nat.shiftRight_eq_div_pow] at sumFits ⊢
  omega

/-- Six digits leave the residue of the version exactly when they are the checksum. -/
theorem polymod_eq_residue_iff {hrp : List Char} {version : Nat} {values sum : List Nat}
    (small : ∀ digit ∈ sum, digit < 32) (six : sum.length = 6) :
    polymod (expandPrefix hrp ++ values ++ sum) = residue version ↔
      sum = checksum hrp version values := by
  have length : sum.length = (checksum hrp version values).length := six
  rw [polymod_append_six _ small six]
  constructor
  · intro residual
    refine value_inj (by decide) length small (checksum_lt hrp version values) ?_
    rw [value_checksum, ← residual, Nat.xor_xor_cancel_left]
  · rintro rfl
    rw [value_checksum, Nat.xor_xor_cancel_left]

end Checksum

section Text

/-- The text of some digits. -/
private def spell (digits : List Nat) : List Char :=
  digits.map (alphabet.getD · 'q')

private theorem values?_eq_some_iff {cs : List Char} {digits : List Nat} :
    values? cs = some digits ↔ (∀ digit ∈ digits, digit < 32) ∧ cs = spell digits := by
  have nodup : alphabet.Nodup := by decide
  have count : alphabet.length = 32 := by decide
  simp only [values?, Option.ite_none_right_eq_some, Option.some.injEq]
  constructor
  · rintro ⟨all, rfl⟩
    obtain ⟨small, spelled⟩ := map_filterMap_idxOf? nodup 'q' all
    exact ⟨count ▸ small, spelled.symm⟩
  · rintro ⟨small, rfl⟩
    have read : (spell digits).filterMap (alphabet.idxOf? ·) = digits :=
      filterMap_idxOf?_map nodup 'q' (count ▸ small)
    exact ⟨by rw [read, spell, List.length_map], read⟩

private theorem separate?_eq_some_iff {cs hrp data : List Char} :
    separate? cs = some (hrp, data) ↔ (∀ c ∈ data, c ≠ '1') ∧ cs = hrp ++ '1' :: data := by
  simp only [separate?]
  constructor
  · intro separated
    have whole := List.takeWhile_append_dropWhile (p := (· ≠ '1')) (l := cs.reverse)
    split at separated
    · cases separated
    · rename_i c back found
      cases separated
      have stop : c = '1' := by
        have first := List.head?_dropWhile_not (· ≠ '1') cs.reverse
        rw [found] at first
        simpa using first
      refine ⟨fun c member => ?_, ?_⟩
      · have passed := List.mem_takeWhile_imp (List.mem_reverse.mp member)
        exact of_decide_eq_true passed
      · rw [found, stop] at whole
        simpa using (congrArg List.reverse whole).symm
  · rintro ⟨free, rfl⟩
    have back : (hrp ++ '1' :: data).reverse = data.reverse ++ '1' :: hrp.reverse := by simp
    have passed : ∀ c ∈ data.reverse, decide (c ≠ '1') = true := by
      intro c member
      exact decide_eq_true (free c (List.mem_reverse.mp member))
    simp only [back, List.dropWhile_append_of_pos passed, List.takeWhile_append_of_pos passed]
    simp

private theorem alphabet_getD {digit : Nat} (small : digit < 32) :
    (alphabet.getD digit 'q').utf8Size = 1 ∧ (alphabet.getD digit 'q').isUpper = false ∧
      alphabet.getD digit 'q' ≠ '1' := by
  revert digit
  decide

private theorem of_mem_spell {digits : List Nat} (small : ∀ digit ∈ digits, digit < 32) :
    ∀ c ∈ spell digits, c.utf8Size = 1 ∧ c.isUpper = false ∧ c ≠ '1' := by
  intro c member
  obtain ⟨digit, held, rfl⟩ := List.mem_map.mp member
  exact alphabet_getD (small digit held)

private theorem digits_lt {version : Nat} (known : version ≤ 16) (hrp : List Char)
    (program : Bytes) :
    ∀ digit ∈ version :: (toDigits 0 0 program ++
      checksum hrp version (version :: toDigits 0 0 program)), digit < 32 :=
  List.forall_mem_cons.mpr ⟨by omega, List.forall_mem_append.mpr
    ⟨toDigits_lt _ _ _, checksum_lt _ _ _⟩⟩

private theorem encode?_eq_some_iff {hrp text : String} {version : Nat} {program : Bytes} :
    encode? hrp version program = some text ↔
      version ≤ 16 ∧ isAllowed version program.length = true ∧
        text.toList = hrp.toList ++ '1' :: spell (version :: (toDigits 0 0 program ++
          checksum hrp.toList version (version :: toDigits 0 0 program))) := by
  constructor
  · intro written
    simp only [encode?, Bool.and_eq_true, decide_eq_true_eq, Option.ite_none_right_eq_some,
      Option.some.injEq] at written
    obtain ⟨⟨known, allowed⟩, rfl⟩ := written
    exact ⟨known, allowed, String.toList_ofList⟩
  · rintro ⟨known, allowed, spelled⟩
    have text : text = String.ofList text.toList := String.ofList_toList.symm
    rw [text, spelled, encode?, if_pos (by simp [known, allowed])]
    rfl

/-- How a text is read as a program: as its digits behind the version, and six more that check
them. -/
private structure Spelled (text : String) (program : Program) (digits sum : List Nat) :
    Prop where
  short : text.utf8ByteSize ≤ maxLength
  uniform : isUniform text.toList = true
  visible : isPrefix program.hrp.toList = true
  small : ∀ digit ∈ program.version :: (digits ++ sum), digit < 32
  six : sum.length = 6
  residual : polymod (expandPrefix program.hrp.toList ++ program.version :: (digits ++ sum)) =
    residue program.version
  regrouped : ofDigits? 0 0 digits = some program.program
  known : program.version ≤ 16
  allowed : isAllowed program.version program.program.length = true
  letters : text.toList.map Char.toLower =
    program.hrp.toList ++ '1' :: spell (program.version :: (digits ++ sum))

variable {text : String} {program : Program} {digits sum : List Nat}

private theorem Spelled.decode? (spelled : Spelled text program digits sum) :
    decode? text = some program := by
  obtain ⟨short, uniform, visible, small, six, residual, regrouped, known, allowed, letters⟩ :=
    spelled
  have separated := separate?_eq_some_iff.mpr
    ⟨fun c member => (of_mem_spell small c member).2.2, letters⟩
  have values := values?_eq_some_iff.mpr ⟨small, rfl⟩
  have body : (digits ++ sum).take ((digits ++ sum).length - 6) = digits := by
    rw [List.length_append, six, Nat.add_sub_cancel, List.take_left]
  have enough : 6 ≤ (digits ++ sum).length := by
    rw [List.length_append, six]
    exact Nat.le_add_left _ _
  simp only [Bech32.decode?, short, uniform, decide_true, Bool.and_self, ↓reduceIte, separated,
    values, body, visible, known, enough, residual, regrouped, allowed, String.ofList_toList]

private theorem exists_spelled_of_decode? (read : decode? text = some program) :
    ∃ digits sum, Spelled text program digits sum := by
  unfold decode? at read
  split at read
  · rename_i shape
    simp only [Bool.and_eq_true, decide_eq_true_eq] at shape
    obtain ⟨short, uniform⟩ := shape
    split at read
    · cases read
    · rename_i hrp data separated
      obtain ⟨_, letters⟩ := separate?_eq_some_iff.mp separated
      split at read
      · rename_i version values digits
        obtain ⟨small, rfl⟩ := values?_eq_some_iff.mp digits
        simp only [Bool.and_eq_true, decide_eq_true_eq, Option.ite_none_right_eq_some] at read
        obtain ⟨⟨⟨⟨visible, known⟩, enough⟩, residual⟩, read⟩ := read
        split at read
        · rename_i bytes regrouped
          simp only [Option.ite_none_right_eq_some, Option.some.injEq] at read
          obtain ⟨allowed, rfl⟩ := read
          have split := List.take_append_drop (values.length - 6) values
          have six : (values.drop (values.length - 6)).length = 6 := by
            rw [List.length_drop]
            omega
          refine ⟨_, _, short, uniform, ?_, ?_, six, ?_, regrouped, known, allowed, ?_⟩
          · rwa [String.toList_ofList]
          · rwa [split]
          · rwa [String.toList_ofList, split]
          · rwa [String.toList_ofList, split]
        · cases read
      · cases read
  · cases read

/-- Digits and sum are those that are written for the program. -/
private theorem Spelled.written (spelled : Spelled text program digits sum) :
    encode? program.hrp program.version program.program = some text.toLower := by
  obtain ⟨_, front⟩ := List.forall_mem_cons.mp spelled.small
  obtain ⟨small, smallSum⟩ := List.forall_mem_append.mp front
  have same := toDigits_of_ofDigits? small spelled.regrouped
  -- The sum is the last row of digits in what has the residue, so it is the checksum.
  have residual := spelled.residual
  rw [← List.cons_append, ← List.append_assoc,
    polymod_eq_residue_iff smallSum spelled.six] at residual
  refine encode?_eq_some_iff.mpr ⟨spelled.known, spelled.allowed, ?_⟩
  rw [same, ← residual, ← spelled.letters]
  exact String.toList_map

private theorem spelled_of_written (short : text.utf8ByteSize ≤ maxLength)
    (uniform : isUniform text.toList = true) (visible : isPrefix program.hrp.toList = true)
    (written : encode? program.hrp program.version program.program = some text.toLower) :
    Spelled text program (toDigits 0 0 program.program) (checksum program.hrp.toList
      program.version (program.version :: toDigits 0 0 program.program)) := by
  obtain ⟨known, allowed, letters⟩ := encode?_eq_some_iff.mp written
  have residual := (polymod_eq_residue_iff (checksum_lt program.hrp.toList program.version
    (program.version :: toDigits 0 0 program.program)) rfl).mpr rfl
  rw [List.append_assoc, List.cons_append] at residual
  exact ⟨short, uniform, visible, digits_lt known _ _, rfl, residual,
    ofDigits?_toDigits program.program, known, allowed, String.toList_map.symm.trans letters⟩

/-- A text is read as a program exactly when it is short and of one case, and lower case makes it
the text of the program under a visible prefix. -/
theorem decode?_eq_some_iff :
    decode? text = some program ↔
      text.utf8ByteSize ≤ maxLength ∧ isUniform text.toList = true ∧
        isPrefix program.hrp.toList = true ∧
        encode? program.hrp program.version program.program = some text.toLower := by
  constructor
  · intro read
    obtain ⟨digits, sum, spelled⟩ := exists_spelled_of_decode? read
    exact ⟨spelled.short, spelled.uniform, spelled.visible, spelled.written⟩
  · rintro ⟨short, uniform, visible, written⟩
    exact (spelled_of_written short uniform visible written).decode?

private theorem toLower_of_isUpper {c : Char} (lower : c.isUpper = false) : c.toLower = c := by
  have capital : ¬ (c.val ≥ 'A'.val ∧ c.val ≤ 'Z'.val) := of_decide_eq_false lower
  exact dif_neg capital

/-- A character is no capital letter and stays in lower case, or it is one of 26. -/
private theorem toLower_cases (c : Char) :
    (c.isUpper = false ∧ c.toLower = c) ∨
      (c.utf8Size = 1 ∧ c.toLower.utf8Size = 1 ∧ c.toLower.isUpper = false) := by
  by_cases capital : c.val ≥ 'A'.val ∧ c.val ≤ 'Z'.val
  · have letters : ∀ n : Fin 26, (Char.ofNat (65 + n)).utf8Size = 1 ∧
        (Char.ofNat (65 + n)).toLower.utf8Size = 1 ∧
        (Char.ofNat (65 + n)).toLower.isUpper = false := by decide
    have bounds : 65 ≤ c.toNat ∧ c.toNat ≤ 90 := by
      simpa [UInt32.le_iff_toNat_le] using capital
    have letter := letters ⟨c.toNat - 65, by omega⟩
    rw [Nat.add_sub_cancel' bounds.1, Char.ofNat_toNat] at letter
    exact .inr letter
  · have lower : c.isUpper = false := decide_eq_false capital
    exact .inl ⟨lower, toLower_of_isUpper lower⟩

private theorem utf8ByteSize_map_toLower (cs : List Char) :
    (String.ofList (cs.map Char.toLower)).utf8ByteSize = (String.ofList cs).utf8ByteSize := by
  induction cs with
  | nil => rfl
  | cons c cs ih =>
    have size : c.toLower.utf8Size = c.utf8Size := by
      rcases toLower_cases c with ⟨_, same⟩ | ⟨size, size', _⟩
      · rw [same]
      · rw [size, size']
    simp only [List.map_cons, String.ofList_cons, String.utf8ByteSize_append,
      String.utf8ByteSize_singleton, size, ih]

private theorem utf8Size_of_isPrefix {hrp : List Char} (visible : isPrefix hrp = true) :
    ∀ c ∈ hrp, c.utf8Size = 1 := by
  intro c member
  have ascii := List.all_eq_true.mp (Bool.and_eq_true_iff.mp visible).2 c member
  simp only [Bool.and_eq_true, decide_eq_true_eq] at ascii
  have byte : c.val ≤ 127 := UInt32.le_iff_toNat_le.mpr (by exact Nat.le_succ_of_le ascii.2)
  exact Char.utf8Size_eq_one_iff.mpr byte

/-- Every text of a program under a short prefix is short enough to be read. -/
private theorem utf8ByteSize_le {hrp text : String} {version : Nat} {program : Bytes}
    (visible : isPrefix hrp.toList = true) (short : hrp.length ≤ 18)
    (written : encode? hrp version program = some text.toLower) :
    text.utf8ByteSize ≤ maxLength := by
  obtain ⟨known, allowed, spelled⟩ := encode?_eq_some_iff.mp written
  have sizes : 2 ≤ program.length ∧ program.length ≤ 40 := by
    simp only [isAllowed, Bool.and_eq_true, decide_eq_true_eq] at allowed
    exact allowed.1
  have digits := length_toDigits_le (Nat.zero_le 4) 0 program
  have six : (checksum hrp.toList version (version :: toDigits 0 0 program)).length = 6 := rfl
  have ascii : ∀ c ∈ text.toLower.toList, c.utf8Size = 1 := by
    rw [spelled]
    exact List.forall_mem_append.mpr ⟨utf8Size_of_isPrefix visible, List.forall_mem_cons.mpr
      ⟨by decide, fun c member => (of_mem_spell (digits_lt known _ _) c member).1⟩⟩
  have lower : text.toLower.toList = text.toList.map Char.toLower := String.toList_map
  have size := Ascii.utf8ByteSize_ofList ascii
  rw [lower, utf8ByteSize_map_toLower, String.ofList_toList, ← lower, spelled] at size
  rw [size, maxLength]
  simp only [List.length_append, List.length_cons, spell, List.length_map, six,
    String.length_toList]
  omega

section Short

variable {hrp : String} (visible : isPrefix hrp.toList = true) (short : hrp.length ≤ 18)
include visible short

/-- Under a short prefix a text is read as a program exactly when it is of one case, and lower case
makes it the text of the program. -/
theorem decode?_eq_some_iff_of_short {text : String} {version : Nat} {program : Bytes} :
    decode? text = some ⟨hrp, version, program⟩ ↔
      isUniform text.toList = true ∧ encode? hrp version program = some text.toLower := by
  rw [decode?_eq_some_iff]
  constructor
  · rintro ⟨_, uniform, _, written⟩
    exact ⟨uniform, written⟩
  · rintro ⟨uniform, written⟩
    exact ⟨utf8ByteSize_le visible short written, uniform, visible, written⟩

/-- The text of a program under a short lowercase prefix is read as the program. -/
theorem decode?_encode? (lower : ∀ c ∈ hrp.toList, c.isUpper = false) {text : String}
    {version : Nat} {program : Bytes} (written : encode? hrp version program = some text) :
    decode? text = some ⟨hrp, version, program⟩ := by
  obtain ⟨known, _, spelled⟩ := encode?_eq_some_iff.mp written
  have plain : ∀ c ∈ text.toList, c.isUpper = false := by
    rw [spelled]
    exact List.forall_mem_append.mpr ⟨lower, List.forall_mem_cons.mpr
      ⟨by decide, fun c member => (of_mem_spell (digits_lt known _ _) c member).2.1⟩⟩
  have uniform : isUniform text.toList = true := by
    have none : text.toList.any Char.isUpper = false :=
      List.any_eq_false.mpr fun c member => by rw [plain c member]; decide
    simp [isUniform, none]
  have same : text.toLower = text := by
    rw [← String.toList_inj]
    change (text.map Char.toLower).toList = text.toList
    rw [String.toList_map]
    refine (List.map_congr_left fun c member => ?_).trans (List.map_id _)
    exact toLower_of_isUpper (plain c member)
  exact (decode?_eq_some_iff_of_short visible short).mpr ⟨uniform, by rw [same, written]⟩

end Short

end Text

end Custody.Bech32
