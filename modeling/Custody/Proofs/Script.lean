import Custody.Script

/-! # Shapes of scripts

The scripts that the program writes have the shapes that it recognizes: locking scripts are of
standard templates.
-/

namespace Custody

namespace Script

theorem length_payToWitness (version : Nat) (program : Bytes) :
    (payToWitness version program).length = program.length + 2 := rfl

theorem isProgram_eq_true_iff {opcode : UInt8} {size : Nat} {script : Script} :
    isProgram opcode size script = true ↔ ∃ program : Bytes,
      program.length = size ∧ opcode :: UInt8.ofNat size :: program = script := by
  unfold isProgram
  split
  · rename_i a b program
    simp only [Bool.and_eq_true, decide_eq_true_eq, List.cons.injEq]
    constructor
    · rintro ⟨⟨rfl, rfl⟩, length⟩
      exact ⟨program, length, rfl, rfl, rfl⟩
    · rintro ⟨_, length, rfl, rfl, rfl⟩
      exact ⟨⟨rfl, rfl⟩, length⟩
  · rename_i short
    simp only [Bool.false_eq_true, false_iff, not_exists, not_and]
    rintro program _ rfl
    exact short _ _ _ rfl

/-- The scripts that pay to a hash in the witness are those of version 0 with 20 or 32 bytes. -/
theorem isWitnessHash_iff {script : Script} :
    (script.isWitnessPubkeyHash || script.isWitnessScriptHash) = true ↔
      ∃ program : Bytes, (program.length = 20 ∨ program.length = 32) ∧
        payToWitness 0 program = script := by
  simp only [isWitnessPubkeyHash, isWitnessScriptHash, Bool.or_eq_true, isProgram_eq_true_iff,
    payToWitness]
  constructor
  · rintro (⟨program, length, rfl⟩ | ⟨program, length, rfl⟩)
    · exact ⟨program, .inl length, by rw [length]; rfl⟩
    · exact ⟨program, .inr length, by rw [length]; rfl⟩
  · rintro ⟨program, length | length, rfl⟩
    · exact .inl ⟨program, length, by rw [length]; rfl⟩
    · exact .inr ⟨program, length, by rw [length]; rfl⟩

theorem isPubkeyHash_payToPubkeyHash {hash : Bytes} (size : hash.length = 20) :
    isPubkeyHash (payToPubkeyHash hash) = true := by
  simp [isPubkeyHash, payToPubkeyHash, size]

theorem isScriptHash_payToScriptHash {hash : Bytes} (size : hash.length = 20) :
    isScriptHash (payToScriptHash hash) = true := by
  simp [isScriptHash, payToScriptHash, size]

theorem payToPubkeyHash_inj {a b : Bytes} : payToPubkeyHash a = payToPubkeyHash b ↔ a = b := by
  simp [payToPubkeyHash]

theorem payToScriptHash_inj {a b : Bytes} : payToScriptHash a = payToScriptHash b ↔ a = b := by
  simp [payToScriptHash]

theorem payToPubkeyHash_ne_payToScriptHash (a b : Bytes) :
    payToPubkeyHash a ≠ payToScriptHash b := by
  simp [payToPubkeyHash, payToScriptHash]

/-- The scripts of a template: those that pay to a hash or key of its size. -/
inductive Template.Instance : Template → Script → Prop
  | pubkeyHash {hash : Bytes} (size : hash.length = 20) :
      Instance .pubkeyHash (payToPubkeyHash hash)
  | scriptHash {hash : Bytes} (size : hash.length = 20) :
      Instance .scriptHash (payToScriptHash hash)
  | witnessPubkeyHash {hash : Bytes} (size : hash.length = 20) :
      Instance .witnessPubkeyHash (payToWitness 0 hash)
  | witnessScriptHash {hash : Bytes} (size : hash.length = 32) :
      Instance .witnessScriptHash (payToWitness 0 hash)
  | taproot {key : Bytes} (size : key.length = 32) : Instance .taproot (payToWitness 1 key)

/-- Whether a script pays to a witness program of any version. -/
def PaysToWitness (script : Script) : Prop :=
  ∃ version program, version ≤ 16 ∧ 2 ≤ program.length ∧ program.length ≤ 40 ∧
    payToWitness version program = script

private theorem isPubkeyHash_eq_true_iff {script : Script} :
    script.isPubkeyHash = true ↔
      ∃ hash : Bytes, hash.length = 20 ∧ payToPubkeyHash hash = script := by
  constructor
  · intro matched
    simp only [isPubkeyHash, Bool.and_eq_true, decide_eq_true_eq] at matched
    obtain ⟨⟨length, first⟩, last⟩ := matched
    refine ⟨(script.drop 3).take 20, by simp [length], ?_⟩
    have rest : script.drop 3 = (script.drop 3).take 20 ++ script.drop 23 := by
      rw [← List.drop_drop (i := 20) (j := 3), List.take_append_drop]
    rw [payToPubkeyHash, ← first, ← last, List.append_assoc, ← rest, List.take_append_drop]
  · rintro ⟨hash, size, rfl⟩
    exact isPubkeyHash_payToPubkeyHash size

private theorem isScriptHash_eq_true_iff {script : Script} :
    script.isScriptHash = true ↔
      ∃ hash : Bytes, hash.length = 20 ∧ payToScriptHash hash = script := by
  constructor
  · intro matched
    simp only [isScriptHash, Bool.and_eq_true, decide_eq_true_eq] at matched
    obtain ⟨⟨length, first⟩, last⟩ := matched
    refine ⟨(script.drop 2).take 20, by simp [length], ?_⟩
    have rest : script.drop 2 = (script.drop 2).take 20 ++ script.drop 22 := by
      rw [← List.drop_drop (i := 20) (j := 2), List.take_append_drop]
    rw [payToScriptHash, ← first, ← last, List.append_assoc, ← rest, List.take_append_drop]
  · rintro ⟨hash, size, rfl⟩
    exact isScriptHash_payToScriptHash size

/-- A script is recognized as of a template exactly when it is one of the template's. -/
theorem template?_eq_some_iff {script : Script} {template : Template} :
    script.template? = some template ↔ template.Instance script := by
  constructor
  · intro found
    unfold template? at found
    split at found
    · rename_i matched
      obtain ⟨hash, size, rfl⟩ := isPubkeyHash_eq_true_iff.mp matched
      cases found
      exact .pubkeyHash size
    split at found
    · rename_i matched
      obtain ⟨hash, size, rfl⟩ := isScriptHash_eq_true_iff.mp matched
      cases found
      exact .scriptHash size
    split at found
    · rename_i matched
      obtain ⟨hash, size, rfl⟩ := isProgram_eq_true_iff.mp matched
      cases found
      rw [← size]
      exact .witnessPubkeyHash size
    split at found
    · rename_i matched
      obtain ⟨hash, size, rfl⟩ := isProgram_eq_true_iff.mp matched
      cases found
      rw [← size]
      exact .witnessScriptHash size
    split at found
    · rename_i matched
      obtain ⟨key, size, rfl⟩ := isProgram_eq_true_iff.mp matched
      cases found
      rw [← size]
      exact .taproot size
    · cases found
  · intro shape
    cases shape with
    | pubkeyHash size => rw [template?, if_pos (isPubkeyHash_payToPubkeyHash size)]
    | @scriptHash hash size =>
      simp [template?, isPubkeyHash, isScriptHash, payToScriptHash, size]
    | @witnessPubkeyHash hash size =>
      simp [template?, isPubkeyHash, isScriptHash, isWitnessPubkeyHash, isProgram, payToWitness,
        versionOpcode, size]
    | @witnessScriptHash hash size =>
      simp [template?, isPubkeyHash, isScriptHash, isWitnessPubkeyHash, isWitnessScriptHash,
        isProgram, payToWitness, versionOpcode, size]
    | @taproot key size =>
      simp [template?, isPubkeyHash, isScriptHash, isWitnessPubkeyHash, isWitnessScriptHash,
        isTaproot, isProgram, payToWitness, versionOpcode, size]

/-- Witness programs of the known versions and sizes are of standard templates. -/
theorem isSome_template?_payToWitness {version : Nat} {program : Bytes}
    (known : version = 0 ∧ (program.length = 20 ∨ program.length = 32) ∨
      version = 1 ∧ program.length = 32) :
    (template? (payToWitness version program)).isSome = true := by
  rcases known with ⟨rfl, size | size⟩ | ⟨rfl, size⟩
  · rw [template?_eq_some_iff.mpr (.witnessPubkeyHash size)]
    rfl
  · rw [template?_eq_some_iff.mpr (.witnessScriptHash size)]
    rfl
  · rw [template?_eq_some_iff.mpr (.taproot size)]
    rfl

/-- The opcodes that push a witness version are those of the versions up to 16. -/
private theorem exists_versionOpcode_iff {opcode : UInt8} :
    (∃ version, version ≤ 16 ∧ versionOpcode version = opcode) ↔
      opcode = 0 ∨ 0x51 ≤ opcode ∧ opcode ≤ 0x60 := by
  constructor
  · rintro ⟨version, small, rfl⟩
    decide +revert
  · rintro (rfl | ⟨least, most⟩)
    · exact ⟨0, by decide, rfl⟩
    · have above : 0x51 ≤ opcode.toNat := UInt8.le_iff_toNat_le.mp least
      have below : opcode.toNat ≤ 0x60 := UInt8.le_iff_toNat_le.mp most
      refine ⟨opcode.toNat - 0x50, by omega, ?_⟩
      rw [versionOpcode, if_neg (by omega), Nat.add_sub_cancel' (by omega), UInt8.ofNat_toNat]

theorem isWitnessProgram_eq_true_iff {script : Script} :
    script.isWitnessProgram = true ↔ script.PaysToWitness := by
  unfold isWitnessProgram
  split
  · rename_i opcode size program
    simp only [Bool.and_eq_true, Bool.or_eq_true, decide_eq_true_eq]
    constructor
    · rintro ⟨⟨⟨known, length⟩, least⟩, most⟩
      obtain ⟨version, small, rfl⟩ := exists_versionOpcode_iff.mpr known
      refine ⟨version, program, small, least, most, ?_⟩
      rw [payToWitness, length, UInt8.ofNat_toNat]
    · rintro ⟨version, _, small, least, most, same⟩
      simp only [payToWitness, List.cons.injEq] at same
      obtain ⟨rfl, rfl, rfl⟩ := same
      have known := exists_versionOpcode_iff.mp ⟨version, small, rfl⟩
      exact ⟨⟨⟨known, (UInt8.toNat_ofNat_of_lt' (by simp only [UInt8.size]; omega)).symm⟩, least⟩,
        most⟩
  · rename_i short
    simp only [Bool.false_eq_true, false_iff]
    rintro ⟨version, program, _, _, _, rfl⟩
    exact short _ _ _ rfl

theorem isWitnessProgram_payToWitness {program : Bytes}
    (size : program.length = 20 ∨ program.length = 32) :
    isWitnessProgram (payToWitness 0 program) = true :=
  isWitnessProgram_eq_true_iff.mpr ⟨0, program, Nat.zero_le 16, by omega, by omega, rfl⟩

/-- Null data begins with an opcode that no other script of these begins with. -/
theorem isNullData_eq_false {opcode : UInt8} {rest : Script} (other : opcode ≠ 0x6a) :
    isNullData (opcode :: rest) = false := by
  unfold isNullData
  split
  · rename_i same
    simp only [List.cons.injEq] at same
    exact absurd same.1 other
  · rfl

end Script

end Custody
