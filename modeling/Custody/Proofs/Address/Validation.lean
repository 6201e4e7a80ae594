import Custody.Proofs.Address

/-! # Valid addresses that nothing is paid to

Every text that can be paid to on a network is a valid address of it. The converse fails for witness
programs alone: their prefix makes a text valid, and only the script asks for their version and
size.
-/

namespace Custody.Address

variable {text : String} {network : Network} {script : Script} {version : Nat} {program : Bytes}

/-- The failure to pay to a witness program of a version and size that no script is known for. -/
def unsupported (version bytes : Nat) : Error :=
  .invalidAddress s!"unsupported witness program v{version} with {bytes} bytes"

/-- The failure to read a text as an address to pay to on a network. -/
def unreadable (text : String) (network : Network) (reason : Error) : Error :=
  .invalidAddress s!"{network.name} address {text}: {reason.message}"

theorem parse_eq_ok_iff : parse text network = .ok script ↔ toScript text network = .ok script := by
  unfold parse
  cases toScript text network <;> simp

theorem parse_eq_error {failure : Error} (failed : toScript text network = .error failure) :
    parse text network = .error (unreadable text network failure) := by
  rw [parse, failed]
  rfl

theorem programScript_eq_error (unpayable : ¬ Payable version program.length) :
    programScript version program = .error (.unsupportedProgram version program.length) := by
  unfold programScript
  split
  · rename_i known
    simp only [Bool.or_eq_true, Bool.and_eq_true, decide_eq_true_eq] at known
    exact absurd known unpayable
  · rfl

theorem script_witness (network : Network) (version : Nat) (program : Bytes) :
    Address.script (.witness ⟨network.params.hrp, version, program⟩) network =
      programScript version program :=
  if_neg (not_not.mpr rfl)

/-- An address of a network pays to a script there, or is a witness program without one. -/
theorem script_of_belongsTo {address : Address} (belongs : address.belongsTo network = true) :
    (∃ script, address.script network = .ok script) ∨
      ∃ version program, address = .witness ⟨network.params.hrp, version, program⟩ ∧
        ¬ Payable version program.length := by
  cases address with
  | witness program =>
    obtain ⟨hrp, version, program⟩ := program
    obtain rfl : hrp = network.params.hrp := by simpa [belongsTo] using belongs
    by_cases payable : Payable version program.length
    · left
      rw [script_witness]
      exact ⟨_, programScript_eq_ok_iff.mpr ⟨payable, rfl⟩⟩
    · exact .inr ⟨version, program, rfl, payable⟩
  | hashed version hash =>
    left
    simp only [belongsTo, Bool.or_eq_true, decide_eq_true_eq] at belongs
    simp only [Address.script]
    split
    · exact ⟨_, rfl⟩
    · rename_i other
      rw [if_pos (belongs.resolve_left other)]
      exact ⟨_, rfl⟩

theorem validate_eq_ok_true_iff :
    validate text network = .ok true ↔
      ∃ address, ofText text = .ok address ∧ address.belongsTo network = true := by
  unfold validate
  cases ofText text <;> simp

/-- A witness program of the network is valid whatever its version and size, but is only read if a
script is known for them. -/
theorem validate_parse_of_unpayable
    (found : Bech32.decode? text = some ⟨network.params.hrp, version, program⟩)
    (unpayable : ¬ Payable version program.length) :
    validate text network = .ok true ∧
      parse text network =
        .error (unreadable text network (unsupported version program.length)) := by
  have read : ofText text = .ok (.witness ⟨network.params.hrp, version, program⟩) :=
    ofText_eq_ok_iff.mpr (.inl ⟨_, rfl, found⟩)
  constructor
  · apply validate_eq_ok_true_iff.mpr
    exact ⟨_, read, decide_eq_true rfl⟩
  · apply parse_eq_error
    rw [toScript, read, Except.bind, script_witness, programScript_eq_error unpayable]
    rfl

/-- A text is a valid address of a network exactly when it can be paid to there, or is a witness
program of the network that no script is known for. There is such a text for every program of a
later version, other than those of taproot: it is valid and cannot be paid to. -/
theorem validate_exact (network : Network) :
    (∀ text, validate text network = .ok true ↔
      (∃ script, parse text network = .ok script) ∨
        ∃ version program, Bech32.decode? text = some ⟨network.params.hrp, version, program⟩ ∧
          ¬ Payable version program.length ∧
          parse text network =
            .error (unreadable text network (unsupported version program.length))) ∧
    ∀ version program, version ≤ 16 → Bech32.isAllowed version program.length = true →
      ¬ Payable version program.length →
        ∃ text, encodeWitness version program network = .ok text ∧
          validate text network = .ok true ∧
          parse text network =
            .error (unreadable text network (unsupported version program.length)) := by
  refine ⟨fun text => ⟨fun valid => ?_, ?_⟩, fun version program known allowed unpayable => ?_⟩
  · obtain ⟨address, read, belongs⟩ := validate_eq_ok_true_iff.mp valid
    rcases script_of_belongsTo belongs with ⟨script, paid⟩ | ⟨version, program, rfl, unpayable⟩
    · left
      exact ⟨script, parse_eq_ok_iff.mpr (toScript_eq_ok_iff_ofText.mpr ⟨address, read, paid⟩)⟩
    · right
      obtain ⟨_, ⟨⟩, found⟩ | ⟨_, _, ⟨⟩, _⟩ := ofText_eq_ok_iff.mp read
      exact ⟨version, program, found, unpayable, (validate_parse_of_unpayable found unpayable).2⟩
  · rintro (⟨script, paid⟩ | ⟨version, program, found, unpayable, _⟩)
    · obtain ⟨address, read, paid⟩ := toScript_eq_ok_iff_ofText.mp (parse_eq_ok_iff.mp paid)
      exact validate_eq_ok_true_iff.mpr ⟨address, read, belongsTo_of_script paid⟩
    · exact (validate_parse_of_unpayable found unpayable).1
  · obtain ⟨text, written⟩ :
        ∃ text, Bech32.encode? network.params.hrp version program = some text := by
      simp [Bech32.encode?, known, allowed]
    have found := Bech32.decode?_encode? (isPrefix_hrp network) (length_hrp_le network)
      (isUpper_hrp network) written
    refine ⟨text, ?_, validate_parse_of_unpayable found unpayable⟩
    rw [encodeWitness, if_neg (by omega), written]

theorem validate_exact_zeros :
    (∃ text, encodeWitness 1 (List.replicate 20 0) .litecoin = .ok text ∧
      validate text .litecoin = .ok true ∧
      parse text .litecoin = .error (unreadable text .litecoin (unsupported 1 20))) ∧
    validate "1111111111111111111114oLvT2" .bitcoin = .ok true := by
  have paid : parse "1111111111111111111114oLvT2" .bitcoin =
      .ok (Script.payToPubkeyHash (List.replicate 20 0)) := by decide +kernel
  obtain ⟨valid, _⟩ := validate_exact .bitcoin
  obtain ⟨_, unpayable⟩ := validate_exact .litecoin
  exact ⟨unpayable 1 (List.replicate 20 0) (by decide) (by decide) (by decide),
    (valid _).mpr (.inl ⟨_, paid⟩)⟩

set_option maxRecDepth 2048 in
/-- The address of a witness program of version 2 is valid, but is not read as one to pay to. -/
theorem valid_unpayable :
    validate "bc1zw508d6qejxtdg4y5r3zarvaryvaxxpcs" .bitcoin = .ok true ∧
      parse "bc1zw508d6qejxtdg4y5r3zarvaryvaxxpcs" .bitcoin =
        .error (unreadable "bc1zw508d6qejxtdg4y5r3zarvaryvaxxpcs" .bitcoin (unsupported 2 16)) := by
  have found : Bech32.decode? "bc1zw508d6qejxtdg4y5r3zarvaryvaxxpcs" =
      some ⟨Network.bitcoin.params.hrp, 2,
        Bytes.ofNatBE 16 0x751e76e8199196d454941c45d1b3a323⟩ := by decide
  have unpayable := validate_parse_of_unpayable found (by rw [Bytes.length_ofNatBE]; decide)
  rwa [Bytes.length_ofNatBE] at unpayable

end Custody.Address
