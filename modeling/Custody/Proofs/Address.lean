import Custody.Address
import Custody.Proofs.Script
import Custody.Proofs.Text.Base58
import Custody.Proofs.Text.Bech32

/-! # Addresses and the scripts that they pay to

A text pays to a script on a network exactly when it spells the script there: as the text that is
written for its hash and version byte, or in one case or the other as the text that is written for
its witness program. No text pays on two networks, and no script has two texts on a network but for
the case of the letters of a witness address.
-/

namespace Custody

namespace Address

open Script

variable {text : String} {network : Network} {script : Script}

/-- Whether witness programs of a version and size have addresses that pay to them. -/
def Payable (version size : Nat) : Prop :=
  version = 0 ∧ (size = 20 ∨ size = 32) ∨ version = 1 ∧ size = 32

instance (version size : Nat) : Decidable (Payable version size) :=
  inferInstanceAs (Decidable (_ ∨ _))

/-- How a text spells a script on a network. -/
inductive Spells (network : Network) (text : String) : Script → Prop
  | pubkeyHash {hash : Bytes} (size : hash.length = 20)
      (written : encodeHashed network.params.pubkeyHashVersion hash = text)
      (noWitness : Bech32.decode? text = none) : Spells network text (payToPubkeyHash hash)
  | scriptHash {hash : Bytes} (size : hash.length = 20)
      (written : encodeHashed network.params.scriptHashVersion hash = text)
      (noWitness : Bech32.decode? text = none) : Spells network text (payToScriptHash hash)
  | program {version : Nat} {program : Bytes} (payable : Payable version program.length)
      (uniform : Bech32.isUniform text.toList = true)
      (written : encodeWitness version program network = .ok text.toLower) :
      Spells network text (payToWitness version program)

theorem isPrefix_hrp (network : Network) :
    Bech32.isPrefix network.params.hrp.toList = true := by
  cases network <;> decide

theorem length_hrp_le (network : Network) : network.params.hrp.length ≤ 18 := by
  cases network <;> decide

theorem isUpper_hrp (network : Network) :
    ∀ c ∈ network.params.hrp.toList, c.isUpper = false := by
  have all : network.params.hrp.toList.all (!·.isUpper) = true := by
    cases network <;> decide
  simpa only [List.all_eq_true, Bool.not_eq_true'] using all

theorem programScript_eq_ok_iff {version : Nat} {program : Bytes} :
    programScript version program = .ok script ↔
      Payable version program.length ∧ payToWitness version program = script := by
  unfold programScript
  split
  · rename_i known
    simp only [Bool.or_eq_true, Bool.and_eq_true, decide_eq_true_eq] at known
    simp [Payable, known]
  · rename_i unknown
    simp only [Bool.or_eq_true, Bool.and_eq_true, decide_eq_true_eq] at unknown
    simp [Payable, unknown]

theorem encodeWitness_eq_ok_iff {version : Nat} {program : Bytes}
    (payable : Payable version program.length) :
    encodeWitness version program network = .ok text ↔
      Bech32.encode? network.params.hrp version program = some text := by
  have known : ¬ 32 ≤ version := by
    rcases payable with ⟨rfl, _⟩ | ⟨rfl, _⟩ <;> decide
  rw [encodeWitness, if_neg known]
  split
  · rename_i found
    simp [found]
  · rename_i missing
    simp [missing]

/-- Reading an address either finds a witness program, or else a hash behind a version byte. -/
theorem ofText_eq_ok_iff {address : Address} :
    ofText text = .ok address ↔
      (∃ program, address = .witness program ∧ Bech32.decode? text = some program) ∨
        ∃ version hash, address = .hashed version hash ∧ hash.length = 20 ∧
          encodeHashed version hash = text ∧ Bech32.decode? text = none := by
  unfold ofText
  split
  · rename_i program found
    simp [found, eq_comm]
  · rename_i none
    simp only [none, reduceCtorEq, and_false, exists_false, and_true, false_or]
    constructor
    · intro read
      split at read
      · cases read
      · cases read
      · rename_i version hash decoded
        split at read
        · rename_i size
          cases read
          exact ⟨version, hash, rfl, size, Base58.decode?_eq_some_iff.mp decoded⟩
        · cases read
    · rintro ⟨version, hash, rfl, size, written⟩
      simp only [Base58.decode?_eq_some_iff.mpr written, size, ↓reduceIte]

theorem toScript_eq_ok_iff_ofText :
    toScript text network = .ok script ↔
      ∃ address, ofText text = .ok address ∧ address.script network = .ok script := by
  unfold toScript
  cases ofText text with
  | error fault => simp [Except.bind]
  | ok address => cases paid : address.script network <;> simp [Except.bind, paid]

/-- A text pays to the scripts that it spells and to no others. -/
theorem toScript_eq_ok_iff :
    toScript text network = .ok script ↔ Spells network text script := by
  rw [toScript_eq_ok_iff_ofText]
  constructor
  · rintro ⟨address, read, paid⟩
    rcases ofText_eq_ok_iff.mp read with ⟨⟨hrp, version, program⟩, rfl, found⟩ |
      ⟨version, hash, rfl, size, written, noWitness⟩
    · simp only [Address.script] at paid
      split at paid
      · cases paid
      · rename_i own
        obtain rfl := Decidable.not_not.mp own
        obtain ⟨payable, rfl⟩ := programScript_eq_ok_iff.mp paid
        obtain ⟨uniform, written⟩ := (Bech32.decode?_eq_some_iff_of_short (isPrefix_hrp network)
          (length_hrp_le network)).mp found
        exact .program payable uniform ((encodeWitness_eq_ok_iff payable).mpr written)
    · simp only [Address.script] at paid
      split at paid
      · rename_i own
        cases paid
        exact .pubkeyHash size (own ▸ written) noWitness
      · split at paid
        · rename_i own
          cases paid
          exact .scriptHash size (own ▸ written) noWitness
        · cases paid
  · intro spelled
    cases spelled with
    | pubkeyHash size written noWitness =>
      exact ⟨_, ofText_eq_ok_iff.mpr (.inr ⟨_, _, rfl, size, written, noWitness⟩), if_pos rfl⟩
    | scriptHash size written noWitness =>
      have other : network.params.scriptHashVersion ≠ network.params.pubkeyHashVersion := by
        cases network <;> decide
      refine ⟨_, ofText_eq_ok_iff.mpr (.inr ⟨_, _, rfl, size, written, noWitness⟩), ?_⟩
      simp only [Address.script, other, ↓reduceIte]
    | @program version program payable uniform written =>
      have read := (Bech32.decode?_eq_some_iff_of_short (isPrefix_hrp network)
        (length_hrp_le network)).mpr ⟨uniform, (encodeWitness_eq_ok_iff payable).mp written⟩
      refine ⟨_, ofText_eq_ok_iff.mpr (.inl ⟨_, rfl, read⟩), ?_⟩
      simp only [Address.script, ne_eq, not_true_eq_false, ↓reduceIte]
      exact programScript_eq_ok_iff.mpr ⟨payable, rfl⟩

/-- The script that the text of an address pays to is of a standard template, and no null data. -/
theorem template?_of_toScript (paid : toScript text network = .ok script) :
    script.template?.isSome = true ∧ script.isNullData = false := by
  cases toScript_eq_ok_iff.mp paid with
  | pubkeyHash size _ _ =>
    rw [template?_eq_some_iff.mpr (.pubkeyHash size)]
    exact ⟨rfl, isNullData_eq_false (by decide)⟩
  | scriptHash size _ _ =>
    rw [template?_eq_some_iff.mpr (.scriptHash size)]
    exact ⟨rfl, isNullData_eq_false (by decide)⟩
  | program payable _ _ =>
    refine ⟨isSome_template?_payToWitness payable, isNullData_eq_false ?_⟩
    rcases payable with ⟨version, _⟩ | ⟨version, _⟩ <;> rw [version] <;> decide

/-- A witness program of a known version and size has an address, which pays to it. -/
theorem exists_encodeWitness (network : Network) {version : Nat} {program : Bytes}
    (payable : Payable version program.length) :
    ∃ text, encodeWitness version program network = .ok text ∧
      toScript text network = .ok (payToWitness version program) := by
  have known : version ≤ 16 := by
    rcases payable with ⟨rfl, _⟩ | ⟨rfl, _⟩ <;> decide
  have allowed : Bech32.isAllowed version program.length = true := by
    rcases payable with ⟨rfl, size | size⟩ | ⟨rfl, size⟩ <;> rw [size] <;> decide
  obtain ⟨text, written⟩ :
      ∃ text, Bech32.encode? network.params.hrp version program = some text := by
    simp [Bech32.encode?, known, allowed]
  have read := Bech32.decode?_encode? (isPrefix_hrp network) (length_hrp_le network)
    (isUpper_hrp network) written
  obtain ⟨uniform, lower⟩ := (Bech32.decode?_eq_some_iff_of_short (isPrefix_hrp network)
    (length_hrp_le network)).mp read
  exact ⟨text, (encodeWitness_eq_ok_iff payable).mpr written, toScript_eq_ok_iff.mpr
    (.program payable uniform ((encodeWitness_eq_ok_iff payable).mpr lower))⟩

section Unique

variable {hash program : Bytes} {version : Nat}

private theorem versionOpcode_of_payable {size : Nat} (payable : Payable version size) :
    versionOpcode version = 0x00 ∧ version = 0 ∨ versionOpcode version = 0x51 ∧ version = 1 := by
  rcases payable with ⟨rfl, _⟩ | ⟨rfl, _⟩
  · exact .inl ⟨rfl, rfl⟩
  · exact .inr ⟨rfl, rfl⟩

private theorem payToPubkeyHash_ne_payToWitness (payable : Payable version program.length) :
    payToPubkeyHash hash ≠ payToWitness version program := by
  rcases versionOpcode_of_payable payable with ⟨opcode, _⟩ | ⟨opcode, _⟩ <;>
    simp [payToPubkeyHash, payToWitness, opcode]

private theorem payToScriptHash_ne_payToWitness (payable : Payable version program.length) :
    payToScriptHash hash ≠ payToWitness version program := by
  rcases versionOpcode_of_payable payable with ⟨opcode, _⟩ | ⟨opcode, _⟩ <;>
    simp [payToScriptHash, payToWitness, opcode]

private theorem payToWitness_inj {version' : Nat} {program' : Bytes}
    (payable : Payable version program.length) (payable' : Payable version' program'.length)
    (same : payToWitness version program = payToWitness version' program') :
    version = version' ∧ program = program' := by
  simp only [payToWitness, List.cons.injEq] at same
  obtain ⟨opcode, _, rfl⟩ := same
  refine ⟨?_, rfl⟩
  rcases versionOpcode_of_payable payable with ⟨here, rfl⟩ | ⟨here, rfl⟩ <;>
    rcases versionOpcode_of_payable payable' with ⟨there, rfl⟩ | ⟨there, rfl⟩
  · rfl
  · simp [here, there] at opcode
  · simp [here, there] at opcode
  · rfl

theorem spells_payToPubkeyHash_iff (size : hash.length = 20) :
    Spells network text (payToPubkeyHash hash) ↔
      encodeHashed network.params.pubkeyHashVersion hash = text ∧ Bech32.decode? text = none := by
  refine ⟨fun spelled => ?_, fun ⟨written, noWitness⟩ => .pubkeyHash size written noWitness⟩
  generalize same : payToPubkeyHash hash = script at spelled
  cases spelled with
  | pubkeyHash _ written noWitness =>
    obtain rfl := payToPubkeyHash_inj.mp same
    exact ⟨written, noWitness⟩
  | scriptHash _ _ _ => exact absurd same (payToPubkeyHash_ne_payToScriptHash _ _)
  | program payable _ _ => exact absurd same (payToPubkeyHash_ne_payToWitness payable)

theorem spells_payToScriptHash_iff (size : hash.length = 20) :
    Spells network text (payToScriptHash hash) ↔
      encodeHashed network.params.scriptHashVersion hash = text ∧ Bech32.decode? text = none := by
  refine ⟨fun spelled => ?_, fun ⟨written, noWitness⟩ => .scriptHash size written noWitness⟩
  generalize same : payToScriptHash hash = script at spelled
  cases spelled with
  | pubkeyHash _ _ _ => exact absurd same.symm (payToPubkeyHash_ne_payToScriptHash _ _)
  | scriptHash _ written noWitness =>
    obtain rfl := payToScriptHash_inj.mp same
    exact ⟨written, noWitness⟩
  | program payable _ _ => exact absurd same (payToScriptHash_ne_payToWitness payable)

theorem spells_payToWitness_iff (payable : Payable version program.length) :
    Spells network text (payToWitness version program) ↔
      Bech32.isUniform text.toList = true ∧
        encodeWitness version program network = .ok text.toLower := by
  refine ⟨fun spelled => ?_, fun ⟨uniform, written⟩ => .program payable uniform written⟩
  generalize same : payToWitness version program = script at spelled
  cases spelled with
  | pubkeyHash _ _ _ => exact absurd same.symm (payToPubkeyHash_ne_payToWitness payable)
  | scriptHash _ _ _ => exact absurd same.symm (payToScriptHash_ne_payToWitness payable)
  | program payable' uniform written =>
    obtain ⟨rfl, rfl⟩ := payToWitness_inj payable payable' same
    exact ⟨uniform, written⟩

/-- Two texts of one script on a network are the same, or witness addresses but for the case of
their letters. -/
theorem Spells.text_eq {text' : String} (spelled : Spells network text script)
    (spelled' : Spells network text' script) :
    text = text' ∨ text.toLower = text'.toLower ∧ (Bech32.decode? text).isSome = true ∧
      (Bech32.decode? text').isSome = true := by
  cases spelled with
  | pubkeyHash size written _ =>
    exact .inl (written.symm.trans ((spells_payToPubkeyHash_iff size).mp spelled').1)
  | scriptHash size written _ =>
    exact .inl (written.symm.trans ((spells_payToScriptHash_iff size).mp spelled').1)
  | program payable uniform written =>
    obtain ⟨uniform', written'⟩ := (spells_payToWitness_iff payable).mp spelled'
    have read {text : String} (uniform : Bech32.isUniform text.toList = true)
        (written : encodeWitness _ _ network = .ok text.toLower) :=
      (Bech32.decode?_eq_some_iff_of_short (isPrefix_hrp network) (length_hrp_le network)).mpr
        ⟨uniform, (encodeWitness_eq_ok_iff payable).mp written⟩
    refine .inr ⟨Except.ok.inj (written.symm.trans written'), ?_, ?_⟩
    · rw [read uniform written, Option.isSome_some]
    · rw [read uniform' written', Option.isSome_some]

end Unique

section Foreign

variable {address : Address} {other : Network}

theorem belongsTo_of_script (paid : address.script network = .ok script) :
    address.belongsTo network = true := by
  cases address with
  | witness program =>
    simp only [Address.script] at paid
    split at paid
    · cases paid
    · rename_i own
      simpa [belongsTo] using own
  | hashed version hash =>
    simp only [Address.script] at paid
    simp only [belongsTo, Bool.or_eq_true, decide_eq_true_eq]
    split at paid
    · exact .inl ‹_›
    · split at paid
      · exact .inr ‹_›
      · cases paid

/-- The networks share no prefix and no version byte. -/
private theorem params_apart (differ : other ≠ network) :
    other.params.hrp ≠ network.params.hrp ∧
      ∀ version ∈ [network.params.pubkeyHashVersion, network.params.scriptHashVersion],
        version ≠ other.params.pubkeyHashVersion ∧ version ≠ other.params.scriptHashVersion := by
  rw [List.forall_mem_cons, List.forall_mem_singleton]
  cases network <;> cases other
  · exact absurd rfl differ
  · decide
  · decide
  · exact absurd rfl differ

private theorem belongsTo_eq_false (differ : other ≠ network)
    (belongs : address.belongsTo network = true) : address.belongsTo other = false := by
  obtain ⟨prefixes, versions⟩ := params_apart differ
  cases address with
  | witness program =>
    simp only [belongsTo, decide_eq_true_eq] at belongs
    simp [belongsTo, belongs, prefixes.symm]
  | hashed version hash =>
    simp only [belongsTo, Bool.or_eq_true, decide_eq_true_eq] at belongs
    have foreign := versions version (by simpa using belongs)
    simp [belongsTo, foreign]

/-- What pays on one network is an address of the other's and pays nothing there. -/
theorem foreign_of_toScript (differ : other ≠ network)
    (paid : toScript text network = .ok script) :
    (∀ script', toScript text other ≠ .ok script') ∧ validate text network = .ok true ∧
      validate text other = .ok false := by
  obtain ⟨address, read, paid⟩ := toScript_eq_ok_iff_ofText.mp paid
  have belongs := belongsTo_of_script paid
  have foreign := belongsTo_eq_false differ belongs
  refine ⟨fun script' paid' => ?_, ?_, ?_⟩
  · obtain ⟨address', read', paid'⟩ := toScript_eq_ok_iff_ofText.mp paid'
    obtain rfl : address = address' := Except.ok.inj (read.symm.trans read')
    rw [belongsTo_of_script paid'] at foreign
    cases foreign
  · simp only [validate, read, belongs]
  · simp only [validate, read, foreign]

end Foreign

/-- On a network a text pays exactly to the script that it spells, which is of a standard template.
No two texts spell one script but for the letter case of a witness address. Every witness program
of a known version and size has a text; so does every hash under each version byte, and the text
pays to the script of the hash unless it is a witness address as well. On the other network the
text pays to nothing, and is valid for this one only. -/
theorem toScript_exact (network : Network) :
    (∀ text script, toScript text network = .ok script ↔ Spells network text script) ∧
    (∀ text script, toScript text network = .ok script → script.template?.isSome = true) ∧
    (∀ text text' script, toScript text network = .ok script →
      toScript text' network = .ok script →
        text = text' ∨ text.toLower = text'.toLower ∧ (Bech32.decode? text).isSome = true ∧
          (Bech32.decode? text').isSome = true) ∧
    (∀ version program, Payable version program.length →
      ∃ text, encodeWitness version program network = .ok text ∧
        toScript text network = .ok (payToWitness version program)) ∧
    (∀ hash : Bytes, hash.length = 20 →
      (Bech32.decode? (encodeHashed network.params.pubkeyHashVersion hash) = none →
        toScript (encodeHashed network.params.pubkeyHashVersion hash) network =
          .ok (payToPubkeyHash hash)) ∧
      (Bech32.decode? (encodeHashed network.params.scriptHashVersion hash) = none →
        toScript (encodeHashed network.params.scriptHashVersion hash) network =
          .ok (payToScriptHash hash))) ∧
    ∀ other text script, other ≠ network → toScript text network = .ok script →
      (∀ script', toScript text other ≠ .ok script') ∧ validate text network = .ok true ∧
        validate text other = .ok false := by
  refine ⟨fun _ _ => toScript_eq_ok_iff, fun _ _ paid => (template?_of_toScript paid).1, ?_,
    fun _ _ payable => exists_encodeWitness network payable, fun hash size => ⟨?_, ?_⟩,
    fun _ _ _ differ paid => foreign_of_toScript differ paid⟩
  · intro text text' script paid paid'
    exact (toScript_eq_ok_iff.mp paid).text_eq (toScript_eq_ok_iff.mp paid')
  · intro noWitness
    exact toScript_eq_ok_iff.mpr (.pubkeyHash size rfl noWitness)
  · intro noWitness
    exact toScript_eq_ok_iff.mpr (.scriptHash size rfl noWitness)

/-- The address of the hash of all zeros on the first network: letters of both cases, and none of a
witness address. -/
theorem toScript_exact_zeros :
    toScript "1111111111111111111114oLvT2" .bitcoin =
        .ok (payToPubkeyHash (List.replicate 20 0)) ∧
      validate "1111111111111111111114oLvT2" .litecoin = .ok false ∧
      ∃ text, encodeWitness 1 (List.replicate 32 0) .litecoin = .ok text ∧
        toScript text .litecoin = .ok (payToWitness 1 (List.replicate 32 0)) := by
  have written : encodeHashed Network.bitcoin.params.pubkeyHashVersion (List.replicate 20 0) =
      "1111111111111111111114oLvT2" := by decide +kernel
  have noWitness : Bech32.decode? "1111111111111111111114oLvT2" = none := by decide
  obtain ⟨_, _, _, _, hashes, foreign⟩ := toScript_exact .bitcoin
  obtain ⟨_, _, _, programs, _, _⟩ := toScript_exact .litecoin
  have paid := (hashes (List.replicate 20 0) rfl).1 (written ▸ noWitness)
  rw [written] at paid
  exact ⟨paid, (foreign .litecoin _ _ (by decide) paid).2.2,
    programs 1 (List.replicate 32 0) (by decide)⟩

end Address

end Custody
