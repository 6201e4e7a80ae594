import Custody.Coin
import Custody.Proofs.Address
import Custody.Proofs.Except
import Custody.Proofs.Text.Hex

/-! # Coins that can be spent

A coin can be spent if it has a value, names its transaction, and has a script of one of the two
shapes. How it is spent then depends on the coin alone, and coins of one address have one locking
script.
-/

namespace Custody

/-- Identifiers are shown as 64 hexadecimal digits, and every 64 digits show one. -/
theorem Txid.exists_ofDisplay?_iff {text : String} :
    (∃ txid, ofDisplay? text = some txid) ↔
      text.length = 64 ∧ ∀ c ∈ text.toList, c.isHexDigit = true := by
  rw [show 64 = 2 * 32 from rfl, ← Hex.exists_decode_iff]
  unfold ofDisplay?
  split
  · rename_i fault read
    simp [read]
  · rename_i shown read
    simp only [read, Except.ok.injEq, exists_eq_left', List.length_reverse]
    constructor
    · rintro ⟨txid, found⟩
      split at found
      · assumption
      · cases found
    · intro size
      exact ⟨⟨shown.reverse, by rw [List.length_reverse, size]⟩, dif_pos size⟩

namespace Coin

/-- Whether a coin can be spent. -/
structure Spendable (coin : Coin) : Prop where
  valued : coin.satoshi ≠ 0
  /-- The transaction hash is 64 hexadecimal digits. -/
  named : coin.transactionHash.length = 64 ∧ ∀ c ∈ coin.transactionHash.toList, c.isHexDigit = true
  /-- The script is a compressed key without the backup route, or that of a multisig account. -/
  shaped : coin.script.length = 33 ∧ coin.routeBackup = false ∨ 100 < coin.script.length
  /-- The backup route has a lock. -/
  locked : coin.routeBackup = true → coin.sequence ≠ 0

/-- Identifier of the transaction that made the coin. -/
def txid (coin : Coin) : Txid :=
  (Txid.ofDisplay? coin.transactionHash).getD Txid.zero

/-- The output that the coin is. -/
def outPoint (coin : Coin) : OutPoint :=
  ⟨coin.txid, coin.index⟩

/-- The hash of the coin's script: of a key the hash of 20 bytes, of a witness script that of 32. -/
def program (coin : Coin) : Bytes :=
  if coin.script.length = 33 then Ripemd160.hash160 coin.script else Sha256.hash coin.script

/-- The locking script of the coin: version 0 and the push of the hash of its own script. -/
def lock (coin : Coin) : Script :=
  if coin.script.length = 33 then 0x00 :: 0x14 :: Ripemd160.hash160 coin.script
  else 0x00 :: 0x20 :: Sha256.hash coin.script

/-- The address of the coin on a network. -/
def address (coin : Coin) (network : Network) : String :=
  (Address.encodeWitness 0 coin.program network).toOption.getD ""

/-- The sequence of the input that spends the coin. -/
def inputSequence (coin : Coin) : UInt32 :=
  if coin.routeBackup then coin.sequence else 0xFFFFFFFF

/-- The input that spends the coin. -/
def input (coin : Coin) : TxIn :=
  { previous := coin.outPoint, sequence := coin.inputSequence }

/-- How the coin is spent on a network. -/
def spend (coin : Coin) (network : Network) : Spend where
  role :=
    if coin.script.length = 33 then .singleKey else if coin.routeBackup then .observer else .holder
  address := coin.address network
  lock := coin.lock
  witnessScript := if coin.script.length = 33 then coin.lock else coin.script
  sequence := coin.inputSequence

variable (coin : Coin) (network : Network)

theorem length_program : coin.program.length = 20 ∨ coin.program.length = 32 := by
  unfold program
  split
  · exact .inl (Ripemd160.length_hash160 _)
  · exact .inr (Sha256.length_hash _)

theorem payable_program : Address.Payable 0 coin.program.length :=
  .inl ⟨rfl, coin.length_program⟩

theorem lock_eq : coin.lock = Script.payToWitness 0 coin.program := by
  unfold lock program
  split <;> rfl

theorem isSome_template?_lock : coin.lock.template?.isSome = true := by
  rw [lock_eq]
  exact Script.isSome_template?_payToWitness (.inl ⟨rfl, coin.length_program⟩)

/-- The address of a coin pays to its locking script. -/
theorem toScript_address : Address.toScript (coin.address network) network = .ok coin.lock := by
  obtain ⟨text, written, paid⟩ := Address.exists_encodeWitness network coin.payable_program
  rw [address, written, lock_eq]
  exact paid

theorem encodeWitness_program :
    Address.encodeWitness 0 coin.program network = .ok (coin.address network) := by
  obtain ⟨text, written, _⟩ := Address.exists_encodeWitness network coin.payable_program
  rw [address, written]
  rfl

variable {coin network}

/-- Coins of one address have one locking script. -/
theorem lock_eq_of_address_eq {other : Coin}
    (same : coin.address network = other.address network) : coin.lock = other.lock := by
  have paid := coin.toScript_address network
  rw [same, other.toScript_address network, Except.ok.injEq] at paid
  exact paid.symm

/-- Who signs for a coin is known if the script has one of the two shapes. -/
private theorem classify_eq_ok_iff (network : Network) {role : Role} :
    Role.classify coin.script coin.routeBackup = .ok role ↔
      (coin.script.length = 33 ∧ coin.routeBackup = false ∨ 100 < coin.script.length) ∧
        (coin.spend network).role = role := by
  simp only [Role.classify, Role.multisigAbove, Role.keyLength, spend]
  by_cases long : 100 < coin.script.length
  · have notKey : coin.script.length ≠ 33 := by omega
    simp [long, notKey]
  · by_cases key : coin.script.length = 33 <;> cases coin.routeBackup <;> simp [long, key]

private theorem isMultisig_role : (coin.spend network).role.isMultisig =
    decide (coin.script.length ≠ 33) := by
  unfold spend
  by_cases key : coin.script.length = 33 <;> cases coin.routeBackup <;> simp [key, Role.isMultisig]

private theorem role_eq_observer_iff
    (shaped : coin.script.length = 33 ∧ coin.routeBackup = false ∨ 100 < coin.script.length) :
    (coin.spend network).role = .observer ↔ coin.routeBackup = true := by
  unfold spend
  rcases shaped with ⟨key, direct⟩ | long
  · simp [key, direct]
  · have notKey : coin.script.length ≠ 33 := by omega
    cases coin.routeBackup <;> simp [notKey]

theorem inputSequence_ne_zero_iff :
    coin.inputSequence ≠ 0 ↔ (coin.routeBackup = true → coin.sequence ≠ 0) := by
  unfold inputSequence
  cases coin.routeBackup <;> simp

private theorem derive_of_shaped (network : Network)
    (shaped : coin.script.length = 33 ∧ coin.routeBackup = false ∨ 100 < coin.script.length) :
    Spend.derive coin.script coin.routeBackup coin.sequence network =
      if coin.inputSequence = 0 then .error (.invalidSequence coin.sequence)
      else .ok (coin.spend network) := by
  have role := (classify_eq_ok_iff network).mpr ⟨shaped, rfl⟩
  have written := coin.encodeWitness_program network
  have program : (if (coin.spend network).role.isMultisig then Sha256.hash coin.script
      else Ripemd160.hash160 coin.script) = coin.program := by
    rw [isMultisig_role, Coin.program]
    by_cases key : coin.script.length = 33 <;> simp [key]
  have sequence : (if (coin.spend network).role = .observer then coin.sequence else 0xFFFFFFFF) =
      coin.inputSequence := by
    simp only [role_eq_observer_iff shaped]
    rfl
  have lock := coin.lock_eq.symm
  have witnessScript : (if (coin.spend network).role.isMultisig then coin.script else coin.lock) =
      (coin.spend network).witnessScript := by
    rw [isMultisig_role, spend]
    by_cases key : coin.script.length = 33 <;> simp [key]
  unfold Spend.derive
  simp only [role, bind, Except.bind, program, written, sequence, lock, witnessScript]
  split <;> rfl

/-- What is derived for a coin is derived if the script has one of the two shapes and the backup
route has a lock. -/
theorem derive_eq_ok_iff {spend : Spend} :
    Spend.derive coin.script coin.routeBackup coin.sequence network = .ok spend ↔
      (coin.script.length = 33 ∧ coin.routeBackup = false ∨ 100 < coin.script.length) ∧
        (coin.routeBackup = true → coin.sequence ≠ 0) ∧ coin.spend network = spend := by
  by_cases shaped : coin.script.length = 33 ∧ coin.routeBackup = false ∨ 100 < coin.script.length
  · rw [derive_of_shaped network shaped]
    by_cases locked : coin.routeBackup = true → coin.sequence ≠ 0
    · rw [if_neg (inputSequence_ne_zero_iff.mpr locked), Except.ok.injEq]
      exact ⟨fun same => ⟨shaped, locked, same⟩, fun derived => derived.2.2⟩
    · rw [if_pos (Decidable.not_not.mp (mt inputSequence_ne_zero_iff.mp locked))]
      exact ⟨fun derived => (nomatch derived), fun derived => absurd derived.2.1 locked⟩
  · refine ⟨fun derived => ?_, fun derived => absurd derived.1 shaped⟩
    obtain ⟨role, known, _⟩ := Except.bind_eq_ok_iff.mp derived
    exact absurd ((classify_eq_ok_iff network).mp known).1 shaped

theorem Spendable.derive (spendable : coin.Spendable) (network : Network) :
    Spend.derive coin.script coin.routeBackup coin.sequence network = .ok (coin.spend network) :=
  derive_eq_ok_iff.mpr ⟨spendable.shaped, spendable.locked, rfl⟩

end Coin

end Custody
