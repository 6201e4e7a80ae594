import Custody.Proofs.Assembly.Failures

/-! # Addresses stand for locking scripts

What is derived from the script of a coin is an address that pays to the coin's locking script, on
its own network and on no other. Coins have one address exactly when they have one locking script,
so a group of coins, which is only asked for one address, is a group with one locking script.
-/

namespace Custody

namespace Coin

variable {coin other : Coin} {network : Network}

theorem lock_eq_iff_program_eq : coin.lock = other.lock ↔ coin.program = other.program := by
  simp only [lock_eq, Script.payToWitness, List.cons.injEq, true_and]
  exact ⟨fun same => same.2, fun same => ⟨by rw [same], same⟩⟩

/-- On a network the address of a coin says as much as its locking script. -/
theorem address_eq_iff_lock_eq :
    coin.address network = other.address network ↔ coin.lock = other.lock := by
  refine ⟨lock_eq_of_address_eq, fun same => ?_⟩
  rw [address, address, lock_eq_iff_program_eq.mp same]

end Coin

namespace Spend

variable {script : Script} {backup : Bool} {sequence : UInt32} {network : Network} {spend : Spend}

/-- The coin with a script, of which nothing else is known. -/
private def coinOf (script : Script) (backup : Bool) (sequence : UInt32) : Coin where
  transactionHash := ""
  index := 0
  satoshi := 0
  script := script
  sequence := sequence
  routeBackup := backup

private theorem derive_eq_ok_iff :
    derive script backup sequence network = .ok spend ↔
      (script.length = 33 ∧ backup = false ∨ 100 < script.length) ∧
        (backup = true → sequence ≠ 0) ∧ (coinOf script backup sequence).spend network = spend := by
  change derive (coinOf script backup sequence).script _ _ network = .ok spend ↔ _
  exact Coin.derive_eq_ok_iff

/-- A spend is that of a coin with the script. -/
private theorem exists_coin (derived : derive script backup sequence network = .ok spend) :
    ∃ coin : Coin, coin.script = script ∧ coin.spend network = spend :=
  ⟨_, rfl, (derive_eq_ok_iff.mp derived).2.2⟩

private theorem exists_derive_iff :
    (∃ spend, derive script backup sequence network = .ok spend) ↔
      script.length = 33 ∧ backup = false ∨
        100 < script.length ∧ (backup = false ∨ sequence ≠ 0) := by
  simp only [derive_eq_ok_iff, exists_and_left, exists_eq', and_true]
  cases backup <;> simp

end Spend

namespace Assembly

variable {coin : Coin} {coins : List Coin} {network : Network} {tx : Transaction}
  {expected found : String}

/-- A single coin is never refused for its address. -/
private theorem addInput_ne_mixed :
    ((addInput coin network).runFrom tx).1 ≠ .error (.mixedInputAddress expected found) := by
  intro failed
  have concerns := failsOnly_addInput coin network tx _ _ (Prod.ext failed rfl)
  cases concerns.1

/-- A spend is refused for its address exactly when the group has another one. -/
private theorem take_eq_mixed_iff {group : Group} {spend : Spend} :
    group.take coin spend = .error (.mixedInputAddress expected found) ↔
      ∃ origin, group.origin = some origin ∧ origin.1 ≠ spend.address ∧
        expected = origin.1 ∧ found = spend.address := by
  rw [take_eq_error_iff]
  constructor
  · rintro (⟨origin, known, differs, refused⟩ | ⟨_, _, refused⟩)
    · cases refused
      exact ⟨origin, known, differs, rfl, rfl⟩
    · cases refused
  · rintro ⟨origin, known, differs, rfl, rfl⟩
    exact .inl ⟨origin, known, differs, rfl⟩

/-- A coin is refused for its address exactly if it can be spent and the group has another one. -/
private theorem round_eq_mixed_iff (tx : Transaction) {group : Group} {left : Transaction} :
    Stateful.runOn (do
        let spend ← addInput coin network
        (group.take coin spend : Except _ _)) tx =
        (.error (.mixedInputAddress expected found), left) ↔
      coin.Spendable ∧ (∃ origin, group.origin = some origin ∧
        origin.1 ≠ coin.address network ∧ expected = origin.1 ∧ found = coin.address network) ∧
        left = { tx with inputs := tx.inputs ++ [coin.input] } := by
  rw [runOn_joinOne_eq_error_iff, take_eq_mixed_iff]
  exact or_iff_right fun failed => addInput_ne_mixed (congrArg Prod.fst failed)

/-- Coins are refused for their addresses exactly at a coin with another locking script than the
first, if those in front of it can be added. -/
private theorem addInputs_eq_mixed_iff :
    ((addInputs coins network).runFrom tx).1 = .error (.mixedInputAddress expected found) ↔
      ∃ first before coin after, coins = first :: before ++ coin :: after ∧
        (∀ earlier ∈ first :: before, earlier.Spendable ∧ earlier.lock = first.lock) ∧
        Coin.total (first :: before) < 2 ^ 64 ∧ coin.Spendable ∧ coin.lock ≠ first.lock ∧
        expected = first.address network ∧ found = coin.address network := by
  constructor
  · intro failed
    obtain ⟨before, coin, after, group, left, rfl, run, failed⟩ :=
      Stateful.runOn_foldlM_eq_error_iff.mp (Prod.ext failed rfl)
    obtain ⟨spendable, oneAddress, fits, rfl, _⟩ := addInputs_eq_ok_iff.mp run
    obtain ⟨spendable', ⟨origin, known, differs, rfl, rfl⟩, _⟩ :=
      (round_eq_mixed_iff left).mp failed
    cases before with
    | nil => cases known
    | cons first before =>
      cases known
      refine ⟨first, before, coin, after, rfl, fun earlier member => ?_, fits, spendable',
        fun same => differs (Coin.address_eq_iff_lock_eq.mpr same.symm), rfl, rfl⟩
      exact ⟨spendable earlier member,
        (Coin.address_eq_iff_lock_eq.mp (oneAddress first rfl earlier member)).symm⟩
  · rintro ⟨first, before, coin, after, rfl, earlier, fits, spendable, differs, rfl, rfl⟩
    have oneAddress : ∀ head ∈ (first :: before).head?, ∀ coin ∈ first :: before,
        head.address network = coin.address network := by
      rintro _ ⟨⟩ coin member
      exact (Coin.address_eq_iff_lock_eq.mpr (earlier coin member).2).symm
    obtain ⟨middle, run⟩ : ∃ middle, (addInputs (first :: before) network).runFrom tx =
        (.ok (Group.join {} (first :: before) network), middle) :=
      ⟨_, addInputs_eq_ok_iff.mpr
        ⟨fun coin member => (earlier coin member).1, oneAddress, fits, rfl, rfl⟩⟩
    have other : (Group.join {} (first :: before) network).origin =
        some (first.address network, first.lock) := rfl
    have failed := (round_eq_mixed_iff middle).mpr ⟨spendable,
      ⟨_, other, fun same => differs (Coin.lock_eq_of_address_eq same).symm, rfl, rfl⟩, rfl⟩
    exact congrArg Prod.fst (Stateful.runOn_foldlM_eq_error_iff.mpr
      ⟨first :: before, coin, after, _, _, rfl, run, failed⟩)

end Assembly

namespace Spend

/-- A script is derived exactly when it is a compressed key without the backup route, or that of a
multisig account, with a lock if the backup route is taken. The address that is derived pays to the
locking script, the one of the script's own hash, and pays to nothing on the other network. Two
derived addresses are the same exactly when the locking scripts are, so coins are refused for a
second address exactly where there is a second locking script. -/
theorem derive_exact (network : Network) :
    (∀ script backup sequence, (∃ spend, derive script backup sequence network = .ok spend) ↔
      script.length = 33 ∧ backup = false ∨
        100 < script.length ∧ (backup = false ∨ sequence ≠ 0)) ∧
    (∀ script backup sequence spend, derive script backup sequence network = .ok spend →
      Address.toScript spend.address network = .ok spend.lock ∧
      spend.lock = (if script.length = 33 then 0x00 :: 0x14 :: Ripemd160.hash160 script
        else 0x00 :: 0x20 :: Sha256.hash script) ∧
      ∀ other, other ≠ network →
        ∃ failure, Address.toScript spend.address other = .error failure) ∧
    (∀ script backup sequence spend script' backup' sequence' spend',
      derive script backup sequence network = .ok spend →
      derive script' backup' sequence' network = .ok spend' →
        (spend.address = spend'.address ↔ spend.lock = spend'.lock)) ∧
    ∀ coins tx expected found,
      ((Assembly.addInputs coins network).runFrom tx).1 =
          .error (.mixedInputAddress expected found) ↔
        ∃ first before coin after, coins = first :: before ++ coin :: after ∧
          (∀ earlier ∈ first :: before, earlier.Spendable ∧ earlier.lock = first.lock) ∧
          Coin.total (first :: before) < 2 ^ 64 ∧ coin.Spendable ∧ coin.lock ≠ first.lock ∧
          expected = first.address network ∧ found = coin.address network := by
  refine ⟨fun _ _ _ => exists_derive_iff, ?_, ?_, fun _ _ _ _ => Assembly.addInputs_eq_mixed_iff⟩
  · intro script backup sequence spend derived
    obtain ⟨coin, rfl, rfl⟩ := exists_coin derived
    have paid := coin.toScript_address network
    refine ⟨paid, rfl, fun other differs => ?_⟩
    have foreign := (Address.foreign_of_toScript differs paid).1
    cases read : Address.toScript (coin.address network) other with
    | error failure => exact ⟨failure, read⟩
    | ok script => exact absurd read (foreign script)
  · intro script backup sequence spend script' backup' sequence' spend' derived derived'
    obtain ⟨coin, _, rfl⟩ := exists_coin derived
    obtain ⟨coin', _, rfl⟩ := exists_coin derived'
    exact Coin.address_eq_iff_lock_eq

/-- Two locks of one multisig account have one address, which is of its network alone. -/
theorem derive_exact_observer :
    ∃ spend spend', derive (List.replicate 101 0x51) true 7 .litecoin = .ok spend ∧
      derive (List.replicate 101 0x51) true 8 .litecoin = .ok spend' ∧
      Address.toScript spend.address .litecoin = .ok spend.lock ∧
      (∃ failure, Address.toScript spend.address .bitcoin = .error failure) ∧
      spend.address = spend'.address := by
  obtain ⟨accepted, pays, same, _⟩ := derive_exact .litecoin
  obtain ⟨spend, derived⟩ := (accepted (List.replicate 101 0x51) true 7).mpr (by decide)
  obtain ⟨spend', derived'⟩ := (accepted (List.replicate 101 0x51) true 8).mpr (by decide)
  obtain ⟨paid, lock, foreign⟩ := pays _ _ _ _ derived
  obtain ⟨_, lock', _⟩ := pays _ _ _ _ derived'
  exact ⟨spend, spend', derived, derived', paid, foreign .bitcoin (by decide),
    (same _ _ _ _ _ _ _ _ derived derived').mpr (lock.trans lock'.symm)⟩

end Spend

end Custody
