import Custody.Proofs.Request.Funds

/-! # Whether the fee is covered

The fee of an estimate is the rate times the size, or the largest amount if the product exceeds it.
An estimate that passes therefore has the exact product, and coins that pay it, unless the coins for
the fee are worth the largest amount themselves. Those pass at every rate.
-/

namespace Custody.Request

variable {request : Request} {feeCoins : List Coin} {rate : UInt64}

/-- Coins cover the fee if they are worth the exact product, or the largest amount. -/
private theorem fee_le_iff {size total : Nat} (fits : total < 2 ^ 64) :
    Fee.fee size rate ≤ UInt64.ofNat total ↔
      rate.toNat * size ≤ total ∨ total = 2 ^ 64 - 1 := by
  rw [UInt64.le_iff_toNat_le, toNat_fee, UInt64.toNat_ofNat_of_lt' fits]
  omega

/-- A fee that is covered is the exact product, unless it is the largest amount and all that the
coins are worth. -/
private theorem fee_eq_or {size total : Nat} (fits : total < 2 ^ 64)
    (covered : Fee.fee size rate ≤ UInt64.ofNat total) :
    rate.toNat * size = (Fee.fee size rate).toNat ∨
      2 ^ 64 ≤ rate.toNat * size ∧ (Fee.fee size rate).toNat = 2 ^ 64 - 1 ∧
        total = 2 ^ 64 - 1 := by
  rw [fee_le_iff fits] at covered
  rw [toNat_fee]
  omega

/-- An estimate passes if the coins for the fee can be added, the request can be assembled, and the
coins are worth the rate times the size or the largest amount. Then they are worth the fee, and the
fee is the exact product, unless both are the largest amount and the product exceeds it. -/
theorem estimateFee_covers (request : Request) (feeCoins : List Coin) (rate : UInt64) :
    (∀ estimate, request.estimateFee feeCoins rate = .ok estimate →
      estimate.fee.toNat ≤ Coin.total feeCoins ∧
        (rate.toNat * estimate.virtualSize = estimate.fee.toNat ∨
          2 ^ 64 ≤ rate.toNat * estimate.virtualSize ∧ estimate.fee.toNat = 2 ^ 64 - 1 ∧
            Coin.total feeCoins = 2 ^ 64 - 1)) ∧
    ((∃ estimate, request.estimateFee feeCoins rate = .ok estimate) ↔
      Coin.Addable feeCoins request.network ∧ request.Assembles ∧
        (rate.toNat * request.estimatedSize feeCoins ≤ Coin.total feeCoins ∨
          Coin.total feeCoins = 2 ^ 64 - 1)) := by
  constructor
  · intro estimate passed
    obtain ⟨addable, _, covered, rfl⟩ := estimateFee_eq_ok_iff.mp passed
    have paid := UInt64.le_iff_toNat_le.mp covered
    rw [UInt64.toNat_ofNat_of_lt' addable.total] at paid
    exact ⟨paid, fee_eq_or addable.total covered⟩
  · constructor
    · rintro ⟨estimate, passed⟩
      obtain ⟨addable, assembles, covered, _⟩ := estimateFee_eq_ok_iff.mp passed
      exact ⟨addable, assembles, (fee_le_iff addable.total).mp covered⟩
    · rintro ⟨addable, assembles, covered⟩
      exact ⟨_, estimateFee_eq_ok_iff.mpr
        ⟨addable, assembles, (fee_le_iff addable.total).mpr covered, rfl⟩⟩

/-- Another coin like that of the sweep pays a rate of 8 of its 224 bytes, and not one of 9. -/
theorem estimateFee_covers_sweep :
    (∃ estimate, sweep.estimateFee [generatorCoin] 8 = .ok estimate ∧
      8 * estimate.virtualSize = estimate.fee.toNat ∧
      estimate.fee.toNat ≤ Coin.total [generatorCoin]) ∧
    ¬ ∃ estimate, sweep.estimateFee [generatorCoin] 9 = .ok estimate := by
  have assembles := admissible_sweep.assembles
  have addable : Coin.Addable [generatorCoin] sweep.network :=
    ⟨assembles.coins, assembles.oneAddress, assembles.inputTotal⟩
  have worth : Coin.total [generatorCoin] ≠ 2 ^ 64 - 1 := by decide
  obtain ⟨covered, passes⟩ := estimateFee_covers sweep [generatorCoin] 8
  obtain ⟨estimate, passed⟩ := passes.mpr ⟨addable, assembles, .inl (by decide)⟩
  obtain ⟨paid, exact | ⟨_, _, total⟩⟩ := covered estimate passed
  · refine ⟨⟨estimate, passed, exact, paid⟩, fun short => ?_⟩
    obtain ⟨_, _, enough⟩ := (estimateFee_covers sweep [generatorCoin] 9).2.mp short
    exact absurd enough (by decide)
  · exact absurd total worth

/-- A coin of the largest amount. -/
def largestCoin : Coin :=
  { generatorCoin with satoshi := 0xFFFFFFFFFFFFFFFF }

/-- At a rate whose fee for 224 bytes exceeds the largest amount by 97, a coin of that amount passes
for its fee. -/
theorem estimateFee_uncovered :
    sweep.estimateFee [largestCoin] 82351536043346213 =
        .ok ⟨224, 0xFFFFFFFFFFFFFFFF, 0xFFFFFFFFFFFFFFFF⟩ ∧
      Coin.total [largestCoin] + 97 = (82351536043346213 : UInt64).toNat * 224 := by
  have spendable : largestCoin.Spendable :=
    { spendable_generatorCoin with valued := by decide }
  have addable : Coin.Addable [largestCoin] sweep.network := {
    spendable := List.forall_mem_singleton.mpr spendable
    oneAddress := by simp
    total := by decide }
  exact ⟨estimateFee_eq_ok_iff.mpr ⟨addable, admissible_sweep.assembles, by decide, by decide⟩,
    by decide⟩

end Custody.Request
