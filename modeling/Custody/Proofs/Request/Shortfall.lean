import Custody.Host
import Custody.Proofs.Request.Funds
import Mathlib.Algebra.Order.BigOperators.Group.List
import Mathlib.Algebra.Order.Group.Nat

/-! # What is missing is exact

A step of assembly takes coins without regard to what they are worth, as long as they are worth
something. So a request that is refused for want of funds, given again with one coin worth more,
comes to the comparison that failed, and passes it exactly when the coin is worth more by what was
missing.
-/

namespace Custody

/-- What a failure for want of funds tells whoever handles it: the amount that is required, what of
it is available, and what is missing. -/
structure Error.Reports (failure : Error) (required available missing : UInt64) : Prop where
  pos : 0 < missing
  sum : available.toNat + missing.toNat = required.toNat
  insufficient : failure.isInsufficient = true
  shortfall : failure.shortfall = missing
  toHost : failure.toHost = .insufficientFunds required available missing

section Amounts

variable {required available extra : UInt64}

private theorem toNat_missing (short : available < required) :
    (required - available).toNat = required.toNat - available.toNat :=
  UInt64.toNat_sub_of_le _ _ (UInt64.le_of_lt short)

private theorem missing_pos (short : available < required) : 0 < required - available := by
  rw [UInt64.lt_iff_toNat_lt, toNat_missing short]
  exact Nat.sub_pos_of_lt (UInt64.lt_iff_toNat_lt.mp short)

private theorem available_add_missing (short : available < required) :
    available.toNat + (required - available).toNat = required.toNat := by
  rw [toNat_missing short]
  exact Nat.add_sub_cancel' (Nat.le_of_lt (UInt64.lt_iff_toNat_lt.mp short))

theorem Error.reports_insufficientFee (short : available < required) :
    Reports (.insufficientFee required available) required available (required - available) where
  pos := missing_pos short
  sum := available_add_missing short
  insufficient := rfl
  shortfall := if_pos short
  toHost := by rw [toHost, shortfall, if_pos short]

theorem Error.reports_insufficientMain (short : available < required) :
    Reports (.insufficientMain available required) required available (required - available) where
  pos := missing_pos short
  sum := available_add_missing short
  insufficient := rfl
  shortfall := if_pos short
  toHost := by rw [toHost, shortfall, if_pos short]

theorem ofNat_add_toNat (total : Nat) (extra : UInt64) :
    UInt64.ofNat (total + extra.toNat) = UInt64.ofNat total + extra := by
  rw [UInt64.ofNat_add, UInt64.ofNat_toNat]

/-- A total that grows stays too low exactly if it grows by less than what is missing. -/
theorem ofNat_add_lt_iff {total : Nat} (short : UInt64.ofNat total < required)
    (fits : total + extra.toNat < 2 ^ 64) :
    UInt64.ofNat total + extra < required ↔ extra < required - UInt64.ofNat total := by
  have amount : total < UInt64.size := Nat.lt_of_le_of_lt (Nat.le_add_right ..) fits
  rw [UInt64.lt_iff_toNat_lt, UInt64.lt_iff_toNat_lt, toNat_missing short, UInt64.toNat_add,
    UInt64.toNat_ofNat_of_lt' amount, Nat.mod_eq_of_lt fits]
  omega

end Amounts

namespace Coin

/-- A coin that is worth more. -/
def raise (extra : UInt64) (coin : Coin) : Coin :=
  { coin with satoshi := coin.satoshi + extra }

variable {coins : List Coin} {network : Network} {extra : UInt64} {i : Nat}

theorem toNat_satoshi_le_total {coin : Coin} (member : coin ∈ coins) :
    coin.satoshi.toNat ≤ Coin.total coins :=
  List.le_sum_of_mem (List.mem_map_of_mem member)

theorem toNat_satoshi_raise {coin : Coin} (fits : coin.satoshi.toNat + extra.toNat < 2 ^ 64) :
    (coin.raise extra).satoshi.toNat = coin.satoshi.toNat + extra.toNat := by
  rw [raise, UInt64.toNat_add, Nat.mod_eq_of_lt fits]

/-- The total grows by what a coin does. -/
theorem total_modify_raise (within : i < coins.length)
    (fits : Coin.total coins + extra.toNat < 2 ^ 64) :
    Coin.total (coins.modify i (raise extra)) = Coin.total coins + extra.toNat := by
  induction coins generalizing i with
  | nil => cases within
  | cons coin coins ih =>
    have split (head : Coin) (tail : List Coin) :
        Coin.total (head :: tail) = head.satoshi.toNat + Coin.total tail := rfl
    rw [split] at fits ⊢
    cases i with
    | zero =>
      rw [List.modify_zero_cons, split, toNat_satoshi_raise (by omega)]
      omega
    | succ i =>
      rw [List.modify_succ_cons, split, ih (Nat.lt_of_succ_lt_succ within) (by omega)]
      omega

theorem Spendable.raise {coin : Coin} (spendable : coin.Spendable)
    (fits : coin.satoshi.toNat + extra.toNat < 2 ^ 64) : (coin.raise extra).Spendable where
  valued := by
    intro worthless
    have sum := toNat_satoshi_raise fits
    rw [worthless, UInt64.toNat_zero] at sum
    exact spendable.valued (UInt64.toNat_inj.mp (by rw [UInt64.toNat_zero]; omega))
  named := spendable.named
  shaped := spendable.shaped
  locked := spendable.locked

/-- Whatever one coin is worth, the coins are spent as before. -/
theorem exists_of_mem_modify_raise (network : Network) {raised : Coin}
    (member : raised ∈ coins.modify i (raise extra)) :
    ∃ coin ∈ coins, raised.address network = coin.address network ∧
      (raised = coin ∨ raised = coin.raise extra) := by
  obtain ⟨j, found⟩ := List.mem_iff_getElem?.mp member
  rw [List.getElem?_modify, Option.map_eq_map, Option.map_eq_some_iff] at found
  obtain ⟨coin, held, rfl⟩ := found
  refine ⟨coin, List.mem_of_getElem? held, ?_⟩
  split
  · exact ⟨rfl, .inr rfl⟩
  · exact ⟨rfl, .inl rfl⟩

/-- Coins that can be added still can if one of them is worth more. -/
theorem Addable.raise (addable : Addable coins network) (within : i < coins.length)
    (fits : Coin.total coins + extra.toNat < 2 ^ 64) :
    Addable (coins.modify i (raise extra)) network where
  spendable := by
    intro raised member
    obtain ⟨coin, held, _, rfl | rfl⟩ := exists_of_mem_modify_raise network member
    · exact addable.spendable _ held
    · have part := toNat_satoshi_le_total held
      exact (addable.spendable coin held).raise (by omega)
  oneAddress := by
    intro first head other member
    obtain ⟨coin, held, same, _⟩ := exists_of_mem_modify_raise network (List.mem_of_mem_head? head)
    obtain ⟨coin', held', same', _⟩ := exists_of_mem_modify_raise network member
    rw [same, same', addable.address_eq held held']
  total := by rwa [total_modify_raise within fits]

end Coin

namespace Host

variable {chain : Chain} {request : Request} {clock : UInt64} {failure : Error}

/-- The host sees why a request is not built. -/
theorem buildTransaction_eq_error (supported : chain.network? = some request.network)
    (failed : request.build clock = .error failure) :
    buildTransaction chain request.coins request.payments request.payload clock =
      .error failure.toHost := by
  rw [buildTransaction, Host.network, supported]
  change ((request.build clock).mapError Error.toHost >>= fun _ => _) = _
  rw [failed]
  rfl

/-- The host sees why a request is not estimated. -/
theorem estimateTransactionFee_eq_error {feeCoins : List Coin} {rate : UInt64}
    (supported : chain.network? = some request.network)
    (failed : request.estimateFee feeCoins rate = .error failure) :
    estimateTransactionFee chain request.coins feeCoins request.payments rate request.payload =
      .error failure.toHost := by
  rw [estimateTransactionFee, Host.network, supported]
  change ((request.estimateFee feeCoins rate).mapError Error.toHost >>= fun _ => _) = _
  rw [failed]
  rfl

end Host

namespace Request

open Assembly

variable {request : Request} {clock : UInt64} {feeCoins : List Coin}
  {rate input output : UInt64} {failure : Error}

section Repeated

variable {required available extra : UInt64} {i : Nat}

/-- A request with one coin worth more. -/
def raise (request : Request) (i : Nat) (extra : UInt64) : Request :=
  { request with coins := request.coins.modify i (Coin.raise extra) }

theorem inputTotal_raise (within : i < request.coins.length)
    (fits : request.inputTotal + extra.toNat < 2 ^ 64) :
    (request.raise i extra).inputTotal = request.inputTotal + extra.toNat :=
  Coin.total_modify_raise within fits

theorem Addable.raise (addable : request.Addable) (within : i < request.coins.length)
    (fits : request.inputTotal + extra.toNat < 2 ^ 64) : (request.raise i extra).Addable where
  payload := addable.payload
  coins := addable.coins.raise within fits
  payable := addable.payable
  outputTotal := addable.outputTotal

/-- Given again, a request comes to the comparison of its coins with its payments. -/
theorem settle_raise_eq_insufficientMain_iff
    (failed : request.settle = .error (.insufficientMain input output))
    (within : i < request.coins.length) (fits : request.inputTotal + extra.toNat < 2 ^ 64)
    {input' output' : UInt64} :
    (request.raise i extra).settle = .error (.insufficientMain input' output') ↔
      extra < output - input ∧ input' = input + extra ∧ output' = output := by
  obtain ⟨addable, rfl, rfl, short⟩ := settle_eq_insufficientMain_iff.mp failed
  have raised := addable.raise within fits
  have outputs : (request.raise i extra).outputTotal = request.outputTotal := rfl
  rw [settle_eq_insufficientMain_iff, inputTotal_raise within fits, ofNat_add_toNat, outputs,
    ← ofNat_add_lt_iff short fits]
  constructor
  · rintro ⟨_, rfl, rfl, short'⟩
    exact ⟨short', rfl, rfl⟩
  · rintro ⟨short', rfl, rfl⟩
    exact ⟨raised, rfl, rfl, short'⟩

/-- Given again, an estimate comes to the comparison of the coins for the fee with the same fee. -/
theorem estimateFee_modify_raise
    (failed : request.estimateFee feeCoins rate = .error (.insufficientFee required available))
    (within : i < feeCoins.length) (fits : Coin.total feeCoins + extra.toNat < 2 ^ 64) :
    request.estimateFee (feeCoins.modify i (Coin.raise extra)) rate =
      if required - available ≤ extra then
        .ok ⟨request.estimatedSize feeCoins, required, available + extra⟩
      else .error (.insufficientFee required (available + extra)) := by
  obtain ⟨addable, assembles, rfl, rfl, short⟩ := estimateFee_eq_insufficientFee_iff.mp failed
  have accepted := (fst_addInputs_eq_ok_iff_addable Transaction.blank).mpr
    ⟨addable.raise within fits, rfl⟩
  have size : request.estimatedSize (feeCoins.modify i (Coin.raise extra)) =
      request.estimatedSize feeCoins := by
    rw [estimatedSize, List.length_modify, estimatedSize]
  have enough := not_congr (ofNat_add_lt_iff short fits)
  rw [UInt64.not_lt, UInt64.not_lt] at enough
  rw [estimateFee_of_assembles assembles accepted, Coin.total_modify_raise within fits,
    ofNat_add_toNat, size]
  simp only [enough]

/-- What is missing is reported exactly, to the host as well. If the coins for the fee do not pay
it, then with one of them worth more they do exactly when it is by at least what was missing, and
else they have that much more of the same fee. If the coins do not cover the payments, to build or
to estimate, then with one of them worth more they still do not exactly when it is by less than
what was missing. -/
theorem shortfall_exact (request : Request) (feeCoins : List Coin) (rate : UInt64) :
    (∀ required available,
      request.estimateFee feeCoins rate = .error (.insufficientFee required available) →
      ∃ missing, Error.Reports (.insufficientFee required available) required available missing ∧
        (∀ chain : Chain, chain.network? = some request.network →
          Host.estimateTransactionFee chain request.coins feeCoins request.payments rate
            request.payload = .error (.insufficientFunds required available missing)) ∧
        ∀ i < feeCoins.length, ∀ extra : UInt64, Coin.total feeCoins + extra.toNat < 2 ^ 64 →
          ((∃ estimate, request.estimateFee (feeCoins.modify i (Coin.raise extra)) rate =
            .ok estimate) ↔ missing ≤ extra) ∧
          (extra < missing → request.estimateFee (feeCoins.modify i (Coin.raise extra)) rate =
            .error (.insufficientFee required (available + extra)))) ∧
    (∀ clock input output, request.build clock = .error (.insufficientMain input output) →
      ∃ missing, Error.Reports (.insufficientMain input output) output input missing ∧
        (∀ chain : Chain, chain.network? = some request.network →
          Host.buildTransaction chain request.coins request.payments request.payload clock =
            .error (.insufficientFunds output input missing)) ∧
        ∀ i < request.coins.length, ∀ extra : UInt64,
          request.inputTotal + extra.toNat < 2 ^ 64 → ∀ later,
          ((∃ input' output', (request.raise i extra).build later =
            .error (.insufficientMain input' output')) ↔ extra < missing)) ∧
    ∀ input output, request.estimateFee feeCoins rate = .error (.insufficientMain input output) →
      ∃ missing, Error.Reports (.insufficientMain input output) output input missing ∧
        (∀ chain : Chain, chain.network? = some request.network →
          Host.estimateTransactionFee chain request.coins feeCoins request.payments rate
            request.payload = .error (.insufficientFunds output input missing)) ∧
        ∀ i < request.coins.length, ∀ extra : UInt64,
          request.inputTotal + extra.toNat < 2 ^ 64 →
          ((∃ input' output', (request.raise i extra).estimateFee feeCoins rate =
            .error (.insufficientMain input' output')) ↔ extra < missing) := by
  refine ⟨?_, ?_, ?_⟩
  · intro required available failed
    obtain ⟨_, _, _, _, short⟩ := estimateFee_eq_insufficientFee_iff.mp failed
    have reports := Error.reports_insufficientFee short
    refine ⟨_, reports, fun chain supported => ?_, fun i within extra fits => ?_⟩
    · rw [Host.estimateTransactionFee_eq_error supported failed, reports.toHost]
    · rw [estimateFee_modify_raise failed within fits]
      constructor
      · by_cases enough : required - available ≤ extra <;> simp [enough]
      · intro below
        rw [if_neg (UInt64.not_le.mpr below)]
  · intro clock input output failed
    have settled := build_eq_insufficientMain_iff.mp failed
    obtain ⟨_, _, _, short⟩ := settle_eq_insufficientMain_iff.mp settled
    have reports := Error.reports_insufficientMain short
    refine ⟨_, reports, fun chain supported => ?_, fun i within extra fits => ?_⟩
    · rw [Host.buildTransaction_eq_error supported failed, reports.toHost]
    · simp [build_eq_insufficientMain_iff, settle_raise_eq_insufficientMain_iff settled within fits]
  · intro input output failed
    obtain ⟨addable, settled⟩ := estimateFee_eq_insufficientMain_iff.mp failed
    obtain ⟨_, _, _, short⟩ := settle_eq_insufficientMain_iff.mp settled
    have reports := Error.reports_insufficientMain short
    have addable' (i : Nat) (extra : UInt64) :
        Coin.Addable feeCoins (request.raise i extra).network := addable
    refine ⟨_, reports, fun chain supported => ?_, fun i within extra fits => ?_⟩
    · rw [Host.estimateTransactionFee_eq_error supported failed, reports.toHost]
    · simp [estimateFee_eq_insufficientMain_iff, addable',
        settle_raise_eq_insufficientMain_iff settled within fits]

private theorem addable_generatorCoin : Coin.Addable [generatorCoin] .bitcoin where
  spendable := admissible_sweep.assembles.coins
  oneAddress := admissible_sweep.assembles.oneAddress
  total := admissible_sweep.assembles.inputTotal

/-- The sweep with a payment of more than its coin. -/
def overdrawn : Request :=
  { sweep with payments := [⟨generatorCoin.address .bitcoin, 3000⟩] }

private theorem addable_overdrawn : overdrawn.Addable where
  payload := by decide
  coins := addable_generatorCoin
  payable := List.forall_mem_singleton.mpr ⟨_, generatorCoin.toScript_address .bitcoin⟩
  outputTotal := by decide

/-- A coin of 2000 lacks 240 of a fee of 2240, and 1000 of a payment of 3000. -/
theorem shortfall_exact_sweep :
    sweep.estimateFee [generatorCoin] 10 = .error (.insufficientFee 2240 2000) ∧
      (∃ estimate, sweep.estimateFee [generatorCoin.raise 240] 10 = .ok estimate) ∧
      sweep.estimateFee [generatorCoin.raise 239] 10 = .error (.insufficientFee 2240 2239) ∧
      overdrawn.build = .error (.insufficientMain 2000 3000) ∧
      Host.buildTransaction .bitcoin overdrawn.coins overdrawn.payments overdrawn.payload =
        .error (.insufficientFunds 3000 2000 1000) ∧
      (∃ input output, (overdrawn.raise 0 999).build 60 = .error (.insufficientMain input output)) ∧
      overdrawn.estimateFee [generatorCoin] 10 = .error (.insufficientMain 2000 3000) ∧
      ¬ ∃ input output, (overdrawn.raise 0 1000).estimateFee [generatorCoin] 10 =
        .error (.insufficientMain input output) := by
  have short : sweep.estimateFee [generatorCoin] 10 = .error (.insufficientFee 2240 2000) :=
    estimateFee_eq_insufficientFee_iff.mpr
      ⟨addable_generatorCoin, admissible_sweep.assembles, by decide, by decide, by decide⟩
  have settled : overdrawn.settle = .error (.insufficientMain 2000 3000) :=
    settle_eq_insufficientMain_iff.mpr ⟨addable_overdrawn, by decide, by decide, by decide⟩
  have unbuilt : overdrawn.build = .error (.insufficientMain 2000 3000) :=
    build_eq_insufficientMain_iff.mpr settled
  have unestimated :
      overdrawn.estimateFee [generatorCoin] 10 = .error (.insufficientMain 2000 3000) :=
    estimateFee_eq_insufficientMain_iff.mpr ⟨addable_generatorCoin, settled⟩
  obtain ⟨fee, _⟩ := shortfall_exact sweep [generatorCoin] 10
  obtain ⟨missing, reports, _, raised⟩ := fee _ _ short
  obtain rfl : 240 = missing := reports.shortfall
  obtain ⟨_, builds, estimates⟩ := shortfall_exact overdrawn [generatorCoin] 10
  obtain ⟨missing, reports, host, raised'⟩ := builds _ _ _ unbuilt
  obtain rfl : 1000 = missing := reports.shortfall
  obtain ⟨missing, reports', _, raised''⟩ := estimates _ _ unestimated
  obtain rfl : 1000 = missing := reports'.shortfall
  refine ⟨short, ?_, ?_, unbuilt, host .bitcoin rfl, ?_, unestimated, ?_⟩
  · exact (raised 0 (by decide) 240 (by decide)).1.mpr (by decide)
  · exact (raised 0 (by decide) 239 (by decide)).2 (by decide)
  · exact (raised' 0 (by decide) 999 (by decide) 60).mpr (by decide)
  · exact mt (raised'' 0 (by decide) 1000 (by decide)).mp (by decide)

end Repeated

end Request

end Custody
