import Custody.Proofs.Assembly.Appends
import Custody.Proofs.Request

/-! # Estimates agree with what is built

A request is estimated and built by the same steps, but the estimate also adds the coins for the fee
and pays back change of any amount. Coins that can be added do not affect what the other steps do,
so that a request which cannot be assembled is refused by both with one failure. If it is built, the
estimate allows for all that is built and an input for each coin of the fee.
-/

namespace Custody

/-- Whether a failure is about what a request spends and pays, rather than about the transaction
that it makes. -/
def Error.concernsRequest : Error → Bool
  | .payloadTooLarge .. | .invalidInput .. | .invalidScript .. | .invalidSequence ..
  | .mixedInputAddress .. | .invalidAddress .. | .insufficientMain .. => true
  | _ => false

/-- Whether a failure is about the transaction that a request makes, other than its size. -/
def Error.concernsTransaction : Error → Bool
  | .sanity .. | .nonStandard .. | .build .. | .packet .. => true
  | _ => false

theorem Error.concernsRequest_of_concernsTransaction {failure : Error}
    (concerns : failure.concernsTransaction = true) : failure.concernsRequest = false := by
  cases failure with
  | sanity | nonStandard | build | packet => rfl
  | _ => cases concerns

namespace Request

open Assembly

variable {request : Request} {clock : UInt64} {feeCoins : List Coin} {fees : Group}

section Settle

/-- What assembly has before it comes to change: the coins, and what the payments leave of them. -/
def settle (request : Request) : Except Error (Group × UInt64) := do
  request.checkPayload
  let main ← (addInputs request.coins request.network).outcome
  let outputs ← (addOutputs request.payments request.network).outcome
  let rest ← change main.total outputs
  return (main, rest)

/-- What is left comes from coins. -/
private theorem coins_of_lt_rest {threshold rest outputs : UInt64}
    (left : change (Group.join {} request.coins request.network).total outputs = .ok rest)
    (above : threshold < rest) : request.coins ≠ [] := by
  intro none
  rw [none] at left
  have nothing : change (Group.join {} [] request.network).total outputs =
      change (UInt64.ofNat 0) (UInt64.ofNat outputs.toNat) := by
    rw [UInt64.ofNat_toNat]
    rfl
  rw [nothing, change_eq_ok_iff (by decide) outputs.toNat_lt] at left
  obtain ⟨_, rfl⟩ := left
  rw [Nat.zero_sub] at above
  exact absurd above UInt64.not_lt_zero

/-- Change is paid back whatever the threshold is, so that no threshold makes the assembly fail. -/
private theorem yields_payChange {α : Type} {main : Group} {threshold rest outputs : UInt64}
    (added : (addInputs request.coins request.network).outcome = .ok main)
    (left : change main.total outputs = .ok rest) (value : α) :
    Yields (if threshold < rest then do
        addChange main rest request.network
        pure value
      else pure value) (.ok value) := by
  obtain ⟨_, _, _, rfl⟩ := fst_addInputs_eq_ok_iff.mp added
  refine ⟨[], if threshold < rest then
    request.coins.head?.toList.map fun coin => ⟨rest, coin.lock⟩ else [], fun tx => ?_⟩
  rw [runFrom_payChange (coins_of_lt_rest left), Transaction.append, List.append_nil]

/-- A request is assembled to be built as far as it settles. -/
theorem yields_assemble (request : Request) :
    Yields request.assemble ((·.1) <$> request.settle) := by
  simp only [settle, map_eq_pure_bind, bind_assoc, pure_bind]
  apply (yields_lift _).bind
  intro _ _
  apply (yields_addInputs ..).bind
  intro main added
  apply (yields_addOutputs ..).bind
  intro outputs _
  apply (yields_lift _).bind
  intro rest left
  exact yields_payChange added left main

/-- A request is assembled to be estimated as far as it settles, if the coins for the fee can be
added. -/
theorem yields_assembleEstimate {tx : Transaction}
    (accepted : ((addInputs feeCoins request.network).runFrom tx).1 = .ok fees) :
    Yields (request.assembleEstimate feeCoins) ((fun _ => fees.total) <$> request.settle) := by
  have fee := yields_addInputs feeCoins request.network
  rw [fee.runFrom_eq] at accepted
  rw [accepted] at fee
  simp only [settle, map_eq_pure_bind, bind_assoc, pure_bind]
  apply (yields_lift _).bind
  intro _ _
  apply (yields_addInputs ..).bind
  intro main added
  -- The coins for the fee are added, so the outcome is up to the steps around that.
  apply fee.bind_ok
  apply (yields_addOutputs ..).bind
  intro outputs _
  apply (yields_lift _).bind
  intro rest left
  exact yields_payChange added left fees.total

end Settle

section Refused

variable {failure : Error}

/-- A transaction is refused for its size if it exceeds its estimate, or the estimate is too
large. -/
theorem checkSize_eq_error_iff {tx : Transaction} {estimate : Nat} :
    checkSize tx estimate = .error failure ↔
      estimate < tx.encode.length ∧ failure = .estimationExceeded tx.encode.length estimate ∨
      tx.encode.length ≤ estimate ∧ 300000 < 4 * estimate ∧
        failure = .weightExceeded (4 * estimate) 300000 := by
  unfold checkSize
  dsimp only
  split
  · rename_i exceeds
    simp only [exceeds, Nat.not_le.mpr exceeds, true_and, false_and, or_false]
    exact ⟨fun failed => (Except.error.inj failed).symm, fun same => same ▸ rfl⟩
  · rename_i within
    simp only [within, Nat.not_lt.mp within, true_and, false_and, false_or]
    split
    · rename_i heavy
      exact ⟨fun failed => ⟨heavy, (Except.error.inj failed).symm⟩, fun same => same.2 ▸ rfl⟩
    · rename_i light
      exact ⟨fun passed => (nomatch passed), fun same => absurd same.1 light⟩

private theorem concernsTransaction_of_sanity {tx : Transaction}
    (failed : Sanity.check tx = .error failure) : failure.concernsTransaction = true := by
  unfold Sanity.check at failed
  split at failed
  · cases failed
  · cases failed
    rfl

private theorem concernsTransaction_of_relay {tx : Transaction} {height : UInt32}
    {medianTime : UInt64} (failed : Relay.check tx height medianTime = .error failure) :
    failure.concernsTransaction = true := by
  unfold Relay.check at failed
  split at failed
  · cases failed
  · cases failed
    rfl

private theorem concernsTransaction_of_fault {α : Type} {computed : Except Packet.Fault α}
    (failed : computed.mapError Packet.Fault.toError = .error failure) :
    failure.concernsTransaction = true := by
  obtain ⟨fault, _, rfl⟩ := Except.mapError_eq_error_iff.mp failed
  rfl

private theorem concernsTransaction_of_packetOf {tx : Transaction} {coins : List Coin}
    {main : Group} (failed : packetOf tx coins main = .error failure) :
    failure.concernsTransaction = true := by
  unfold packetOf at failed
  split at failed
  · cases failed
    rfl
  · simp only [Except.bind_eq_error_iff] at failed
    rcases failed with created | ⟨_, _, insane | ⟨_, _, returned⟩⟩
    · exact concernsTransaction_of_fault created
    · exact concernsTransaction_of_fault insane
    · cases returned

/-- A request is not built because it does not settle, or else because of the transaction that it
makes. -/
theorem build_eq_error (failed : request.build clock = .error failure) :
    request.settle = .error failure ∨ request.Assembles ∧
      (checkSize request.transaction request.estimate = .error failure ∨
        failure.concernsTransaction = true) := by
  have assembled := (yields_assemble request).runFrom_eq Transaction.blank
  rcases run : request.assemble.runFrom Transaction.blank with ⟨result, tx⟩
  rw [run] at assembled
  cases result with
  | error stopped =>
    left
    unfold build at failed
    rw [run] at failed
    cases failed
    exact Except.map_eq_error_iff.mp assembled.symm
  | ok main =>
    right
    have assembles := (assemble_eq_ok_iff.mp run).1
    rw [build_of_assembles assembles] at failed
    simp only [Except.bind_eq_error_iff] at failed
    rcases failed with size | ⟨_, _, insane | ⟨_, _, nonStandard | ⟨_, _, packed⟩⟩⟩
    · exact ⟨assembles, .inl size⟩
    · exact ⟨assembles, .inr (concernsTransaction_of_sanity insane)⟩
    · exact ⟨assembles, .inr (concernsTransaction_of_relay nonStandard)⟩
    · exact ⟨assembles, .inr (concernsTransaction_of_packetOf packed)⟩

/-- A failure to build a request that is about the request comes before there is a transaction. -/
theorem settle_of_build_eq_error (concerns : failure.concernsRequest = true)
    (failed : request.build clock = .error failure) : request.settle = .error failure := by
  rcases build_eq_error failed with stopped | ⟨_, size | other⟩
  · exact stopped
  · rcases checkSize_eq_error_iff.mp size with ⟨_, rfl⟩ | ⟨_, _, rfl⟩ <;> cases concerns
  · rw [Error.concernsRequest_of_concernsTransaction other] at concerns
    cases concerns

/-- A request that does not settle is not estimated. -/
theorem estimateFee_of_settle_eq_error {tx : Transaction} {rate : UInt64}
    (accepted : ((addInputs feeCoins request.network).runFrom tx).1 = .ok fees)
    (failed : request.settle = .error failure) :
    request.estimateFee feeCoins rate = .error failure := by
  have assembled := (yields_assembleEstimate accepted).runFrom_eq Transaction.blank
  rw [failed] at assembled
  unfold estimateFee
  rcases run : (request.assembleEstimate feeCoins).runFrom Transaction.blank with ⟨result, left⟩
  rw [run] at assembled
  cases assembled
  rfl

end Refused

section Covered

/-- The outputs that an estimate counts: the payments, and change of any amount. -/
def estimatedOutputs (request : Request) : Nat :=
  request.payments.length + if request.outputTotal < request.inputTotal then 1 else 0

/-- The virtual size that a request is estimated at with some coins for the fee: 75 for each coin,
32 for each output and a spare one, and the payload. -/
def estimatedSize (request : Request) (feeCoins : List Coin) : Nat :=
  10 + 75 * (request.coins.length + feeCoins.length) + 32 * (request.estimatedOutputs + 1)
    + request.payload.length

theorem virtualSize_eq {inputs outputs payload : Nat} (small : payload ≤ 64) :
    Fee.virtualSize inputs outputs payload = 10 + 75 * inputs + 32 * (outputs + 1) + payload := by
  simp only [Fee.virtualSize, Fee.baseWeight, Fee.inputWeight, Fee.outputWeight, Fee.maxPayload,
    small, ↓reduceIte]
  omega

theorem toNat_fee (size : Nat) (rate : UInt64) :
    (Fee.fee size rate).toNat = min (rate.toNat * size) (2 ^ 64 - 1) :=
  UInt64.toNat_ofNat_of_lt' (by simp only [UInt64.size]; omega)

/-- The estimate has an output wherever what is built has one. -/
theorem length_paidOutputs_le (request : Request) :
    request.paidOutputs.length ≤ request.estimatedOutputs := by
  rw [paidOutputs, List.length_append, List.length_map, estimatedOutputs]
  cases returned : request.changeOutputs with
  | nil => simp
  | cons output rest =>
    have paid := (mem_changeOutputs (returned ▸ List.mem_cons_self)).1
    obtain ⟨coin, coins, same⟩ := List.exists_cons_of_ne_nil (coins_of_paidChange_pos paid)
    rw [changeOutputs_of_coins same, if_pos paid] at returned
    have above := paidChange_pos_iff.mp paid
    rw [← returned, if_pos (by omega)]
    rfl

/-- What is estimated beyond the coins for the fee is no smaller than what is built. -/
theorem length_encode_add_le (admissible : request.Admissible) (feeCoins : List Coin) :
    request.transaction.encode.length + 75 * feeCoins.length ≤ request.estimatedSize feeCoins := by
  have size := admissible.size
  have outputs := request.length_paidOutputs_le
  rw [estimate, virtualSize_eq admissible.payload] at size
  rw [estimatedSize]
  omega

/-- What is left of the coins is above nothing if they exceed the payments. -/
private theorem rest_pos_iff (fits : request.inputTotal < 2 ^ 64) :
    0 < UInt64.ofNat (request.inputTotal - request.outputTotal) ↔
      request.outputTotal < request.inputTotal := by
  rw [UInt64.lt_iff_toNat_lt, UInt64.toNat_ofNat_of_lt' (Nat.lt_of_le_of_lt (Nat.sub_le ..) fits)]
  exact Nat.sub_pos_iff_lt

/-- The output that an estimate counts for change, if there is any. -/
def estimatedChange (request : Request) : List TxOut :=
  let rest := UInt64.ofNat (request.inputTotal - request.outputTotal)
  if 0 < rest then request.coins.head?.toList.map fun coin => ⟨rest, coin.lock⟩ else []

theorem length_estimatedChange (fits : request.inputTotal < 2 ^ 64) :
    request.estimatedChange.length =
      if request.outputTotal < request.inputTotal then 1 else 0 := by
  have above := rest_pos_iff fits
  rw [estimatedChange]
  by_cases exceeds : request.outputTotal < request.inputTotal
  · obtain ⟨coin, coins, same⟩ := List.exists_cons_of_ne_nil (coins_of_exceeds exceeds)
    rw [if_pos (above.mpr exceeds), if_pos exceeds, same]
    rfl
  · rw [if_neg (mt above.mp exceeds), if_neg exceeds]
    rfl

/-- A request that can be assembled can be estimated, with all its coins and outputs. -/
theorem runFrom_assembleEstimate {tx : Transaction} (assembles : request.Assembles)
    (accepted : ((addInputs feeCoins request.network).runFrom tx).1 = .ok fees) :
    (request.assembleEstimate feeCoins).runFrom Transaction.blank =
      (.ok (UInt64.ofNat (Coin.total feeCoins)),
        ⟨2, 0, request.coins.map Coin.input ++ feeCoins.map Coin.input,
          request.payments.map (·.output request.network) ++ request.estimatedChange⟩) := by
  obtain ⟨coins, oneAddress, total, rfl⟩ := fst_addInputs_eq_ok_iff.mp accepted
  have above := rest_pos_iff assembles.inputTotal
  unfold assembleEstimate
  rw [checkPayload_eq_ok_iff.mpr assembles.payload]
  refine runFrom_lift_bind_eq_ok_iff.mpr ⟨_, rfl, ?_⟩
  refine runFrom_bind_eq_ok_iff.mpr ⟨_, _, addInputs_eq_ok_iff.mpr
    ⟨assembles.coins, assembles.oneAddress, assembles.inputTotal, rfl, rfl⟩, ?_⟩
  refine runFrom_bind_eq_ok_iff.mpr ⟨_, _, addInputs_eq_ok_iff.mpr
    ⟨coins, oneAddress, total, rfl, rfl⟩, ?_⟩
  refine runFrom_bind_eq_ok_iff.mpr ⟨_, _, addOutputs_eq_ok_iff.mpr
    ⟨assembles.payable, assembles.outputTotal, rfl, rfl⟩, ?_⟩
  refine runFrom_lift_bind_eq_ok_iff.mpr
    ⟨UInt64.ofNat (request.inputTotal - request.outputTotal), ?_, ?_⟩
  · rw [total_join]
    exact (change_eq_ok_iff assembles.inputTotal assembles.outputTotal).mpr
      ⟨assembles.covered, rfl⟩
  · rw [total_join]
    exact runFrom_payChange (fun exceeds => coins_of_exceeds (above.mp exceeds)) _ _

/-- A request that can be assembled is estimated, unless the coins for the fee do not pay it. -/
theorem estimateFee_of_assembles {tx : Transaction} (assembles : request.Assembles)
    (accepted : ((addInputs feeCoins request.network).runFrom tx).1 = .ok fees) (rate : UInt64) :
    request.estimateFee feeCoins rate =
      if Fee.fee (request.estimatedSize feeCoins) rate ≤ UInt64.ofNat (Coin.total feeCoins) then
        .ok ⟨request.estimatedSize feeCoins, Fee.fee (request.estimatedSize feeCoins) rate,
          UInt64.ofNat (Coin.total feeCoins)⟩
      else
        .error (.insufficientFee (Fee.fee (request.estimatedSize feeCoins) rate)
          (UInt64.ofNat (Coin.total feeCoins))) := by
  have size : Fee.virtualSize (request.coins.map Coin.input ++ feeCoins.map Coin.input).length
      (request.payments.map (·.output request.network) ++ request.estimatedChange).length
      request.payload.length = request.estimatedSize feeCoins := by
    rw [virtualSize_eq assembles.payload, List.length_append, List.length_append, List.length_map,
      List.length_map, List.length_map, length_estimatedChange assembles.inputTotal]
    rfl
  unfold estimateFee
  rw [runFrom_assembleEstimate assembles accepted]
  dsimp only
  rw [size]
  split
  · rename_i covered
    exact if_neg (UInt64.not_lt.mpr covered)
  · rename_i short
    exact if_pos (UInt64.not_le.mp short)

end Covered

section Agreement

/-- Estimating and building agree. With coins for the fee that can be added, what makes a request
impossible to build makes it impossible to estimate, by the same failure. A request that is built
is estimated at a size with room for what is built and for the coins of the fee, and the estimate
fails only if those coins do not pay the rate times that size, or the largest amount if that is
less. -/
theorem estimateFee_agrees {tx : Transaction}
    (accepted : ((addInputs feeCoins request.network).runFrom tx).1 = .ok fees) :
    (∀ failure, failure.concernsRequest = true → request.build clock = .error failure →
      ∀ rate, request.estimateFee feeCoins rate = .error failure) ∧
    ∀ packet, request.build clock = .ok packet →
      packet.unsignedTx.encode.length + 75 * feeCoins.length ≤ request.estimatedSize feeCoins ∧
      ∀ rate, ∃ fee available : UInt64,
        fee.toNat = min (rate.toNat * request.estimatedSize feeCoins) (2 ^ 64 - 1) ∧
        available.toNat = Coin.total feeCoins ∧
        request.estimateFee feeCoins rate =
          if fee ≤ available then .ok ⟨request.estimatedSize feeCoins, fee, available⟩
          else .error (.insufficientFee fee available) := by
  constructor
  · intro failure concerns failed rate
    exact estimateFee_of_settle_eq_error accepted (settle_of_build_eq_error concerns failed)
  · intro packet built
    obtain ⟨admissible, rfl⟩ := build_eq_ok_iff.mp built
    obtain ⟨_, _, fits, _⟩ := fst_addInputs_eq_ok_iff.mp accepted
    refine ⟨length_encode_add_le admissible feeCoins, fun rate => ?_⟩
    refine ⟨_, _, toNat_fee _ rate, UInt64.toNat_ofNat_of_lt' fits, ?_⟩
    exact estimateFee_of_assembles admissible.assembles accepted rate

private theorem addInputs_generatorCoin :
    ((addInputs [generatorCoin] .bitcoin).runFrom Transaction.blank).1 =
      .ok (Group.join {} [generatorCoin] .bitcoin) := by
  have assembles := admissible_sweep.assembles
  exact fst_addInputs_eq_ok_iff.mpr
    ⟨assembles.coins, assembles.oneAddress, assembles.inputTotal, rfl⟩

/-- The sweep of one coin is estimated at 224 bytes with another coin like it for the fee, which pays
a rate of 3 but not one of 10. With a payload that is too large it is neither built nor estimated. -/
theorem estimateFee_agrees_sweep :
    ((addInputs [generatorCoin] .bitcoin).runFrom Transaction.blank).1 =
        .ok (Group.join {} [generatorCoin] .bitcoin) ∧
      sweep.build = .ok sweep.packet ∧
      sweep.estimateFee [generatorCoin] 3 = .ok ⟨224, 672, 2000⟩ ∧
      sweep.estimateFee [generatorCoin] 10 = .error (.insufficientFee 2240 2000) ∧
      { sweep with payload := List.replicate 65 0 }.build = .error (.payloadTooLarge 65 64) ∧
      { sweep with payload := List.replicate 65 0 }.estimateFee [generatorCoin] 3 =
        .error (.payloadTooLarge 65 64) := by
  have large : { sweep with payload := List.replicate 65 0 }.build =
      .error (.payloadTooLarge 65 64) := rfl
  have agrees := @estimateFee_agrees sweep 0 [generatorCoin] _ _ addInputs_generatorCoin
  have agreesLarge := @estimateFee_agrees { sweep with payload := List.replicate 65 0 }
    0 [generatorCoin] _ _ addInputs_generatorCoin
  have size : sweep.estimatedSize [generatorCoin] = 224 := by decide
  have estimated (rate fee : UInt64) (product : min (rate.toNat * 224) (2 ^ 64 - 1) = fee.toNat) :
      sweep.estimateFee [generatorCoin] rate =
        if fee ≤ 2000 then .ok ⟨224, fee, 2000⟩ else .error (.insufficientFee fee 2000) := by
    obtain ⟨fee', available, paid, had, estimated⟩ :=
      (agrees.2 sweep.packet (build_sweep 0)).2 rate
    rw [size, product] at paid
    obtain rfl := UInt64.toNat_inj.mp paid
    obtain rfl : available = 2000 := UInt64.toNat_inj.mp had
    rw [estimated, size]
  refine ⟨addInputs_generatorCoin, build_sweep 0, ?_, ?_, large, ?_⟩
  · exact estimated 3 672 (by decide)
  · exact estimated 10 2240 (by decide)
  · exact agreesLarge.1 _ rfl large 3

end Agreement

end Request

end Custody
