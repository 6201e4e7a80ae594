import Custody.Proofs.Assembly.Failures
import Custody.Proofs.Request.Estimate

/-! # When funds are missing

A request for which everything can be added asks for funds at two places: the coins are compared
with the payments, and to be estimated the coins for the fee are compared with the fee. It is
refused for want of funds exactly if one of these fails, by the totals that were compared.
-/

namespace Custody

namespace Coin

variable {coins : List Coin} {network : Network}

/-- Whether coins can be added to a transaction: all can be spent, have one address, and add up to
an amount. -/
structure Addable (coins : List Coin) (network : Network) : Prop where
  spendable : ∀ coin ∈ coins, coin.Spendable
  oneAddress : ∀ first ∈ coins.head?, ∀ coin ∈ coins,
    first.address network = coin.address network
  total : Coin.total coins < 2 ^ 64

theorem Addable.address_eq (addable : Addable coins network) {a b : Coin} (left : a ∈ coins)
    (right : b ∈ coins) : a.address network = b.address network := by
  obtain ⟨first, rest, rfl⟩ := List.exists_cons_of_ne_nil (List.ne_nil_of_mem left)
  have same := addable.oneAddress first rfl
  exact (same a left).symm.trans (same b right)

end Coin

/-- Whether coins can be added does not depend on what they are added to. -/
theorem Assembly.fst_addInputs_eq_ok_iff_addable {coins : List Coin} {network : Network}
    (tx : Transaction) {group : Group} :
    ((addInputs coins network).runFrom tx).1 = .ok group ↔
      Coin.Addable coins network ∧ group = Group.join {} coins network := by
  rw [fst_addInputs_eq_ok_iff]
  constructor
  · rintro ⟨spendable, oneAddress, total, joined⟩
    exact ⟨⟨spendable, oneAddress, total⟩, joined⟩
  · rintro ⟨addable, joined⟩
    exact ⟨addable.spendable, addable.oneAddress, addable.total, joined⟩

namespace Request

open Assembly

variable {request : Request} {clock : UInt64} {feeCoins : List Coin}
  {rate input output : UInt64} {failure : Error}

section Settle

/-- Whether the coins and payments of a request can be added, whatever the coins leave. -/
structure Addable (request : Request) : Prop where
  payload : request.payload.length ≤ 64
  coins : Coin.Addable request.coins request.network
  payable : ∀ payment ∈ request.payments, payment.Payable request.network
  outputTotal : request.outputTotal < 2 ^ 64

theorem Addable.assembles (addable : request.Addable)
    (covered : request.outputTotal ≤ request.inputTotal) : request.Assembles where
  payload := addable.payload
  coins := addable.coins.spendable
  oneAddress := addable.coins.oneAddress
  inputTotal := addable.coins.total
  payable := addable.payable
  outputTotal := addable.outputTotal
  covered := covered

/-- All that is left to settle is whether the coins cover the payments. -/
theorem settle_of_addable (addable : request.Addable) :
    request.settle = (Group.join {} request.coins request.network, ·) <$>
      change (UInt64.ofNat request.inputTotal) (UInt64.ofNat request.outputTotal) := by
  have main : (addInputs request.coins request.network).outcome =
      .ok (Group.join {} request.coins request.network) :=
    (fst_addInputs_eq_ok_iff_addable _).mpr ⟨addable.coins, rfl⟩
  have outputs : (addOutputs request.payments request.network).outcome =
      .ok (UInt64.ofNat request.outputTotal) :=
    congrArg Prod.fst
      (addOutputs_eq_ok_iff.mpr ⟨addable.payable, addable.outputTotal, rfl, rfl⟩)
  rw [settle, checkPayload_eq_ok_iff.mpr addable.payload, main, outputs, inputTotal, ← total_join]
  rfl

private theorem isInsufficient_of_checkPayload (failed : request.checkPayload = .error failure) :
    failure.isInsufficient = false := by
  unfold checkPayload at failed
  split at failed
  · cases failed
    rfl
  · cases failed

/-- What cannot be added is refused for another reason than funds. -/
theorem addable_of_settle {result : Except Error (Group × UInt64)}
    (settled : request.settle = result)
    (funds : ∀ failure, result = .error failure → failure.isInsufficient = true) :
    request.Addable := by
  have refused {failure : Error} (other : failure.isInsufficient = false)
      (failed : request.settle = .error failure) : request.Addable := by
    rw [funds failure (settled.symm.trans failed)] at other
    cases other
  cases small : request.checkPayload with
  | error failure =>
    apply refused (isInsufficient_of_checkPayload small)
    rw [settle, small]
    rfl
  | ok =>
    cases main : (addInputs request.coins request.network).outcome with
    | error failure =>
      apply refused ((solvent_addInputs _ _).outcome main)
      rw [settle, small, main]
      rfl
    | ok group =>
      cases outputs : (addOutputs request.payments request.network).outcome with
      | error failure =>
        apply refused ((solvent_addOutputs _ _).outcome outputs)
        rw [settle, small, main, outputs]
        rfl
      | ok total =>
        have paid : (addOutputs request.payments request.network).runFrom Transaction.blank =
            (.ok total, _) := Prod.ext outputs rfl
        obtain ⟨payable, fits, _⟩ := addOutputs_eq_ok_iff.mp paid
        exact ⟨checkPayload_eq_ok_iff.mp small, ((fst_addInputs_eq_ok_iff_addable _).mp main).1,
          payable, fits⟩

theorem assembles_of_settle {settled : Group × UInt64} (done : request.settle = .ok settled) :
    request.Assembles := by
  have addable := addable_of_settle done (by rintro _ ⟨⟩)
  rw [settle_of_addable addable] at done
  obtain ⟨rest, left, _⟩ := Except.map_eq_ok_iff.mp done
  exact addable.assembles ((change_eq_ok_iff addable.coins.total addable.outputTotal).mp left).1

/-- Payments that the coins do not cover are reported with both totals. -/
theorem settle_eq_insufficientMain_iff :
    request.settle = .error (.insufficientMain input output) ↔
      request.Addable ∧ input = UInt64.ofNat request.inputTotal ∧
        output = UInt64.ofNat request.outputTotal ∧ input < output := by
  have compared (addable : request.Addable) :
      request.settle = .error (.insufficientMain input output) ↔
        change (UInt64.ofNat request.inputTotal) (UInt64.ofNat request.outputTotal) =
          .error (.insufficientMain input output) := by
    rw [settle_of_addable addable]
    exact Except.map_eq_error_iff
  constructor
  · intro failed
    have addable := addable_of_settle failed (by rintro _ ⟨⟩; rfl)
    have short := (compared addable).mp failed
    unfold change at short
    split at short
    · rename_i less
      cases short
      exact ⟨addable, rfl, rfl, less⟩
    · cases short
  · rintro ⟨addable, rfl, rfl, short⟩
    exact (compared addable).mpr (if_pos short)

theorem settle_ne_insufficientFee : request.settle ≠ .error (.insufficientFee input output) := by
  intro failed
  have addable := addable_of_settle failed (by rintro _ ⟨⟩; rfl)
  rw [settle_of_addable addable] at failed
  have compared := Except.map_eq_error_iff.mp failed
  unfold change at compared
  split at compared <;> cases compared

end Settle

section Outcome

/-- A request is built as far as it settles. -/
theorem build_of_settle_eq_error (failed : request.settle = .error failure) :
    request.build clock = .error failure := by
  have assembled := (yields_assemble request).runFrom_eq Transaction.blank
  rw [failed] at assembled
  unfold build
  rcases run : request.assemble.runFrom Transaction.blank with ⟨result, left⟩
  rw [run] at assembled
  cases assembled
  rfl

theorem build_eq_insufficientMain_iff :
    request.build clock = .error (.insufficientMain input output) ↔
      request.settle = .error (.insufficientMain input output) :=
  ⟨settle_of_build_eq_error rfl, build_of_settle_eq_error⟩

/-- With coins for the fee that can be added, a request is estimated as far as it settles, and then
those coins are compared with the fee. -/
theorem estimateFee_of_addable (addable : Coin.Addable feeCoins request.network) (rate : UInt64) :
    request.estimateFee feeCoins rate = request.settle >>= fun _ =>
      if Fee.fee (request.estimatedSize feeCoins) rate ≤ UInt64.ofNat (Coin.total feeCoins) then
        .ok ⟨request.estimatedSize feeCoins, Fee.fee (request.estimatedSize feeCoins) rate,
          UInt64.ofNat (Coin.total feeCoins)⟩
      else
        .error (.insufficientFee (Fee.fee (request.estimatedSize feeCoins) rate)
          (UInt64.ofNat (Coin.total feeCoins))) := by
  have accepted := (fst_addInputs_eq_ok_iff_addable Transaction.blank).mpr ⟨addable, rfl⟩
  cases settled : request.settle with
  | error failure => exact estimateFee_of_settle_eq_error accepted settled
  | ok => exact estimateFee_of_assembles (assembles_of_settle settled) accepted rate

/-- What is assembled to be estimated has the coins for the fee. -/
private theorem addable_of_assembleEstimate {available : UInt64} {tx tx' : Transaction}
    (run : (request.assembleEstimate feeCoins).runFrom tx = (.ok available, tx')) :
    Coin.Addable feeCoins request.network := by
  obtain ⟨_, _, _, run⟩ := runFrom_bind_eq_ok_iff.mp run
  obtain ⟨_, _, _, run⟩ := runFrom_bind_eq_ok_iff.mp run
  obtain ⟨_, _, added, _⟩ := runFrom_bind_eq_ok_iff.mp run
  exact ((fst_addInputs_eq_ok_iff_addable _).mp (congrArg Prod.fst added)).1

/-- An estimate comes to want of funds only if the coins for the fee can be added. -/
theorem addable_of_estimateFee (failed : request.estimateFee feeCoins rate = .error failure)
    (funds : failure.isInsufficient = true) : Coin.Addable feeCoins request.network := by
  have refused (other : failure.isInsufficient = false) :
      Coin.Addable feeCoins request.network := by
    rw [funds] at other
    cases other
  -- The steps in front of the coins for the fee fail for other reasons, the rest come after them.
  unfold estimateFee at failed
  rcases run : (request.assembleEstimate feeCoins).runFrom Transaction.blank with ⟨result, tx⟩
  rw [run] at failed
  cases result with
  | error stopped =>
    cases failed
    rcases Stateful.runOn_bind_eq_error_iff.mp run with large | ⟨_, _, _, run⟩
    · exact refused (failsOnly_lift (fun _ => isInsufficient_of_checkPayload) _ _ _ large)
    rcases Stateful.runOn_bind_eq_error_iff.mp run with unspendable | ⟨_, _, _, run⟩
    · exact refused (solvent_addInputs _ _ _ _ _ unspendable)
    rcases Stateful.runOn_bind_eq_error_iff.mp run with unspendable | ⟨_, _, added, _⟩
    · exact refused (solvent_addInputs _ _ _ _ _ unspendable)
    · exact ((fst_addInputs_eq_ok_iff_addable _).mp (congrArg Prod.fst added)).1
  | ok available => exact addable_of_assembleEstimate run

theorem estimateFee_eq_insufficientMain_iff :
    request.estimateFee feeCoins rate = .error (.insufficientMain input output) ↔
      Coin.Addable feeCoins request.network ∧
        request.settle = .error (.insufficientMain input output) := by
  constructor
  · intro failed
    have addable := addable_of_estimateFee failed rfl
    rw [estimateFee_of_addable addable] at failed
    rcases Except.bind_eq_error_iff.mp failed with stopped | ⟨_, _, compared⟩
    · exact ⟨addable, stopped⟩
    · split at compared <;> cases compared
  · rintro ⟨addable, failed⟩
    rw [estimateFee_of_addable addable, failed]
    rfl

theorem estimateFee_eq_insufficientFee_iff {required available : UInt64} :
    request.estimateFee feeCoins rate = .error (.insufficientFee required available) ↔
      Coin.Addable feeCoins request.network ∧ request.Assembles ∧
        required = Fee.fee (request.estimatedSize feeCoins) rate ∧
        available = UInt64.ofNat (Coin.total feeCoins) ∧ available < required := by
  constructor
  · intro failed
    have addable := addable_of_estimateFee failed rfl
    rw [estimateFee_of_addable addable] at failed
    rcases Except.bind_eq_error_iff.mp failed with stopped | ⟨_, settled, compared⟩
    · exact absurd stopped settle_ne_insufficientFee
    · split at compared
      · cases compared
      · rename_i short
        cases compared
        exact ⟨addable, assembles_of_settle settled, rfl, rfl, UInt64.not_le.mp short⟩
  · rintro ⟨addable, assembles, rfl, rfl, short⟩
    have accepted := (fst_addInputs_eq_ok_iff_addable Transaction.blank).mpr ⟨addable, rfl⟩
    rw [estimateFee_of_assembles assembles accepted, if_neg (UInt64.not_le.mpr short)]

/-- An estimate passes with what it compares: a fee that the coins for it cover. -/
theorem estimateFee_eq_ok_iff {estimate : Fee.Estimate} :
    request.estimateFee feeCoins rate = .ok estimate ↔
      Coin.Addable feeCoins request.network ∧ request.Assembles ∧
        Fee.fee (request.estimatedSize feeCoins) rate ≤ UInt64.ofNat (Coin.total feeCoins) ∧
        estimate = ⟨request.estimatedSize feeCoins, Fee.fee (request.estimatedSize feeCoins) rate,
          UInt64.ofNat (Coin.total feeCoins)⟩ := by
  constructor
  · intro passed
    have addable : Coin.Addable feeCoins request.network := by
      unfold estimateFee at passed
      rcases run : (request.assembleEstimate feeCoins).runFrom Transaction.blank with ⟨result, tx⟩
      rw [run] at passed
      cases result with
      | error failure => cases passed
      | ok available => exact addable_of_assembleEstimate run
    rw [estimateFee_of_addable addable] at passed
    obtain ⟨_, settled, compared⟩ := Except.bind_eq_ok_iff.mp passed
    split at compared
    · rename_i covered
      cases compared
      exact ⟨addable, assembles_of_settle settled, covered, rfl⟩
    · cases compared
  · rintro ⟨addable, assembles, covered, rfl⟩
    have accepted := (fst_addInputs_eq_ok_iff_addable Transaction.blank).mpr ⟨addable, rfl⟩
    rw [estimateFee_of_assembles assembles accepted, if_pos covered]

end Outcome

end Request

end Custody
