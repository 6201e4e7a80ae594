import Custody.Proofs.Assembly.Failures

/-! # How far assembly gets

A call of assembly that fails may have appended something before it did. A coin or a payment by
itself is appended, or leaves the transaction as it was. Of a list of coins those are appended that
are in front of the first that is refused; and that one behind them, if it is refused for them and
not for itself. Whatever calls are made, they only append, and what each of them appends does not
depend on the transaction.
-/

namespace Custody.Assembly

section Atomic

variable {α β : Type}

/-- Whether a step that fails leaves the transaction as it was. -/
def Atomic (step : Assembly α) : Prop :=
  ∀ tx failure left, step.runFrom tx = (.error failure, left) → left = tx

theorem atomic_throw (failure : Error) : Atomic (throw failure : Assembly α) := by
  intro tx other left run
  cases run
  rfl

/-- A step is atomic if it is first computed, and then never fails. -/
theorem atomic_lift_bind {result : Except Error α} {next : α → Assembly β}
    (sure : ∀ value, FailsOnly (fun _ => False) (next value)) : Atomic (liftM result >>= next) := by
  intro tx failure left run
  rcases Stateful.runOn_bind_eq_error_iff.mp run with failed | ⟨value, between, _, failed⟩
  · exact (congrArg Prod.snd ((runFrom_lift result tx).symm.trans failed)).symm
  · exact (sure value between failure left failed).elim

theorem atomic_addInput (coin : Coin) (network : Network) : Atomic (addInput coin network) := by
  unfold addInput
  by_cases worthless : coin.satoshi = 0
  · rw [if_pos worthless]
    exact atomic_throw (α := Spend) _
  · rw [if_neg worthless]
    dsimp only
    split
    · exact atomic_throw _
    · apply atomic_lift_bind
      intro spend
      exact (failsOnly_modify _).bind fun _ => failsOnly_pure spend

theorem atomic_addOutput (payment : Payment) (network : Network) :
    Atomic (addOutput payment network) := by
  apply atomic_lift_bind
  intro script
  exact failsOnly_modify _

end Atomic

section Coins

variable {coin : Coin} {coins : List Coin} {network : Network} {tx left : Transaction}
  {group : Group} {failure : Error}

/-- Whether a group records how some coins are spent, in order, all from its address and locking
script, and their exact sum. -/
structure Group.Records (group : Group) (coins : List Coin) (network : Network) : Prop where
  spends : List.Forall₂ (fun coin spend =>
    Spend.derive coin.script coin.routeBackup coin.sequence network = .ok spend) coins group.spends
  origin : ∀ spend ∈ group.spends, group.origin = some (spend.address, spend.lock)
  total : group.total.toNat = Coin.total coins

theorem records_of_addInputs (added : (addInputs coins network).runFrom tx = (.ok group, left)) :
    group.Records coins network := by
  obtain ⟨spendable, oneAddress, fits, rfl, _⟩ := addInputs_eq_ok_iff.mp added
  refine ⟨?_, ?_, ?_⟩
  · rw [Group.join, List.nil_append, List.forall₂_map_right_iff, List.forall₂_same]
    exact fun coin member => (spendable coin member).derive network
  · intro spend member
    obtain ⟨coin, held, rfl⟩ := List.mem_map.mp member
    obtain ⟨first, others, rfl⟩ := List.exists_cons_of_ne_nil (List.ne_nil_of_mem held)
    -- The group asks for one address only; its locking script is that of the first coin.
    have sameAddress := oneAddress first rfl coin held
    have sameLock := Coin.lock_eq_of_address_eq sameAddress
    exact congrArg some (Prod.ext sameAddress sameLock)
  · rw [total_join, UInt64.toNat_ofNat', Nat.mod_eq_of_lt fits]

/-- Where the coins of a list stop being added: at the one behind the coins in front that can be
added. -/
structure StopsAt (tx : Transaction) (coins before : List Coin) (coin : Coin) (network : Network)
    (failure : Error) : Prop where
  begins : before ++ [coin] <+: coins
  accepted : ∃ group, ((addInputs before network).runFrom tx).1 = .ok group
  refused : ((addInputs (before ++ [coin]) network).runFrom tx).1 = .error failure

/-- A coin is appended before a group refuses it, and not if it is refused by itself. -/
private theorem left_of_joinOne (failed : Stateful.runOn (do
      let spend ← addInput coin network
      (group.take coin spend : Except _ _)) tx = (.error failure, left)) :
    left = tx.append (if failure.concernsGroup then [coin.input] else []) [] := by
  rcases runOn_joinOne_eq_error_iff.mp failed with alone | ⟨_, refused, rfl⟩
  · have concerns := (failsOnly_addInput coin network tx failure left alone).2
    rw [concerns, if_neg Bool.false_ne_true, tx.append_nil]
    exact atomic_addInput coin network tx failure left alone
  · rw [(concerns_of_take refused).2, if_pos rfl, Transaction.append, List.append_nil]

/-- Coins that cannot all be added are added up to the first that is refused. -/
theorem exists_stopsAt (failed : (addInputs coins network).runFrom tx = (.error failure, left)) :
    ∃ before coin, StopsAt tx coins before coin network failure ∧
      left = tx.append
        ((before ++ if failure.concernsGroup then [coin] else []).map Coin.input) [] := by
  obtain ⟨before, coin, after, group, between, rfl, run, stopped⟩ :=
    Stateful.runOn_foldlM_eq_error_iff.mp failed
  have added : (addInputs before network).runFrom tx = (.ok group, between) := run
  have refused : (addInputs (before ++ [coin]) network).runFrom tx = (.error failure, left) :=
    Stateful.runOn_foldlM_eq_error_iff.mpr ⟨before, coin, [], group, between, rfl, run, stopped⟩
  refine ⟨before, coin, ⟨⟨after, List.append_assoc ..⟩, ⟨group, congrArg Prod.fst added⟩,
    congrArg Prod.fst refused⟩, ?_⟩
  obtain ⟨_, _, _, _, rfl⟩ := addInputs_eq_ok_iff.mp added
  rw [left_of_joinOne stopped]
  cases failure.concernsGroup <;> simp [Transaction.append]

end Coins

/-- A call of assembly. -/
inductive Call where
  | addInput (coin : Coin) (network : Network)
  | addInputs (coins : List Coin) (network : Network)
  | addOutput (payment : Payment) (network : Network)

namespace Call

/-- The transaction that a call leaves, whether it succeeds or fails. -/
def leave (tx : Transaction) : Call → Transaction
  | addInput coin network => ((Assembly.addInput coin network).runFrom tx).2
  | addInputs coins network => ((Assembly.addInputs coins network).runFrom tx).2
  | addOutput payment network => ((Assembly.addOutput payment network).runFrom tx).2

/-- The transaction that calls leave, one after the other. -/
def leaveAll (tx : Transaction) (calls : List Call) : Transaction :=
  calls.foldl leave tx

/-- The inputs that a call appends. -/
def inputs (call : Call) : List TxIn :=
  (leave Transaction.blank call).inputs

/-- The outputs that a call appends. -/
def outputs (call : Call) : List TxOut :=
  (leave Transaction.blank call).outputs

/-- A call appends the same to every transaction. -/
theorem leave_eq (tx : Transaction) (call : Call) :
    leave tx call = tx.append call.inputs call.outputs := by
  obtain ⟨inputs, outputs, appends⟩ :
      ∃ inputs outputs, ∀ tx, leave tx call = tx.append inputs outputs := by
    cases call with
    | addInput coin network =>
      obtain ⟨_, inputs, outputs, run⟩ := exists_yields_addInput coin network
      exact ⟨inputs, outputs, fun tx => congrArg Prod.snd (run tx)⟩
    | addInputs coins network =>
      obtain ⟨inputs, outputs, run⟩ := yields_addInputs coins network
      exact ⟨inputs, outputs, fun tx => congrArg Prod.snd (run tx)⟩
    | addOutput payment network =>
      obtain ⟨inputs, outputs, run⟩ := yields_addOutput payment network
      exact ⟨inputs, outputs, fun tx => congrArg Prod.snd (run tx)⟩
  rw [Call.inputs, Call.outputs, appends, appends]
  rfl

/-- Calls append what each of them appends, in order. -/
theorem leaveAll_eq (tx : Transaction) (calls : List Call) :
    leaveAll tx calls = tx.append (calls.flatMap inputs) (calls.flatMap outputs) := by
  induction calls generalizing tx with
  | nil => exact tx.append_nil.symm
  | cons call calls ih =>
    change leaveAll (leave tx call) calls = _
    rw [ih, leave_eq, Transaction.append_append]
    rfl

end Call

/-- Whatever calls are made, each of them failing or not, they only append to a transaction. A coin
or a payment that is refused is not appended. Coins that can all be added are appended in order and
recorded in a group. Coins that cannot are appended up to the first that is refused, and with that
one exactly if it is refused for its address or for the total; and no payment is. -/
theorem calls_append (tx : Transaction) :
    (∀ calls : List Call, Call.leaveAll tx calls =
      tx.append (calls.flatMap Call.inputs) (calls.flatMap Call.outputs)) ∧
    (∀ coin network, match (addInput coin network).runFrom tx with
      | (.ok spend, left) => spend = coin.spend network ∧ left = tx.append [coin.input] []
      | (.error _, left) => left = tx) ∧
    (∀ payment network, match (addOutput payment network).runFrom tx with
      | (.ok (), left) => left = tx.append [] [payment.output network]
      | (.error _, left) => left = tx) ∧
    ∀ coins network, match (addInputs coins network).runFrom tx with
      | (.ok group, left) =>
        group.Records coins network ∧ left = tx.append (coins.map Coin.input) []
      | (.error failure, left) =>
        ∃ before coin, StopsAt tx coins before coin network failure ∧
          left = tx.append
            ((before ++ if failure.concernsGroup then [coin] else []).map Coin.input) [] := by
  refine ⟨Call.leaveAll_eq tx, fun coin network => ?_, fun payment network => ?_,
    fun coins network => ?_⟩
  · split
    · rename_i spend left run
      obtain ⟨_, rfl, rfl⟩ := addInput_eq_ok_iff.mp run
      exact ⟨rfl, by rw [Transaction.append, List.append_nil]⟩
    · rename_i failure left run
      exact atomic_addInput coin network tx failure left run
  · split
    · rename_i left run
      obtain ⟨_, rfl⟩ := addOutput_eq_ok_iff.mp run
      rw [Transaction.append, List.append_nil]
    · rename_i failure left run
      exact atomic_addOutput payment network tx failure left run
  · split
    · rename_i group left run
      obtain ⟨_, _, _, _, rfl⟩ := addInputs_eq_ok_iff.mp run
      exact ⟨records_of_addInputs run, by rw [Transaction.append, List.append_nil]⟩
    · rename_i failure left run
      exact exists_stopsAt run

end Custody.Assembly
