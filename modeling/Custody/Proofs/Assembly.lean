import Custody.Assembly
import Custody.Proofs.Coin
import Custody.Proofs.Stateful

/-! # Assembly succeeds on what can be assembled

Each step of assembly succeeds exactly under a condition on the coins or payments alone, and then
leaves a transaction that is known in advance: the inputs and outputs of the coins and payments
appended in order.
-/

namespace Custody

namespace Coin

/-- The sum of the amounts of some coins. -/
def total (coins : List Coin) : Nat :=
  (coins.map fun coin => coin.satoshi.toNat).sum

end Coin

namespace Payment

/-- Whether the address of a payment can be paid to on a network. -/
def Payable (payment : Payment) (network : Network) : Prop :=
  ∃ script, Address.toScript payment.address network = .ok script

/-- The output that makes a payment. -/
def output (payment : Payment) (network : Network) : TxOut :=
  ⟨payment.satoshi, (Address.toScript payment.address network).toOption.getD []⟩

/-- The sum of the amounts of some payments. -/
def total (payments : List Payment) : Nat :=
  (payments.map fun payment => payment.satoshi.toNat).sum

theorem Payable.toScript {payment : Payment} {network : Network}
    (payable : payment.Payable network) :
    Address.toScript payment.address network = .ok (payment.output network).script := by
  obtain ⟨script, paid⟩ := payable
  rw [output, paid]
  rfl

end Payment

namespace Assembly

section Run

variable {α β : Type} {tx tx' : Transaction}

theorem runFrom_lift (outcome : Except Error α) (tx : Transaction) :
    (liftM outcome : Assembly α).runFrom tx = (outcome, tx) :=
  Stateful.runOn_lift outcome tx

theorem runFrom_bind_eq_ok_iff {first : Assembly α} {next : α → Assembly β} {result : β} :
    (first >>= next).runFrom tx = (.ok result, tx') ↔
      ∃ middle left, first.runFrom tx = (.ok middle, left) ∧
        (next middle).runFrom left = (.ok result, tx') :=
  Stateful.runOn_bind_eq_ok_iff

theorem runFrom_lift_bind_eq_ok_iff {outcome : Except Error α} {next : α → Assembly β}
    {result : β} :
    (liftM outcome >>= next).runFrom tx = (.ok result, tx') ↔
      ∃ middle, outcome = .ok middle ∧ (next middle).runFrom tx = (.ok result, tx') :=
  Stateful.runOn_lift_bind_eq_ok_iff

end Run

section Inputs

variable {coin : Coin} {network : Network} {tx tx' : Transaction}

/-- A coin is appended if it can be spent. -/
theorem addInput_eq_ok_iff {spend : Spend} :
    (addInput coin network).runFrom tx = (.ok spend, tx') ↔
      coin.Spendable ∧ spend = coin.spend network ∧
        tx' = { tx with inputs := tx.inputs ++ [coin.input] } := by
  unfold addInput
  by_cases valued : coin.satoshi = 0
  · rw [if_pos valued]
    constructor
    · intro run
      cases run
    · intro added
      exact absurd valued added.1.valued
  · rw [if_neg valued]
    dsimp only
    split
    · rename_i unnamed
      constructor
      · intro run
        cases run
      · intro added
        obtain ⟨txid, named⟩ := Txid.exists_ofDisplay?_iff.mpr added.1.named
        rw [unnamed] at named
        cases named
    · rename_i txid named
      have input :
          coin.input = ⟨⟨txid, coin.index⟩, [], (coin.spend network).sequence, []⟩ := by
        rw [Coin.input, Coin.outPoint, Coin.txid, named]
        rfl
      rw [runFrom_lift_bind_eq_ok_iff, input]
      constructor
      · rintro ⟨_, derived, run⟩
        obtain ⟨shaped, locked, rfl⟩ := Coin.derive_eq_ok_iff.mp derived
        cases run
        exact ⟨⟨valued, Txid.exists_ofDisplay?_iff.mp ⟨txid, named⟩, shaped, locked⟩, rfl, rfl⟩
      · rintro ⟨spendable, rfl, rfl⟩
        exact ⟨_, Coin.derive_eq_ok_iff.mpr ⟨spendable.shaped, spendable.locked, rfl⟩, rfl⟩

private theorem addAmounts_eq_ok_iff {what : String} {a b sum : UInt64} :
    addAmounts what a b = .ok sum ↔ a.toNat + b.toNat < 2 ^ 64 ∧ sum = a + b := by
  unfold addAmounts
  split
  · rename_i fits
    rw [Except.ok.injEq]
    exact ⟨fun same => ⟨fits, same.symm⟩, fun joined => joined.2.symm⟩
  · rename_i overflows
    exact ⟨fun joined => (nomatch joined), fun joined => absurd joined.1 overflows⟩

/-- A coin joins a group of coins of its address if the sum is an amount. -/
theorem take_eq_ok_iff {group group' : Group} {spend : Spend} :
    group.take coin spend = .ok group' ↔
      (∀ origin ∈ group.origin, origin.1 = spend.address) ∧
        group.total.toNat + coin.satoshi.toNat < 2 ^ 64 ∧
        group' = {
          origin := group.origin.or (some (spend.address, spend.lock))
          total := group.total + coin.satoshi
          spends := group.spends ++ [spend] } := by
  unfold Group.take
  cases known : group.origin with
  | none =>
    simp only [pure_bind, Except.bind_eq_ok_iff, addAmounts_eq_ok_iff]
    constructor
    · rintro ⟨_, ⟨fits, rfl⟩, taken⟩
      cases taken
      exact ⟨by simp, fits, rfl⟩
    · rintro ⟨_, fits, rfl⟩
      exact ⟨_, ⟨fits, rfl⟩, rfl⟩
  | some origin =>
    by_cases same : origin.1 = spend.address
    · simp only [same, ne_eq, not_true_eq_false, ↓reduceIte, pure_bind, Except.bind_eq_ok_iff,
        addAmounts_eq_ok_iff]
      constructor
      · rintro ⟨_, ⟨fits, rfl⟩, taken⟩
        cases taken
        exact ⟨by simp [same], fits, rfl⟩
      · rintro ⟨_, fits, rfl⟩
        exact ⟨_, ⟨fits, rfl⟩, rfl⟩
    · simp only [ne_eq, same, not_false_eq_true, ↓reduceIte]
      constructor
      · intro taken
        cases taken
      · rintro ⟨address, _⟩
        exact absurd (address origin rfl) same

private theorem addAmounts_eq_error_iff {what : String} {a b : UInt64} {failure : Error} :
    addAmounts what a b = .error failure ↔
      2 ^ 64 ≤ a.toNat + b.toNat ∧ failure = .invalidInput s!"{what} total overflows" := by
  unfold addAmounts
  split
  · rename_i fits
    exact ⟨fun failed => (nomatch failed), fun failed => absurd fits (Nat.not_lt.mpr failed.1)⟩
  · rename_i overflows
    rw [Except.error.injEq]
    exact ⟨fun same => ⟨Nat.not_lt.mp overflows, same.symm⟩, fun failed => failed.2.symm⟩

/-- A coin does not join a group of another address, nor one whose sum with it is no amount. -/
theorem take_eq_error_iff {group : Group} {spend : Spend} {failure : Error} :
    group.take coin spend = .error failure ↔
      (∃ origin ∈ group.origin, origin.1 ≠ spend.address ∧
          failure = .mixedInputAddress origin.1 spend.address) ∨
        (∀ origin ∈ group.origin, origin.1 = spend.address) ∧
          2 ^ 64 ≤ group.total.toNat + coin.satoshi.toNat ∧
          failure = .invalidInput "input total overflows" := by
  have summed (origin : String × Script) : (do
      let total ← addAmounts "input" group.total coin.satoshi
      return ⟨some origin, total, group.spends ++ [spend]⟩ : Except Error Group) =
        .error failure ↔
      2 ^ 64 ≤ group.total.toNat + coin.satoshi.toNat ∧
        failure = .invalidInput "input total overflows" := by
    rw [Except.bind_eq_error_iff, addAmounts_eq_error_iff]
    exact or_iff_left fun ⟨_, _, done⟩ => nomatch done
  unfold Group.take
  cases known : group.origin with
  | none =>
    simp only [pure_bind, summed]
    simp
  | some origin =>
    by_cases same : origin.1 = spend.address
    · simp only [same, ne_eq, not_true_eq_false, ↓reduceIte, pure_bind, summed]
      simp [same]
    · simp only [ne_eq, same, not_false_eq_true, ↓reduceIte]
      simp [same, bind, Except.bind, throw, throwThe, MonadExceptOf.throw, eq_comm]

/-- A group after some coins of its address have joined it. -/
def Group.join (group : Group) (coins : List Coin) (network : Network) : Group where
  origin := group.origin.or (coins.head?.map fun coin => (coin.address network, coin.lock))
  total := group.total + UInt64.ofNat (Coin.total coins)
  spends := group.spends ++ coins.map (·.spend network)

theorem total_join (coins : List Coin) (network : Network) :
    (Group.join {} coins network).total = UInt64.ofNat (Coin.total coins) := by
  simp [Group.join]

private theorem join_cons (group : Group) (coin : Coin) (coins : List Coin) (network : Network) :
    Group.join {
      origin := group.origin.or (some (coin.address network, coin.lock))
      total := group.total + coin.satoshi
      spends := group.spends ++ [coin.spend network] } coins network =
    group.join (coin :: coins) network := by
  simp only [Group.join, Coin.total, List.head?_cons, Option.map_some, Option.or_assoc,
    Option.some_or, List.map_cons, List.sum_cons, UInt64.ofNat_add, UInt64.ofNat_toNat,
    UInt64.add_assoc, List.append_assoc, List.cons_append, List.nil_append]

private theorem origin_join_cons (group : Group) (coin : Coin) (coins : List Coin)
    (network : Network) :
    (∀ origin ∈ (group.join (coin :: coins) network).origin, origin.1 = coin.address network) ↔
      ∀ origin ∈ group.origin, origin.1 = coin.address network := by
  cases known : group.origin <;> simp [Group.join, known]

/-- What adds a coin to a group. -/
private def joinOne (network : Network) (group : Group) (coin : Coin) : Assembly Group := do
  let spend ← addInput coin network
  (group.take coin spend : Except _ _)

private theorem joinOne_eq_ok_iff {group group' : Group} :
    (joinOne network group coin).runFrom tx = (.ok group', tx') ↔
      coin.Spendable ∧ (∀ origin ∈ group.origin, origin.1 = coin.address network) ∧
        group.total.toNat + coin.satoshi.toNat < 2 ^ 64 ∧
        group' = {
          origin := group.origin.or (some (coin.address network, coin.lock))
          total := group.total + coin.satoshi
          spends := group.spends ++ [coin.spend network] } ∧
        tx' = { tx with inputs := tx.inputs ++ [coin.input] } := by
  simp only [joinOne, runFrom_bind_eq_ok_iff, addInput_eq_ok_iff, runFrom_lift, Prod.mk.injEq,
    take_eq_ok_iff]
  constructor
  · rintro ⟨_, _, ⟨spendable, rfl, rfl⟩, ⟨address, fits, rfl⟩, rfl⟩
    exact ⟨spendable, address, fits, rfl, rfl⟩
  · rintro ⟨spendable, address, fits, rfl, rfl⟩
    exact ⟨_, _, ⟨spendable, rfl, rfl⟩, ⟨address, fits, rfl⟩, rfl⟩

/-- Adding a coin to a group fails before the coin is appended, as adding it by itself does, or
behind that, where the group does not take it. -/
theorem runOn_joinOne_eq_error_iff {group : Group} {failure : Error} :
    Stateful.runOn (do
        let spend ← addInput coin network
        (group.take coin spend : Except _ _)) tx = (.error failure, tx') ↔
      (addInput coin network).runFrom tx = (.error failure, tx') ∨
        coin.Spendable ∧ group.take coin (coin.spend network) = .error failure ∧
          tx' = { tx with inputs := tx.inputs ++ [coin.input] } := by
  rw [Stateful.runOn_bind_eq_error_iff]
  refine or_congr_right ⟨?_, ?_⟩
  · rintro ⟨spend, between, added, failed⟩
    obtain ⟨spendable, rfl, rfl⟩ := addInput_eq_ok_iff.mp added
    rw [Stateful.runOn_lift, Prod.mk.injEq] at failed
    exact ⟨spendable, failed.1, failed.2.symm⟩
  · rintro ⟨spendable, refused, rfl⟩
    refine ⟨_, _, addInput_eq_ok_iff.mpr ⟨spendable, rfl, rfl⟩, ?_⟩
    rw [Stateful.runOn_lift, refused]

/-- Coins are appended to those of a group if all can be spent, have one address with the group's,
and add up to an amount. -/
private theorem foldlM_joinOne_eq_ok_iff {coins : List Coin} {group group' : Group} :
    (coins.foldlM (joinOne network) group).runFrom tx = (.ok group', tx') ↔
      (∀ coin ∈ coins, coin.Spendable) ∧
        (∀ origin ∈ (group.join coins network).origin,
          ∀ coin ∈ coins, origin.1 = coin.address network) ∧
        group.total.toNat + Coin.total coins < 2 ^ 64 ∧ group' = group.join coins network ∧
        tx' = { tx with inputs := tx.inputs ++ coins.map Coin.input } := by
  induction coins generalizing group tx with
  | nil =>
    have fits := group.total.toNat_lt
    have joined : group.join [] network = group := by
      simp [Group.join, Coin.total]
    constructor
    · intro run
      cases run
      simp [joined, Coin.total, fits]
    · rintro ⟨_, _, _, rfl, rfl⟩
      rw [joined, List.map_nil, List.append_nil]
      rfl
  | cons coin coins ih =>
    simp only [List.foldlM_cons, runFrom_bind_eq_ok_iff, joinOne_eq_ok_iff, List.forall_mem_cons]
    have sum (fits : group.total.toNat + coin.satoshi.toNat < 2 ^ 64) :
        (group.total + coin.satoshi).toNat + Coin.total coins =
          group.total.toNat + Coin.total (coin :: coins) := by
      rw [UInt64.toNat_add, Nat.mod_eq_of_lt fits, Nat.add_assoc]
      rfl
    constructor
    · rintro ⟨_, _, ⟨spendable, address, fits, rfl, rfl⟩, run⟩
      obtain ⟨spendables, addresses, total, rfl, rfl⟩ := ih.mp run
      rw [join_cons] at addresses ⊢
      rw [← origin_join_cons] at address
      refine ⟨⟨spendable, spendables⟩, fun origin known => ⟨address origin known,
        addresses origin known⟩, ?_, rfl, ?_⟩
      · rw [← sum fits]
        exact total
      · simp only [List.map_cons, List.append_assoc, List.cons_append, List.nil_append]
    · rintro ⟨⟨spendable, spendables⟩, addresses, total, rfl, rfl⟩
      have fits : group.total.toNat + coin.satoshi.toNat < 2 ^ 64 := by
        simp only [Coin.total, List.map_cons, List.sum_cons] at total
        omega
      refine ⟨_, _, ⟨spendable, ?_, fits, rfl, rfl⟩,
        ih.mpr ⟨spendables, ?_, ?_, (join_cons ..).symm, ?_⟩⟩
      · exact (origin_join_cons ..).mp fun origin known => (addresses origin known).1
      · rw [join_cons]
        exact fun origin known => (addresses origin known).2
      · rw [sum fits]
        exact total
      · simp only [List.map_cons, List.append_assoc, List.cons_append, List.nil_append]

/-- Coins are appended if all can be spent, have one address, and add up to an amount. -/
theorem addInputs_eq_ok_iff {coins : List Coin} {group : Group} :
    (addInputs coins network).runFrom tx = (.ok group, tx') ↔
      (∀ coin ∈ coins, coin.Spendable) ∧
        (∀ first ∈ coins.head?, ∀ coin ∈ coins, first.address network = coin.address network) ∧
        Coin.total coins < 2 ^ 64 ∧ group = Group.join {} coins network ∧
        tx' = { tx with inputs := tx.inputs ++ coins.map Coin.input } := by
  have folded : addInputs coins network = coins.foldlM (joinOne network) {} := rfl
  rw [folded, foldlM_joinOne_eq_ok_iff]
  simp [Group.join]

/-- Whether coins can be appended does not depend on what they are appended to. -/
theorem fst_addInputs_eq_ok_iff {coins : List Coin} {group : Group} :
    ((addInputs coins network).runFrom tx).1 = .ok group ↔
      (∀ coin ∈ coins, coin.Spendable) ∧
        (∀ first ∈ coins.head?, ∀ coin ∈ coins, first.address network = coin.address network) ∧
        Coin.total coins < 2 ^ 64 ∧ group = Group.join {} coins network := by
  constructor
  · intro added
    have run : (addInputs coins network).runFrom tx = (.ok group, _) := Prod.ext added rfl
    obtain ⟨spendable, oneAddress, fits, joined, _⟩ := addInputs_eq_ok_iff.mp run
    exact ⟨spendable, oneAddress, fits, joined⟩
  · rintro ⟨spendable, oneAddress, fits, joined⟩
    exact congrArg Prod.fst (addInputs_eq_ok_iff.mpr ⟨spendable, oneAddress, fits, joined, rfl⟩)

end Inputs

section Outputs

variable {payment : Payment} {network : Network} {tx tx' : Transaction}

/-- A payment is appended if its address can be paid to. -/
theorem addOutput_eq_ok_iff :
    (addOutput payment network).runFrom tx = (.ok (), tx') ↔
      payment.Payable network ∧
        tx' = { tx with outputs := tx.outputs ++ [payment.output network] } := by
  simp only [addOutput, runFrom_lift_bind_eq_ok_iff]
  constructor
  · rintro ⟨script, paid, run⟩
    cases run
    have payable : payment.Payable network := ⟨script, paid⟩
    rw [payable.toScript, Except.ok.injEq] at paid
    exact ⟨payable, by rw [← paid]; rfl⟩
  · rintro ⟨payable, rfl⟩
    exact ⟨_, payable.toScript, rfl⟩

/-- What adds a payment to a sum. -/
private def payOne (network : Network) (total : UInt64) (payment : Payment) :
    Assembly UInt64 := do
  addOutput payment network
  (addAmounts "output" total payment.satoshi : Except _ _)

private theorem payOne_eq_ok_iff {total total' : UInt64} :
    (payOne network total payment).runFrom tx = (.ok total', tx') ↔
      payment.Payable network ∧ total.toNat + payment.satoshi.toNat < 2 ^ 64 ∧
        total' = total + payment.satoshi ∧
        tx' = { tx with outputs := tx.outputs ++ [payment.output network] } := by
  simp only [payOne, runFrom_bind_eq_ok_iff, runFrom_lift, Prod.mk.injEq, addAmounts_eq_ok_iff]
  constructor
  · rintro ⟨⟨⟩, _, added, ⟨fits, rfl⟩, rfl⟩
    obtain ⟨payable, rfl⟩ := addOutput_eq_ok_iff.mp added
    exact ⟨payable, fits, rfl, rfl⟩
  · rintro ⟨payable, fits, rfl, rfl⟩
    exact ⟨(), _, addOutput_eq_ok_iff.mpr ⟨payable, rfl⟩, ⟨fits, rfl⟩, rfl⟩

private theorem foldlM_payOne_eq_ok_iff {payments : List Payment} {total total' : UInt64} :
    (payments.foldlM (payOne network) total).runFrom tx = (.ok total', tx') ↔
      (∀ payment ∈ payments, payment.Payable network) ∧
        total.toNat + Payment.total payments < 2 ^ 64 ∧
        total' = total + UInt64.ofNat (Payment.total payments) ∧
        tx' = { tx with outputs := tx.outputs ++ payments.map (·.output network) } := by
  induction payments generalizing total tx with
  | nil =>
    have fits := total.toNat_lt
    constructor
    · intro run
      cases run
      simp [Payment.total, fits]
    · rintro ⟨_, _, rfl, rfl⟩
      have same : total + UInt64.ofNat (Payment.total []) = total := by simp [Payment.total]
      rw [same, List.map_nil, List.append_nil]
      rfl
  | cons payment payments ih =>
    simp only [List.foldlM_cons, runFrom_bind_eq_ok_iff, payOne_eq_ok_iff, List.forall_mem_cons]
    have sum (fits : total.toNat + payment.satoshi.toNat < 2 ^ 64) :
        (total + payment.satoshi).toNat + Payment.total payments =
          total.toNat + Payment.total (payment :: payments) := by
      rw [UInt64.toNat_add, Nat.mod_eq_of_lt fits, Nat.add_assoc]
      rfl
    have amount : total + payment.satoshi + UInt64.ofNat (Payment.total payments) =
        total + UInt64.ofNat (Payment.total (payment :: payments)) := by
      simp only [Payment.total, List.map_cons, List.sum_cons, UInt64.ofNat_add,
        UInt64.ofNat_toNat, UInt64.add_assoc]
    constructor
    · rintro ⟨_, _, ⟨payable, fits, rfl, rfl⟩, run⟩
      obtain ⟨payables, fits', rfl, rfl⟩ := ih.mp run
      refine ⟨⟨payable, payables⟩, ?_, amount, ?_⟩
      · rw [← sum fits]
        exact fits'
      · simp only [List.map_cons, List.append_assoc, List.cons_append, List.nil_append]
    · rintro ⟨⟨payable, payables⟩, fits', rfl, rfl⟩
      have fits : total.toNat + payment.satoshi.toNat < 2 ^ 64 := by
        simp only [Payment.total, List.map_cons, List.sum_cons] at fits'
        omega
      refine ⟨_, _, ⟨payable, fits, rfl, rfl⟩, ih.mpr ⟨payables, ?_, amount.symm, ?_⟩⟩
      · rw [sum fits]
        exact fits'
      · simp only [List.map_cons, List.append_assoc, List.cons_append, List.nil_append]

/-- Payments are appended if all addresses can be paid to and the amounts add up to an amount. -/
theorem addOutputs_eq_ok_iff {payments : List Payment} {total : UInt64} :
    (addOutputs payments network).runFrom tx = (.ok total, tx') ↔
      (∀ payment ∈ payments, payment.Payable network) ∧ Payment.total payments < 2 ^ 64 ∧
        total = UInt64.ofNat (Payment.total payments) ∧
        tx' = { tx with outputs := tx.outputs ++ payments.map (·.output network) } := by
  have folded : addOutputs payments network = payments.foldlM (payOne network) 0 := rfl
  rw [folded, foldlM_payOne_eq_ok_iff]
  simp

/-- Change goes back to the locking script of the coins. -/
theorem addChange_eq_ok_iff {coin : Coin} {coins : List Coin} {change : UInt64} :
    (addChange (Group.join {} (coin :: coins) network) change network).runFrom tx = (.ok (), tx') ↔
      tx' = { tx with outputs := tx.outputs ++ [⟨change, coin.lock⟩] } := by
  have paid := coin.toScript_address network
  have payable : (⟨coin.address network, change⟩ : Payment).Payable network := ⟨_, paid⟩
  have output : (⟨coin.address network, change⟩ : Payment).output network =
      ⟨change, coin.lock⟩ := by
    rw [Payment.output, paid]
    rfl
  have added : (addOutput ⟨coin.address network, change⟩ network).runFrom tx = (.ok (), tx') ↔ _ :=
    addOutput_eq_ok_iff
  rw [output] at added
  exact added.trans (and_iff_right payable)

/-- Change above a threshold goes back to the first of the coins. -/
theorem runFrom_payChange {α : Type} {coins : List Coin} {threshold rest : UInt64}
    (spends : threshold < rest → coins ≠ []) (value : α) (tx : Transaction) :
    (if threshold < rest then do
        addChange (Group.join {} coins network) rest network
        pure value
      else pure value : Assembly α).runFrom tx =
      (.ok value, { tx with
        outputs := tx.outputs ++
          if threshold < rest then coins.head?.toList.map fun coin => ⟨rest, coin.lock⟩ else [] }) := by
  split
  · rename_i above
    obtain ⟨coin, coins, rfl⟩ := List.exists_cons_of_ne_nil (spends above)
    exact runFrom_bind_eq_ok_iff.mpr ⟨(), _, addChange_eq_ok_iff.mpr rfl, rfl⟩
  · rw [List.append_nil]
    rfl

end Outputs

end Assembly

end Custody
