import Custody.Assembly
import Custody.Proofs.Stateful

/-! # Assembly only appends

Whatever transaction a step of assembly is given, it has the same outcome and appends the same inputs
and outputs behind those that are there. So the outcome of a sequence of steps is the sequence of
their outcomes, and is the same for all transactions that the sequence may start from.
-/

namespace Custody

/-- A transaction with further inputs and outputs behind its own. -/
def Transaction.append (tx : Transaction) (inputs : List TxIn) (outputs : List TxOut) :
    Transaction :=
  { tx with inputs := tx.inputs ++ inputs, outputs := tx.outputs ++ outputs }

theorem Transaction.append_nil (tx : Transaction) : tx.append [] [] = tx := by
  simp only [append, List.append_nil]

theorem Transaction.append_append (tx : Transaction) (inputs inputs' : List TxIn)
    (outputs outputs' : List TxOut) :
    (tx.append inputs outputs).append inputs' outputs' =
      tx.append (inputs ++ inputs') (outputs ++ outputs') := by
  simp only [append, List.append_assoc]

namespace Assembly

variable {α β : Type} {step : Assembly α} {result : Except Error α} {next : α → Assembly β}

/-- Whether a step does the same to every transaction: it has the outcome, and appends the same
inputs and outputs. -/
def Yields (step : Assembly α) (result : Except Error α) : Prop :=
  ∃ inputs outputs, ∀ tx, step.runFrom tx = (result, tx.append inputs outputs)

/-- The outcome of a step on the blank transaction. -/
def outcome (step : Assembly α) : Except Error α :=
  (step.runFrom Transaction.blank).1

theorem Yields.runFrom_eq (yields : Yields step result) (tx : Transaction) :
    (step.runFrom tx).1 = result := by
  obtain ⟨inputs, outputs, run⟩ := yields
  rw [run]

/-- There is one outcome, that on the blank transaction. -/
theorem Yields.outcome (yields : Yields step result) : Yields step step.outcome := by
  rwa [show step.outcome = result from yields.runFrom_eq Transaction.blank]

section Closure

theorem yields_pure (value : α) : Yields (pure value) (.ok value) :=
  ⟨[], [], fun tx => by rw [tx.append_nil]; rfl⟩

theorem yields_throw (failure : Error) : Yields (throw failure : Assembly α) (.error failure) :=
  ⟨[], [], fun tx => by rw [tx.append_nil]; rfl⟩

theorem yields_lift (result : Except Error α) : Yields (liftM result : Assembly α) result :=
  ⟨[], [], fun tx => by rw [tx.append_nil]; exact Stateful.runOn_lift result tx⟩

theorem yields_appendInputs (inputs : List TxIn) :
    Yields (modify fun tx => { tx with inputs := tx.inputs ++ inputs }) (.ok ()) :=
  ⟨inputs, [], fun tx => by rw [Transaction.append, List.append_nil]; rfl⟩

theorem yields_appendOutputs (outputs : List TxOut) :
    Yields (modify fun tx => { tx with outputs := tx.outputs ++ outputs }) (.ok ()) :=
  ⟨[], outputs, fun tx => by rw [Transaction.append, List.append_nil]; rfl⟩

/-- The outcome of a sequence of two steps is that of the one and then that of the other. -/
theorem Yields.bind {later : α → Except Error β} (here : Yields step result)
    (there : ∀ value, result = .ok value → Yields (next value) (later value)) :
    Yields (step >>= next) (result >>= later) := by
  obtain ⟨inputs, outputs, run⟩ := here
  have sequence (tx : Transaction) := Stateful.runOn_bind step next tx
  simp only [show ∀ tx, Stateful.runOn step tx = _ from run] at sequence
  cases result with
  | error failure => exact ⟨inputs, outputs, sequence⟩
  | ok value =>
    obtain ⟨inputs', outputs', run'⟩ := there value rfl
    refine ⟨inputs ++ inputs', outputs ++ outputs', fun tx => ?_⟩
    rw [← tx.append_append]
    exact (sequence tx).trans (run' _)

theorem Yields.bind_ok {value : α} {later : Except Error β} (here : Yields step (.ok value))
    (there : Yields (next value) later) : Yields (step >>= next) later := by
  change Yields (step >>= next) (Except.ok value >>= fun _ => later)
  refine here.bind ?_
  rintro _ ⟨⟩
  exact there

/-- A loop has an outcome if each of its rounds has. -/
theorem exists_yields_foldlM {round : β → α → Assembly β}
    (each : ∀ done item, ∃ result, Yields (round done item) result) (start : β) (items : List α) :
    ∃ result, Yields (items.foldlM round start) result := by
  induction items generalizing start with
  | nil => exact ⟨_, yields_pure start⟩
  | cons item items ih =>
    obtain ⟨result, here⟩ := each start item
    rw [List.foldlM_cons]
    exact ⟨_, here.bind fun value _ => (ih value).choose_spec⟩

end Closure

section Steps

theorem exists_yields_addInput (coin : Coin) (network : Network) :
    ∃ result, Yields (addInput coin network) result := by
  unfold addInput
  by_cases worthless : coin.satoshi = 0
  · rw [if_pos worthless]
    exact ⟨_, yields_throw (α := Spend) _⟩
  · rw [if_neg worthless]
    dsimp only
    split
    · exact ⟨_, yields_throw _⟩
    · exact ⟨_, (yields_lift _).bind fun spend _ => (yields_appendInputs _).bind fun _ _ =>
        yields_pure spend⟩

/-- Adding coins has one outcome, whatever was added before them. -/
theorem yields_addInputs (coins : List Coin) (network : Network) :
    Yields (addInputs coins network) (addInputs coins network).outcome := by
  have each (group : Group) (coin : Coin) : ∃ result, Yields (do
      let spend ← addInput coin network
      (group.take coin spend : Except _ _)) result := by
    obtain ⟨result, added⟩ := exists_yields_addInput coin network
    exact ⟨_, added.bind fun spend _ => yields_lift (group.take coin spend)⟩
  obtain ⟨result, folded⟩ := exists_yields_foldlM each {} coins
  exact folded.outcome

theorem yields_addOutput (payment : Payment) (network : Network) :
    Yields (addOutput payment network) (addOutput payment network).outcome :=
  Yields.outcome ((yields_lift _).bind fun _ _ => yields_appendOutputs _)

/-- Adding payments has one outcome, whatever was added before them. -/
theorem yields_addOutputs (payments : List Payment) (network : Network) :
    Yields (addOutputs payments network) (addOutputs payments network).outcome := by
  have each (total : UInt64) (payment : Payment) : ∃ result, Yields (do
      addOutput payment network
      (addAmounts "output" total payment.satoshi : Except _ _)) result :=
    ⟨_, (yields_addOutput payment network).bind fun _ _ => yields_lift _⟩
  obtain ⟨result, folded⟩ := exists_yields_foldlM each 0 payments
  exact folded.outcome

end Steps

end Assembly

end Custody
