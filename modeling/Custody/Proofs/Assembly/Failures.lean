import Custody.Proofs.Assembly
import Custody.Proofs.Assembly.Appends

/-! # How assembly fails

A coin or a payment by itself is refused for what it is. Together they are refused for a second
address or totals that are no amounts as well, but never for want of funds: whether the coins cover
what is paid is asked only when all is assembled.
-/

namespace Custody

/-- Whether a failure is about a coin or a payment by itself. -/
def Error.concernsItem : Error → Bool
  | .invalidInput .. | .invalidScript .. | .invalidAddress .. | .invalidSequence .. => true
  | _ => false

/-- Whether a failure is about coins or payments, each by itself or for another address. -/
def Error.concernsItems : Error → Bool
  | .mixedInputAddress .. => true
  | failure => failure.concernsItem

/-- Whether a failure is about a coin among those in front of it: they have another address, or
leave no room for its amount. -/
def Error.concernsGroup : Error → Bool
  | .mixedInputAddress .. => true
  | .invalidInput reason => reason = "input total overflows"
  | _ => false

theorem Error.concernsItems_of_concernsItem {failure : Error}
    (concerns : failure.concernsItem = true) : failure.concernsItems = true := by
  cases failure with
  | mixedInputAddress => rfl
  | _ => exact concerns

theorem Error.isInsufficient_of_concernsItems {failure : Error}
    (concerns : failure.concernsItems = true) : failure.isInsufficient = false := by
  cases failure with
  | insufficientMain | insufficientFee => cases concerns
  | _ => rfl

namespace Assembly

variable {α β : Type} {step : Assembly α} {next : α → Assembly β} {failure : Error}
  {kind kind' : Error → Prop}

/-- Whether a step fails only by failures of a kind, whatever transaction it is given. -/
def FailsOnly (kind : Error → Prop) (step : Assembly α) : Prop :=
  ∀ tx failure left, step.runFrom tx = (.error failure, left) → kind failure

/-- Whether a step never fails for want of funds. -/
def Solvent (step : Assembly α) : Prop :=
  FailsOnly (fun failure => failure.isInsufficient = false) step

section Closure

theorem FailsOnly.mono (here : FailsOnly kind step)
    (wider : ∀ failure, kind failure → kind' failure) : FailsOnly kind' step := by
  intro tx failure left run
  exact wider failure (here tx failure left run)

theorem failsOnly_lift {result : Except Error α}
    (each : ∀ failure, result = .error failure → kind failure) :
    FailsOnly kind (liftM result) := by
  intro tx failure left run
  rw [runFrom_lift] at run
  exact each failure (congrArg Prod.fst run)

theorem failsOnly_throw (known : kind failure) : FailsOnly kind (throw failure : Assembly α) := by
  intro tx failure left run
  cases run
  exact known

theorem failsOnly_pure (value : α) : FailsOnly kind (pure value) := by
  intro tx failure left run
  cases run

theorem failsOnly_modify (change : Transaction → Transaction) :
    FailsOnly kind (modify change) := by
  intro tx failure left run
  cases run

theorem FailsOnly.bind (here : FailsOnly kind step) (there : ∀ value, FailsOnly kind (next value)) :
    FailsOnly kind (step >>= next) := by
  intro tx failure left run
  rcases Stateful.runOn_bind_eq_error_iff.mp run with failed | ⟨value, between, _, failed⟩
  · exact here tx failure left failed
  · exact there value between failure left failed

theorem failsOnly_foldlM {round : β → α → Assembly β}
    (each : ∀ done item, FailsOnly kind (round done item)) (start : β) (items : List α) :
    FailsOnly kind (items.foldlM round start) := by
  intro tx failure left run
  obtain ⟨_, item, _, done, between, _, _, failed⟩ := Stateful.runOn_foldlM_eq_error_iff.mp run
  exact each done item between failure left failed

theorem FailsOnly.outcome (here : FailsOnly kind step) (failed : step.outcome = .error failure) :
    kind failure :=
  here Transaction.blank failure _ (Prod.ext failed rfl)

end Closure

section Steps

variable {network : Network}

private theorem concerns_of_derive {script : Script} {backup : Bool} {sequence : UInt32}
    (failed : Spend.derive script backup sequence network = .error failure) :
    failure.concernsItem = true ∧ failure.concernsGroup = false := by
  rcases Except.bind_eq_error_iff.mp failed with failed | ⟨role, _, failed⟩
  · unfold Role.classify at failed
    repeat' split at failed
    all_goals cases failed
    exact ⟨rfl, rfl⟩
  · rcases Except.bind_eq_error_iff.mp failed with failed | ⟨address, _, failed⟩
    · unfold Address.encodeWitness at failed
      repeat' split at failed
      all_goals cases failed
      all_goals exact ⟨rfl, rfl⟩
    · dsimp only at failed
      generalize (if role = Role.observer then sequence else 0xFFFFFFFF) = chosen at failed
      by_cases zero : chosen = 0
      · rw [if_pos zero] at failed
        cases failed
        exact ⟨rfl, rfl⟩
      · rw [if_neg zero] at failed
        cases failed

private theorem concernsItem_of_toScript {text : String}
    (failed : Address.toScript text network = .error failure) : failure.concernsItem = true := by
  unfold Address.toScript at failed
  split at failed
  · cases failed
  · cases failed
    rfl

private theorem concernsItem_of_addAmounts {what : String} {a b : UInt64}
    (failed : addAmounts what a b = .error failure) : failure.concernsItem = true := by
  unfold addAmounts at failed
  split at failed
  · cases failed
  · cases failed
    rfl

/-- A coin is refused by a group for its address or its amount, and for nothing else. -/
theorem concerns_of_take {group : Group} {coin : Coin} {spend : Spend}
    (failed : group.take coin spend = .error failure) :
    failure.concernsItems = true ∧ failure.concernsGroup = true := by
  rcases take_eq_error_iff.mp failed with ⟨_, _, _, rfl⟩ | ⟨_, _, rfl⟩
  · exact ⟨rfl, rfl⟩
  · exact ⟨rfl, rfl⟩

/-- A coin without value is told apart from a total that is no amount by the end of the text. -/
private theorem concernsGroup_of_worthless (hash : String) (index : Nat) :
    Error.concernsGroup (.invalidInput s!"input {hash}:{index} has zero value") = false := by
  simp only [Error.concernsGroup, decide_eq_false_iff_not]
  intro same
  have last := congrArg (fun text => text.toList.getLast?) same
  simp only [String.toList_append, List.getLast?_append] at last
  cases last

/-- A hash that names no transaction is told apart from such a total by the beginning. -/
private theorem concernsGroup_of_unnamed (hash : String) :
    Error.concernsGroup
      (.invalidInput s!"invalid transaction hash {hash}: expected 64 hexadecimal digits") =
        false := by
  simp only [Error.concernsGroup, decide_eq_false_iff_not]
  intro same
  have first := congrArg (fun text => text.toList.take 3) same
  simp only [String.toList_append, List.append_assoc] at first
  cases first

/-- A coin by itself is refused for what it is, and not for the coins in front of it. -/
theorem failsOnly_addInput (coin : Coin) (network : Network) :
    FailsOnly (fun failure => failure.concernsItem = true ∧ failure.concernsGroup = false)
      (addInput coin network) := by
  unfold addInput
  by_cases worthless : coin.satoshi = 0
  · rw [if_pos worthless]
    exact failsOnly_throw (α := Spend) ⟨rfl, concernsGroup_of_worthless _ _⟩
  · rw [if_neg worthless]
    dsimp only
    split
    · exact failsOnly_throw ⟨rfl, concernsGroup_of_unnamed _⟩
    · apply (failsOnly_lift fun _ => concerns_of_derive).bind
      intro spend
      exact (failsOnly_modify _).bind fun _ => failsOnly_pure spend

/-- A payment by itself is refused for its address. -/
theorem failsOnly_addOutput (payment : Payment) (network : Network) :
    FailsOnly (fun failure => failure.concernsItem = true) (addOutput payment network) := by
  apply (failsOnly_lift fun _ => concernsItem_of_toScript).bind
  intro script
  exact failsOnly_modify _

/-- Coins are refused for what they are, or for their addresses. -/
theorem failsOnly_addInputs (coins : List Coin) (network : Network) :
    FailsOnly (fun failure => failure.concernsItems = true) (addInputs coins network) := by
  apply failsOnly_foldlM
  intro group coin
  apply ((failsOnly_addInput coin network).mono fun _ concerns =>
    Error.concernsItems_of_concernsItem concerns.1).bind
  intro spend
  exact failsOnly_lift fun _ failed => (concerns_of_take failed).1

/-- Payments are refused for what they are. -/
theorem failsOnly_addOutputs (payments : List Payment) (network : Network) :
    FailsOnly (fun failure => failure.concernsItems = true) (addOutputs payments network) := by
  have each : FailsOnly (fun failure => failure.concernsItem = true)
      (addOutputs payments network) := by
    apply failsOnly_foldlM
    intro total payment
    apply (failsOnly_addOutput payment network).bind
    intro _
    exact failsOnly_lift fun _ => concernsItem_of_addAmounts
  exact each.mono fun _ => Error.concernsItems_of_concernsItem

theorem solvent_addInputs (coins : List Coin) (network : Network) :
    Solvent (addInputs coins network) :=
  (failsOnly_addInputs coins network).mono fun _ => Error.isInsufficient_of_concernsItems

theorem solvent_addOutputs (payments : List Payment) (network : Network) :
    Solvent (addOutputs payments network) :=
  (failsOnly_addOutputs payments network).mono fun _ => Error.isInsufficient_of_concernsItems

end Steps

end Assembly

end Custody
