import Custody.Bytes

/-! # Checked computations

In a checked computation an access out of range has no outcome at all, neither a result nor a
failure. So it says where a program relies on an index, a slice or a difference being in range; and
the program never makes such an access if the checked computation always has the program's outcome.
-/

namespace Custody

/-- A computation that may fail, and has no outcome once an access is out of range. -/
abbrev Checked (ε α : Type) := ExceptT ε Option α

/-- A checked computation over a state, which it leaves whether it fails or not. -/
abbrev CheckedOn (ε σ α : Type) := ExceptT ε (StateT σ Option) α

namespace Checked

variable {ε σ α β : Type}

section Access

/-- The outcome of a computation, if no access in it was out of range. -/
def outcome? (checked : Checked ε α) : Option (Except ε α) := checked.run

/-- The value of an access, if that is in range. -/
def access (value? : Option α) : Checked ε α := ExceptT.mk (value?.map .ok)

/-- The item at an index. -/
def item (items : List α) (index : Nat) : Checked ε α := access items[index]?

/-- The items from an index on. -/
def tail (items : List α) (start : Nat) : Checked ε (List α) :=
  access (if start ≤ items.length then some (items.drop start) else none)

/-- The items from one index up to another. -/
def slice (items : List α) (start stop : Nat) : Checked ε (List α) :=
  access (if start ≤ stop ∧ stop ≤ items.length then
    some ((items.drop start).take (stop - start)) else none)

/-- The items of a list that has a given size. -/
def copy (size : Nat) (items : List α) : Checked ε { items : List α // items.length = size } :=
  access (if same : items.length = size then some ⟨items, same⟩ else none)

/-- The difference of two sizes, the first of which is not below the second. -/
def difference (a b : Nat) : Checked ε Nat :=
  access (if b ≤ a then some (a - b) else none)

/-- The difference of two amounts, the first of which is not below the second. -/
def remainder (a b : UInt64) : Checked ε UInt64 :=
  access (if b ≤ a then some (a - b) else none)

/-- The items of two lists of the same length, side by side. -/
def aligned (items : List α) (others : List β) : Checked ε (List (α × β)) :=
  access (if items.length = others.length then some (items.zip others) else none)

end Access

section Total

/-- A computation without accesses. -/
def total (outcome : Except ε α) : Checked ε α := ExceptT.mk (some outcome)

variable {checked : Checked ε α} {outcome : Except ε α} {next : α → Checked ε β}
  {next' : α → Except ε β}

theorem outcome?_total (outcome : Except ε α) : (total outcome).outcome? = some outcome := rfl

theorem access_some (value : α) : (access (some value) : Checked ε α) = pure value := rfl

@[simp] theorem item_zero (first : α) (items : List α) :
    (item (first :: items) 0 : Checked ε α) = pure first := rfl

theorem item_of_getElem? {items : List α} {index : Nat} {value : α}
    (held : items[index]? = some value) : (item items index : Checked ε α) = pure value := by
  rw [item, held, access_some]

theorem tail_of_le {items : List α} {start : Nat} (inRange : start ≤ items.length) :
    (tail items start : Checked ε (List α)) = pure (items.drop start) := by
  rw [tail, if_pos inRange, access_some]

theorem slice_of_le {items : List α} {start stop : Nat} (ordered : start ≤ stop)
    (inRange : stop ≤ items.length) :
    (slice items start stop : Checked ε (List α)) =
      pure ((items.drop start).take (stop - start)) := by
  rw [slice, if_pos ⟨ordered, inRange⟩, access_some]

theorem copy_of_length {size : Nat} {items : List α} (same : items.length = size) :
    (copy size items : Checked ε _) = pure ⟨items, same⟩ := by
  rw [copy, dif_pos same, access_some]

theorem difference_of_le {a b : Nat} (inRange : b ≤ a) :
    (difference a b : Checked ε Nat) = pure (a - b) := by
  rw [difference, if_pos inRange, access_some]

theorem remainder_of_le {a b : UInt64} (inRange : b ≤ a) :
    (remainder a b : Checked ε UInt64) = pure (a - b) := by
  rw [remainder, if_pos inRange, access_some]

theorem aligned_of_length {items : List α} {others : List β}
    (same : items.length = others.length) :
    (aligned items others : Checked ε (List (α × β))) = pure (items.zip others) := by
  rw [aligned, if_pos same, access_some]

/-- Failures are worded without accesses. -/
theorem adapt_total {ε' : Type} (change : ε → ε') (outcome : Except ε α) :
    ExceptT.adapt change (total outcome) = total (outcome.mapError change) := by
  cases outcome <;> rfl

/-- A sequence is free of accesses out of range if its first part is, and what follows is for every
result of that. -/
theorem bind_eq_total (first : checked = total outcome)
    (later : ∀ value, outcome = .ok value → next value = total (next' value)) :
    checked >>= next = total (outcome >>= next') := by
  rw [first]
  cases outcome with
  | error failure => rfl
  | ok value => exact later value rfl

/-- A choice is free of accesses out of range if both of its branches are. -/
theorem ite_eq_total {choice : Prop} [Decidable choice] {yes no : Checked ε α}
    {yes' no' : Except ε α} (chosen : yes = total yes') (other : no = total no') :
    (if choice then yes else no) = total (if choice then yes' else no') := by
  split
  · exact chosen
  · exact other

/-- A loop is free of accesses out of range if its rounds are. -/
theorem foldlM_eq_total {round : β → α → Checked ε β} {round' : β → α → Except ε β}
    {items : List α} (rounds : ∀ item ∈ items, ∀ done, round done item = total (round' done item))
    (start : β) : items.foldlM round start = total (items.foldlM round' start) := by
  induction items generalizing start with
  | nil => rfl
  | cons item items ih =>
    obtain ⟨here, later⟩ := List.forall_mem_cons.mp rounds
    rw [List.foldlM_cons, List.foldlM_cons]
    exact bind_eq_total (here start) fun done _ => ih later done

end Total

section On

/-- The outcome of a computation and the state it leaves, if no access in it was out of range. -/
def outcomeOn? (checked : CheckedOn ε σ α) (state : σ) : Option (Except ε α × σ) :=
  checked.run.run state

/-- A step without accesses. -/
def totalOn (step : ExceptT ε (StateM σ) α) : CheckedOn ε σ α :=
  ExceptT.mk fun state => some (step.run.run state)

/-- A checked computation that leaves the state as it is. -/
def on (checked : Checked ε α) : CheckedOn ε σ α :=
  ExceptT.mk fun state => checked.outcome?.map (·, state)

variable {checked : CheckedOn ε σ α} {step : ExceptT ε (StateM σ) α}
  {next : α → CheckedOn ε σ β} {next' : α → ExceptT ε (StateM σ) β}

theorem on_eq_totalOn {checked : Checked ε α} {outcome : Except ε α}
    (same : checked = total outcome) :
    (on checked : CheckedOn ε σ α) = totalOn (liftM outcome) := by
  rw [same]
  cases outcome <;> rfl

theorem outcomeOn?_totalOn (step : ExceptT ε (StateM σ) α) (state : σ) :
    outcomeOn? (totalOn step) state = some (step.run.run state) := rfl

theorem bind_eq_totalOn (first : checked = totalOn step)
    (later : ∀ value, next value = totalOn (next' value)) :
    checked >>= next = totalOn (step >>= next') := by
  obtain rfl : next = fun value => totalOn (next' value) := funext later
  rw [first]
  funext state
  simp only [totalOn, bind, ExceptT.bind, ExceptT.run, ExceptT.mk, StateT.run, StateT.bind,
    Option.bind_some]
  rcases step state with ⟨outcome, left⟩
  cases outcome <;> rfl

theorem ite_eq_totalOn {choice : Prop} [Decidable choice] {yes no : CheckedOn ε σ α}
    {yes' no' : ExceptT ε (StateM σ) α} (chosen : yes = totalOn yes') (other : no = totalOn no') :
    (if choice then yes else no) = totalOn (if choice then yes' else no') := by
  split
  · exact chosen
  · exact other

end On

end Checked

end Custody
