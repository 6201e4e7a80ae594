/-! # Computations that may fail

A sequence of computations succeeds exactly when each of them does, and otherwise fails as the first
that does not.
-/

namespace Custody.Except

variable {ε α β : Type}

theorem bind_eq_ok_iff {first : Except ε α} {next : α → Except ε β} {result : β} :
    first >>= next = .ok result ↔ ∃ middle, first = .ok middle ∧ next middle = .ok result := by
  cases first with
  | error failure => simp [bind, Except.bind]
  | ok middle => simp [bind, Except.bind]

theorem bind_eq_error_iff {first : Except ε α} {next : α → Except ε β} {failure : ε} :
    first >>= next = .error failure ↔
      first = .error failure ∨ ∃ middle, first = .ok middle ∧ next middle = .error failure := by
  cases first with
  | error stopped => simp [bind, Except.bind]
  | ok middle => simp [bind, Except.bind]

theorem map_eq_ok_iff {computed : Except ε α} {change : α → β} {result : β} :
    computed.map change = .ok result ↔ ∃ value, computed = .ok value ∧ change value = result := by
  cases computed <;> simp [Except.map]

theorem map_eq_error_iff {computed : Except ε α} {change : α → β} {failure : ε} :
    computed.map change = .error failure ↔ computed = .error failure := by
  cases computed <;> simp [Except.map]

theorem mapError_eq_ok_iff {ε' : Type} {computed : Except ε α} {change : ε → ε'} {result : α} :
    computed.mapError change = .ok result ↔ computed = .ok result := by
  cases computed with
  | error failure => exact ⟨fun done => (nomatch done), fun done => (nomatch done)⟩
  | ok value =>
    change (Except.ok value : Except ε' α) = .ok result ↔ _
    rw [Except.ok.injEq, Except.ok.injEq]

theorem mapError_eq_error_iff {ε' : Type} {computed : Except ε α} {change : ε → ε'}
    {failure : ε'} :
    computed.mapError change = .error failure ↔
      ∃ cause, computed = .error cause ∧ change cause = failure := by
  cases computed with
  | error cause =>
    change (Except.error (change cause) : Except ε' α) = .error failure ↔ _
    simp
  | ok value => exact ⟨fun failed => (nomatch failed), fun ⟨_, failed, _⟩ => (nomatch failed)⟩

/-- Computations that return nothing follow one another if all of them succeed. -/
theorem seq_eq_ok_iff {first : Except ε Unit} {rest : Except ε β} {result : β} :
    (first >>= fun _ => rest) = .ok result ↔ first = .ok () ∧ rest = .ok result := by
  rw [bind_eq_ok_iff]
  exact ⟨fun ⟨⟨⟩, done⟩ => done, fun done => ⟨(), done⟩⟩

/-- Past a check the computation goes on, unless the check fails. -/
theorem check_eq_ok_iff {fails : Prop} [Decidable fails] {failure : ε} {rest : Except ε β}
    {result : β} :
    (if fails then (throw failure : Except ε α) >>= fun _ => rest else rest) = .ok result ↔
      ¬ fails ∧ rest = .ok result := by
  split
  · rename_i failed
    exact ⟨fun done => (nomatch done), fun done => absurd failed done.1⟩
  · rename_i passed
    exact ⟨fun done => ⟨passed, done⟩, fun done => done.2⟩

/-- A check at the end succeeds unless it fails. -/
theorem last_check_eq_ok_iff {fails : Prop} [Decidable fails] {failure : ε} :
    (if fails then throw failure else pure () : Except ε Unit) = .ok () ↔ ¬ fails := by
  split
  · rename_i failed
    exact ⟨fun done => (nomatch done), fun passed => absurd failed passed⟩
  · rename_i passed
    exact ⟨fun _ => passed, fun _ => rfl⟩

/-- A pass over a list succeeds if every step of it does. -/
theorem forM_eq_ok_iff {step : α → Except ε Unit} {items : List α} :
    items.forM step = .ok () ↔ ∀ item ∈ items, step item = .ok () := by
  induction items with
  | nil => exact ⟨fun _ _ member => (nomatch member), fun _ => rfl⟩
  | cons item items ih =>
    change (step item >>= fun _ => items.forM step) = .ok () ↔ _
    rw [seq_eq_ok_iff, ih, List.forall_mem_cons]

/-- A pass over a list fails as the first step that does. -/
theorem forM_eq_error_iff {step : α → Except ε Unit} {items : List α} {failure : ε} :
    items.forM step = .error failure ↔
      ∃ before item after, items = before ++ item :: after ∧
        (∀ passed ∈ before, step passed = .ok ()) ∧ step item = .error failure := by
  induction items with
  | nil =>
    refine ⟨fun failed => (nomatch failed), ?_⟩
    rintro ⟨before, item, after, split, _⟩
    cases before <;> cases split
  | cons head items ih =>
    change (step head >>= fun _ => items.forM step) = .error failure ↔ _
    cases first : step head with
    | error stopped =>
      constructor
      · intro failed
        exact ⟨[], head, items, rfl, fun _ member => (nomatch member), first.trans failed⟩
      · rintro ⟨before, item, after, split, passed, failed⟩
        cases before with
        | nil =>
          obtain ⟨rfl, _⟩ := List.cons.inj split
          exact first.symm.trans failed
        | cons early before =>
          obtain ⟨rfl, _⟩ := List.cons.inj split
          rw [passed head List.mem_cons_self] at first
          cases first
    | ok =>
      change items.forM step = .error failure ↔ _
      rw [ih]
      constructor
      · rintro ⟨before, item, after, rfl, passed, failed⟩
        exact ⟨head :: before, item, after, rfl, List.forall_mem_cons.mpr ⟨first, passed⟩, failed⟩
      · rintro ⟨before, item, after, split, passed, failed⟩
        cases before with
        | nil =>
          obtain ⟨rfl, _⟩ := List.cons.inj split
          rw [first] at failed
          cases failed
        | cons early before =>
          obtain ⟨rfl, rfl⟩ := List.cons.inj split
          exact ⟨before, item, after, rfl, (List.forall_mem_cons.mp passed).2, failed⟩

end Custody.Except
