/-! # Steps over a state that may fail

A step leaves a state whether it fails or not. A sequence of steps succeeds exactly when each of
them does, on the state that those before it leave.
-/

namespace Custody.Stateful

variable {ε σ α β : Type} {state left : σ}

/-- The result of a step and the state it leaves. -/
def runOn (step : ExceptT ε (StateM σ) α) (state : σ) : Except ε α × σ :=
  step.run.run state

theorem runOn_lift (outcome : Except ε α) (state : σ) :
    runOn (liftM outcome : ExceptT ε (StateM σ) α) state = (outcome, state) := by
  cases outcome <;> rfl

/-- A failing step ends a sequence, in the state that the step leaves. -/
theorem runOn_bind (first : ExceptT ε (StateM σ) α) (next : α → ExceptT ε (StateM σ) β)
    (state : σ) :
    runOn (first >>= next) state =
      match runOn first state with
      | (.ok middle, between) => runOn (next middle) between
      | (.error failure, between) => (.error failure, between) := by
  simp only [runOn, bind, ExceptT.bind, ExceptT.run, ExceptT.mk, StateT.run, StateT.bind]
  rcases first state with ⟨outcome, between⟩
  cases outcome <;> rfl

theorem runOn_bind_eq_ok_iff {first : ExceptT ε (StateM σ) α} {next : α → ExceptT ε (StateM σ) β}
    {result : β} :
    runOn (first >>= next) state = (.ok result, left) ↔
      ∃ middle between, runOn first state = (.ok middle, between) ∧
        runOn (next middle) between = (.ok result, left) := by
  rw [runOn_bind]
  rcases runOn first state with ⟨outcome, between⟩
  cases outcome with
  | error failure => simp
  | ok middle =>
    constructor
    · intro run
      exact ⟨middle, between, rfl, run⟩
    · rintro ⟨_, _, ⟨⟩, run⟩
      exact run

theorem runOn_bind_eq_error_iff {first : ExceptT ε (StateM σ) α}
    {next : α → ExceptT ε (StateM σ) β} {failure : ε} :
    runOn (first >>= next) state = (.error failure, left) ↔
      runOn first state = (.error failure, left) ∨
        ∃ middle between, runOn first state = (.ok middle, between) ∧
          runOn (next middle) between = (.error failure, left) := by
  rw [runOn_bind]
  rcases runOn first state with ⟨outcome, between⟩
  cases outcome with
  | error stopped => simp
  | ok middle =>
    constructor
    · intro run
      exact .inr ⟨middle, between, rfl, run⟩
    · rintro (failed | ⟨_, _, ⟨⟩, run⟩)
      · cases failed
      · exact run

theorem runOn_lift_bind_eq_ok_iff {outcome : Except ε α} {next : α → ExceptT ε (StateM σ) β}
    {result : β} :
    runOn (liftM outcome >>= next) state = (.ok result, left) ↔
      ∃ middle, outcome = .ok middle ∧ runOn (next middle) state = (.ok result, left) := by
  simp only [runOn_bind_eq_ok_iff, runOn_lift, Prod.mk.injEq]
  constructor
  · rintro ⟨middle, _, ⟨done, rfl⟩, run⟩
    exact ⟨middle, done, run⟩
  · rintro ⟨middle, done, run⟩
    exact ⟨middle, state, ⟨done, rfl⟩, run⟩

theorem runOn_get_eq_ok_iff {found : σ} :
    runOn (get : ExceptT ε (StateM σ) σ) state = (.ok found, left) ↔
      state = found ∧ state = left := by
  change (Except.ok state, state) = (Except.ok found, left) ↔ _
  simp

theorem runOn_pure_eq_ok_iff {value result : α} :
    runOn (pure value : ExceptT ε (StateM σ) α) state = (.ok result, left) ↔
      value = result ∧ state = left := by
  change (Except.ok value, state) = (Except.ok result, left) ↔ _
  simp

theorem runOn_throw_ne_ok {failure : ε} {result : α} :
    runOn (throw failure : ExceptT ε (StateM σ) α) state ≠ (.ok result, left) := by
  intro run
  cases run

section Fold

variable {step : β → α → ExceptT ε (StateM σ) β}

/-- A loop over a list fails as its first failing round does, on what the rounds before it leave. -/
theorem runOn_foldlM_eq_error_iff {items : List α} {start : β} {failure : ε} :
    runOn (items.foldlM step start) state = (.error failure, left) ↔
      ∃ before item after done between, items = before ++ item :: after ∧
        runOn (before.foldlM step start) state = (.ok done, between) ∧
        runOn (step done item) between = (.error failure, left) := by
  induction items generalizing start state with
  | nil =>
    constructor
    · intro run
      cases run
    · rintro ⟨before, item, after, _, _, split, _⟩
      cases before <;> cases split
  | cons head items ih =>
    rw [List.foldlM_cons, runOn_bind_eq_error_iff]
    constructor
    · rintro (failed | ⟨next, middle, passed, run⟩)
      · exact ⟨[], head, items, start, state, rfl, rfl, failed⟩
      · obtain ⟨before, item, after, done, between, rfl, run, failed⟩ := ih.mp run
        refine ⟨head :: before, item, after, done, between, rfl, ?_, failed⟩
        rw [List.foldlM_cons, runOn_bind_eq_ok_iff]
        exact ⟨next, middle, passed, run⟩
    · rintro ⟨before, item, after, done, between, split, run, failed⟩
      cases before with
      | nil =>
        obtain ⟨rfl, _⟩ := List.cons.inj split
        cases run
        exact .inl failed
      | cons early before =>
        obtain ⟨rfl, rfl⟩ := List.cons.inj split
        rw [List.foldlM_cons, runOn_bind_eq_ok_iff] at run
        obtain ⟨next, middle, passed, run⟩ := run
        exact .inr ⟨next, middle, passed, ih.mpr ⟨before, item, after, done, between, rfl, run,
          failed⟩⟩

end Fold

end Custody.Stateful
