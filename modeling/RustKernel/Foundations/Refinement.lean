import RustKernel.Foundations.Run

/-!
# Refinement between programs

Two programs over one state run side by side.  `Refines` says that from the
states of a precondition, every run of the fine program that returns is a run
of the coarse one, with a postcondition on the value and the state.  When the
fine program stops, it does so in a state of a condition of its own, and either
the coarse one stops in the same way or the run was lost for a reason that is
named.
-/

namespace RustKernel.Foundations

universe u

variable {ε σ α β : Type u}

def Refines (Before : σ → Prop) (After : α → σ → Prop)
    (Stopped Lost : σ → Prop) (fine coarse : EStateM ε σ α) : Prop :=
  ∀ state, Before state →
    match fine.run state with
    | .ok value final => coarse.run state = .ok value final ∧ After value final
    | .error fault final =>
        Stopped final ∧ (coarse.run state = .error fault final ∨ Lost final)

namespace Refines

variable {Before : σ → Prop} {After : α → σ → Prop} {Stopped Lost : σ → Prop}
variable {fine coarse : EStateM ε σ α}

theorem of_run_ok (refines : Refines Before After Stopped Lost fine coarse)
    {state final : σ} {value : α} (before : Before state)
    (returned : fine.run state = .ok value final) :
    coarse.run state = .ok value final ∧ After value final := by
  have related := refines state before
  rw [returned] at related
  exact related

/-- In whatever state the fine program ends, it keeps what both of its
outcomes give. -/
theorem final {Ends : σ → Prop}
    (refines : Refines Before After Stopped Lost fine coarse)
    (returns : ∀ value state, After value state → Ends state)
    (stops : ∀ state, Stopped state → Ends state)
    {state : σ} (before : Before state) :
    Ends (finalState (fine.run state)) := by
  have related := refines state before
  cases outcome : fine.run state with
  | ok value final =>
      rw [outcome] at related
      exact returns value final related.2
  | error fault final =>
      rw [outcome] at related
      exact stops final related.1

/-- A run of the fine program that is not lost is the run of the coarse
one. -/
theorem run_eq_or_lost
    (refines : Refines Before After Stopped Lost fine coarse)
    {state : σ} (before : Before state) :
    fine.run state = coarse.run state ∨
      ∃ fault final, fine.run state = .error fault final ∧ Lost final := by
  have related := refines state before
  cases outcome : fine.run state with
  | ok value final =>
      rw [outcome] at related
      exact Or.inl related.1.symm
  | error fault final =>
      rw [outcome] at related
      rcases related.2 with same | lost
      · exact Or.inl same.symm
      · exact Or.inr ⟨fault, final, rfl, lost⟩

theorem mono {Weaker : α → σ → Prop}
    (refines : Refines Before After Stopped Lost fine coarse)
    (weaker : ∀ value state, After value state → Weaker value state) :
    Refines Before Weaker Stopped Lost fine coarse := by
  intro state before
  have related := refines state before
  cases outcome : fine.run state with
  | ok value final =>
      rw [outcome] at related
      exact ⟨related.1, weaker value final related.2⟩
  | error fault final =>
      rw [outcome] at related
      exact related

/-- A program refines itself when its runs keep the conditions. -/
theorem of_preserves {program : EStateM ε σ α} {R : σ → σ → Prop}
    (preserved : Preserves R program)
    (returns :
      ∀ state value final, Before state →
        program.run state = .ok value final → R state final →
          After value final)
    (stops : ∀ state final, Before state → R state final → Stopped final) :
    Refines Before After Stopped Lost program program := by
  intro state before
  have related := preserved state
  cases outcome : program.run state with
  | ok value final =>
      rw [outcome] at related
      exact ⟨rfl, returns state value final before outcome related⟩
  | error fault final =>
      rw [outcome] at related
      exact ⟨stops state final before related, Or.inl rfl⟩

theorem pure {value : α} (given : ∀ state, Before state → After value state) :
    Refines Before After Stopped Lost
      (Pure.pure value : EStateM ε σ α) (Pure.pure value) :=
  fun state before => ⟨rfl, given state before⟩

theorem bind {Middle : β → σ → Prop} {first coarseFirst : EStateM ε σ β}
    {next coarseNext : β → EStateM ε σ α}
    (begins : Refines Before Middle Stopped Lost first coarseFirst)
    (goesOn :
      ∀ value,
        Refines (Middle value) After Stopped Lost (next value)
          (coarseNext value)) :
    Refines Before After Stopped Lost (first >>= next)
      (coarseFirst >>= coarseNext) := by
  intro state before
  have begun := begins state before
  rw [bind_run, bind_run]
  cases outcome : first.run state with
  | ok value middle =>
      rw [outcome] at begun
      rw [begun.1]
      exact goesOn value middle begun.2
  | error fault middle =>
      rw [outcome] at begun
      refine ⟨begun.1, ?_⟩
      rcases begun.2 with same | lost
      · rw [same]
        exact Or.inl rfl
      · exact Or.inr lost

theorem ofExcept_bind {outcome : Except ε β}
    {next coarseNext : β → EStateM ε σ α}
    (stops : ∀ state, Before state → Stopped state)
    (goesOn :
      ∀ value, outcome = .ok value →
        Refines Before After Stopped Lost (next value) (coarseNext value)) :
    Refines Before After Stopped Lost (MonadExcept.ofExcept outcome >>= next)
      (MonadExcept.ofExcept outcome >>= coarseNext) := by
  intro state before
  rw [bind_run, bind_run, ofExcept_run]
  cases outcome with
  | ok value => exact goesOn value rfl state before
  | error fault => exact ⟨stops state before, Or.inl rfl⟩

theorem forM {Kept : σ → Prop} {items : List β}
    {body coarseBody : β → EStateM ε σ PUnit}
    (each :
      ∀ item ∈ items,
        Refines Kept (fun _ => Kept) Stopped Lost (body item)
          (coarseBody item)) :
    Refines Kept (fun _ => Kept) Stopped Lost (items.forM body)
      (items.forM coarseBody) := by
  induction items with
  | nil => exact pure fun _ kept => kept
  | cons item rest inductionHypothesis =>
      apply bind (each item (by simp))
      intro _
      exact inductionHypothesis fun later member => each later (by simp [member])

/-- A fold whose carried value keeps a condition. -/
theorem foldlM {Kept : σ → Prop} (Carried : α → Prop) {items : List β}
    {body coarseBody : α → β → EStateM ε σ α} {carried : α}
    (begins : Carried carried)
    (each :
      ∀ item ∈ items, ∀ carried, Carried carried →
        Refines Kept (fun next state => Kept state ∧ Carried next) Stopped
          Lost (body carried item) (coarseBody carried item)) :
    Refines Kept (fun _ => Kept) Stopped Lost (items.foldlM body carried)
      (items.foldlM coarseBody carried) := by
  induction items generalizing carried with
  | nil => exact pure fun _ kept => kept
  | cons item rest inductionHypothesis =>
      rw [List.foldlM_cons, List.foldlM_cons]
      apply bind (each item (by simp) carried begins)
      intro next state before
      exact
        inductionHypothesis before.2
          (fun later member => each later (by simp [member])) state before.1

end Refines

end RustKernel.Foundations
