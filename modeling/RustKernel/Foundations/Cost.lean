import RustKernel.Foundations.Run

/-!
# What a run costs

A counter of the state grows while a program runs.  A bound on its growth
holds of every run, also of one that stops, and is added up over the parts of
a program.
-/

namespace RustKernel.Foundations

universe u

variable {ε σ α β : Type u}

/-- No run moves the counter by more than the bound. -/
def CostsAtMost (counter : σ → Nat) (bound : Nat)
    (program : EStateM ε σ α) : Prop :=
  ∀ state, counter (finalState (program.run state)) ≤ counter state + bound

namespace CostsAtMost

variable {counter : σ → Nat} {bound other : Nat}

theorem weaken {program : EStateM ε σ α}
    (costs : CostsAtMost counter bound program) (larger : bound ≤ other) :
    CostsAtMost counter other program := by
  intro state
  have spent := costs state
  omega

/-- The cost depends on the runs only. -/
theorem of_run_eq {program same : EStateM ε σ α}
    (costs : CostsAtMost counter bound same)
    (equal : ∀ state, program.run state = same.run state) :
    CostsAtMost counter bound program := by
  intro state
  rw [equal state]
  exact costs state

theorem pure (value : α) :
    CostsAtMost counter 0 (Pure.pure value : EStateM ε σ α) :=
  fun _ => Nat.le_refl _

theorem throw (fault : ε) :
    CostsAtMost counter 0 (MonadExcept.throw fault : EStateM ε σ α) :=
  fun _ => Nat.le_refl _

theorem modifyGet {change : σ → α × σ}
    (moves : ∀ state, counter (change state).2 ≤ counter state + bound) :
    CostsAtMost counter bound
      (MonadState.modifyGet change : EStateM ε σ α) :=
  moves

theorem bind {first : EStateM ε σ α} {next : α → EStateM ε σ β}
    (begun : CostsAtMost counter bound first)
    (ended : ∀ value, CostsAtMost counter other (next value)) :
    CostsAtMost counter (bound + other) (first >>= next) := by
  intro state
  have spent := begun state
  rw [bind_run]
  cases outcome : first.run state with
  | ok value middle =>
      rw [outcome, finalState_ok] at spent
      have later := ended value middle
      simp only
      omega
  | error fault middle =>
      rw [outcome, finalState_error] at spent
      simp only [finalState_error]
      omega

/-- What follows a step for nothing does not add to its cost. -/
theorem bind_free {first : EStateM ε σ α} {next : α → EStateM ε σ β}
    (begun : CostsAtMost counter bound first)
    (ended : ∀ value, CostsAtMost counter 0 (next value)) :
    CostsAtMost counter bound (first >>= next) :=
  begun.bind ended

/-- A value that is computed without the state costs nothing. -/
theorem ofExcept_bind {outcome : Except ε α} {next : α → EStateM ε σ β}
    (ended :
      ∀ value, outcome = .ok value → CostsAtMost counter bound (next value)) :
    CostsAtMost counter bound (MonadExcept.ofExcept outcome >>= next) := by
  intro state
  rw [bind_run, ofExcept_run]
  cases outcome with
  | ok value => exact ended value rfl state
  | error fault => exact Nat.le_add_right _ _

/-- A loop costs the bound of its body in every turn. -/
theorem forM {items : List α} {body : α → EStateM ε σ PUnit}
    (turns : ∀ item ∈ items, CostsAtMost counter bound (body item)) :
    CostsAtMost counter (items.length * bound) (items.forM body) := by
  induction items with
  | nil =>
      rw [List.length_nil, Nat.zero_mul]
      exact CostsAtMost.pure PUnit.unit
  | cons item rest inductionHypothesis =>
      rw [List.length_cons, Nat.succ_mul, Nat.add_comm]
      apply CostsAtMost.bind (turns item (by simp))
      intro _
      exact inductionHypothesis fun later member =>
        turns later (by simp [member])

/-- A loop whose turns are loops over parts. -/
theorem forM_flatMap {items : List α} {parts : α → List β}
    {body : α → EStateM ε σ PUnit}
    (turns :
      ∀ item ∈ items,
        CostsAtMost counter ((parts item).length * bound) (body item)) :
    CostsAtMost counter ((items.flatMap parts).length * bound)
      (items.forM body) := by
  induction items with
  | nil =>
      rw [List.flatMap_nil, List.length_nil, Nat.zero_mul]
      exact CostsAtMost.pure PUnit.unit
  | cons item rest inductionHypothesis =>
      rw [List.flatMap_cons, List.length_append, Nat.add_mul]
      apply CostsAtMost.bind (turns item (by simp))
      intro _
      exact inductionHypothesis fun later member =>
        turns later (by simp [member])

/-- A fold costs the bound of its body in every turn. -/
theorem foldlM {items : List α} {body : β → α → EStateM ε σ β} {carried : β}
    (turns :
      ∀ item ∈ items, ∀ carried,
        CostsAtMost counter bound (body carried item)) :
    CostsAtMost counter (items.length * bound)
      (items.foldlM body carried) := by
  induction items generalizing carried with
  | nil =>
      rw [List.length_nil, Nat.zero_mul]
      exact CostsAtMost.pure carried
  | cons item rest inductionHypothesis =>
      rw [List.foldlM_cons, List.length_cons, Nat.succ_mul, Nat.add_comm]
      apply CostsAtMost.bind (turns item (by simp) carried)
      intro next
      exact inductionHypothesis fun later member =>
        turns later (by simp [member])

/-- A loop that collects values costs what its turns cost. -/
theorem mapM {items : List α} {body : α → EStateM ε σ β} {bounds : α → Nat}
    (turns : ∀ item ∈ items, CostsAtMost counter (bounds item) (body item)) :
    CostsAtMost counter (items.map bounds).sum (items.mapM body) := by
  induction items with
  | nil => exact CostsAtMost.pure []
  | cons item rest inductionHypothesis =>
      rw [List.mapM_cons, List.map_cons, List.sum_cons]
      apply CostsAtMost.bind (turns item (by simp))
      intro value
      refine CostsAtMost.bind_free ?_ fun values => CostsAtMost.pure _
      exact inductionHypothesis fun later member =>
        turns later (by simp [member])

end CostsAtMost

end RustKernel.Foundations
