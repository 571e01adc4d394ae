import RustKernel.Foundations.Run

/-!
# Programs that run beside a record

A program over a state runs unchanged beside a second state, in which another
program keeps a record.  A loop whose turns each append to a record appends
what its turns append, in their order.
-/

namespace RustKernel.Foundations

universe u

variable {ε σ τ α β : Type u}

/-- The program runs on the first state and leaves the second one alone. -/
def beside (program : EStateM ε σ α) : EStateM ε (σ × τ) α := fun state =>
  match program.run state.1 with
  | .ok value next => .ok value (next, state.2)
  | .error fault next => .error fault (next, state.2)

theorem beside_run (program : EStateM ε σ α) (state : σ × τ) :
    (beside program).run state =
      match program.run state.1 with
      | .ok value next => .ok value (next, state.2)
      | .error fault next => .error fault (next, state.2) := rfl

theorem beside_run_ok
    {program : EStateM ε σ α} {state final : σ × τ} {value : α} :
    (beside program).run state = .ok value final ↔
      program.run state.1 = .ok value final.1 ∧ final.2 = state.2 := by
  obtain ⟨last, record⟩ := final
  rw [beside_run]
  cases program.run state.1 with
  | ok result next => simp [eq_comm, and_assoc]
  | error fault next => simp

theorem beside_run_of_ok
    {program : EStateM ε σ α} {state next : σ} {value : α} (record : τ)
    (returned : program.run state = .ok value next) :
    (beside program).run (state, record) = .ok value (next, record) :=
  beside_run_ok.mpr ⟨returned, rfl⟩

theorem beside_record (program : EStateM ε σ α) (state : σ × τ) :
    (finalState ((beside program).run state)).2 = state.2 := by
  rw [beside_run]
  cases program.run state.1 with
  | ok value next => rfl
  | error fault next => rfl

/-- The program runs beside a list to which it has added an entry. -/
def noting (entry : β) (program : EStateM ε σ α) :
    EStateM ε (σ × List β) α := do
  modify fun state => (state.1, state.2 ++ [entry])
  beside program

theorem noting_run (entry : β) (program : EStateM ε σ α)
    (state : σ × List β) :
    (noting entry program).run state =
      (beside program).run (state.1, state.2 ++ [entry]) := rfl

theorem noting_run_ok
    {entry : β} {program : EStateM ε σ α} {state final : σ × List β}
    {value : α} :
    (noting entry program).run state = .ok value final ↔
      program.run state.1 = .ok value final.1 ∧
        final.2 = state.2 ++ [entry] := by
  rw [noting_run, beside_run_ok]

theorem noting_record (entry : β) (program : EStateM ε σ α)
    (state : σ × List β) :
    (finalState ((noting entry program).run state)).2 =
      state.2 ++ [entry] := by
  rw [noting_run, beside_record]

section Records

variable {record : σ → List β} {state final : σ} {result : PUnit}

/-- The records of the turns follow one another. -/
theorem forM_appends
    {items : List α} {body : α → EStateM ε σ PUnit} (parts : α → List β)
    (step :
      ∀ item ∈ items, ∀ state next,
        (body item).run state = .ok PUnit.unit next →
          record next = record state ++ parts item)
    (returned : (items.forM body).run state = .ok result final) :
    record final = record state ++ items.flatMap parts := by
  induction items generalizing state with
  | nil =>
      rw [forM_nil_run_ok] at returned
      rw [returned, List.flatMap_nil, List.append_nil]
  | cons item rest inductionHypothesis =>
      rw [forM_cons_run_ok] at returned
      obtain ⟨middle, begun, ended⟩ := returned
      have later :=
        inductionHypothesis
          (fun next member => step next (by simp [member])) ended
      rw [later, step item (by simp) state middle begun, List.flatMap_cons,
        List.append_assoc]

end Records

/-! ## Loops whose turns return from every state -/

/-- The program returns from every state. -/
def Returns (program : EStateM ε σ α) : Prop :=
  ∀ state, ∃ value final, program.run state = .ok value final

theorem Returns.pure (value : α) :
    Returns (Pure.pure value : EStateM ε σ α) :=
  fun state => ⟨value, state, rfl⟩

theorem Returns.beside {program : EStateM ε σ α} (returns : Returns program) :
    Returns (beside program : EStateM ε (σ × τ) α) := by
  intro state
  obtain ⟨value, final, returned⟩ := returns state.1
  exact ⟨value, _, beside_run_of_ok state.2 returned⟩

theorem Returns.noting {program : EStateM ε σ α}
    (returns : Returns program) (entry : β) :
    Returns (noting entry program) :=
  fun state => returns.beside (state.1, state.2 ++ [entry])

theorem Returns.forM
    {items : List α} {body : α → EStateM ε σ PUnit}
    (each : ∀ item ∈ items, Returns (body item)) :
    Returns (items.forM body) := by
  intro state
  induction items generalizing state with
  | nil => exact ⟨PUnit.unit, state, forM_nil_run_ok.mpr rfl⟩
  | cons item rest inductionHypothesis =>
      obtain ⟨_, middle, begun⟩ := each item (by simp) state
      obtain ⟨value, final, ended⟩ :=
        inductionHypothesis
          (fun next member => each next (by simp [member])) middle
      exact ⟨value, final, forM_cons_run_ok.mpr ⟨middle, begun, ended⟩⟩

/-- A loop that returns has run its body on each of its items. -/
theorem forM_run_ok_mem
    {items : List α} {body : α → EStateM ε σ PUnit}
    {state final : σ} {result : PUnit}
    (returned : (items.forM body).run state = .ok result final)
    {item : α} (member : item ∈ items) :
    ∃ before after, (body item).run before = .ok PUnit.unit after := by
  induction items generalizing state with
  | nil => cases member
  | cons first rest inductionHypothesis =>
      rw [forM_cons_run_ok] at returned
      obtain ⟨middle, begun, ended⟩ := returned
      rcases List.mem_cons.mp member with rfl | later
      · exact ⟨state, middle, begun⟩
      · exact inductionHypothesis ended later

/-! ## Facts that a run keeps, and facts that it brings about -/

/-- The fact still holds where the run ends, whatever the outcome. -/
def Keeps (P : σ → Prop) (program : EStateM ε σ α) : Prop :=
  Preserves (fun first last => P first → P last) program

instance (P : σ → Prop) :
    RunRelation (fun first last : σ => P first → P last) where
  refl _ held := held
  trans begun ended held := ended (begun held)

theorem beside_keeps (Q : τ → Prop) (program : EStateM ε σ α) :
    Keeps (fun state : σ × τ => Q state.2) (beside program) := by
  intro state held
  rw [beside_record]
  exact held

theorem noting_keeps {Q : List β → Prop} {entry : β}
    (added : ∀ record, Q record → Q (record ++ [entry]))
    (program : EStateM ε σ α) :
    Keeps (fun state : σ × List β => Q state.2) (noting entry program) := by
  intro state held
  rw [noting_record]
  exact added _ held

theorem noting_keeps_mem (entry other : β) (program : EStateM ε σ α) :
    Keeps (fun state : σ × List β => entry ∈ state.2)
      (noting other program) :=
  noting_keeps (Q := fun record => entry ∈ record)
    (fun _ member => List.mem_append_left _ member) program

/-- The fact holds where the run ends, whatever the outcome. -/
def Establishes (P : σ → Prop) (program : EStateM ε σ α) : Prop :=
  ∀ state, P (finalState (program.run state))

theorem Establishes.bind {P : σ → Prop} {first : EStateM ε σ α}
    {next : α → EStateM ε σ β} (established : Establishes P first)
    (kept : ∀ value, Keeps P (next value)) :
    Establishes P (first >>= next) := by
  intro state
  have begun := established state
  rw [bind_run]
  cases outcome : first.run state with
  | ok value middle =>
      rw [outcome] at begun
      exact kept value middle begun
  | error fault middle =>
      rw [outcome] at begun
      exact begun

theorem noting_establishes (entry : β) (program : EStateM ε σ α) :
    Establishes (fun state : σ × List β => entry ∈ state.2)
      (noting entry program) := by
  intro state
  rw [noting_record]
  exact List.mem_append_right _ List.mem_cons_self

/-- A fact that the first turn brings about and every turn keeps. -/
theorem Establishes.forM_cons {P : σ → Prop} {item : α} {rest : List α}
    {body : α → EStateM ε σ PUnit} (established : Establishes P (body item))
    (kept : ∀ next ∈ rest, Keeps P (body next)) :
    Establishes P ((item :: rest).forM body) := by
  rw [List.forM_eq_forM, List.forM_cons]
  apply Establishes.bind established
  intro _
  exact Preserves.forM kept

/-- Facts that every turn of a loop brings about for its own item, when the
later turns keep them. -/
theorem forM_run_ok_each
    {Fact : α → σ → Prop} {items : List α} {body : α → EStateM ε σ PUnit}
    (own :
      ∀ item ∈ items, ∀ before after,
        (body item).run before = .ok PUnit.unit after → Fact item after)
    (kept :
      items.Pairwise fun earlier later => Keeps (Fact earlier) (body later))
    {state final : σ} {result : PUnit}
    (returned : (items.forM body).run state = .ok result final) :
    ∀ item ∈ items, Fact item final := by
  induction items generalizing state with
  | nil => simp
  | cons first rest inductionHypothesis =>
      rw [forM_cons_run_ok] at returned
      obtain ⟨middle, begun, ended⟩ := returned
      obtain ⟨keptFirst, keptRest⟩ := List.pairwise_cons.mp kept
      have brought : Fact first middle := own first (by simp) _ _ begun
      have carried : Keeps (Fact first) (rest.forM body) :=
        Preserves.forM keptFirst
      rw [List.forall_mem_cons]
      constructor
      · exact carried.of_run_ok ended brought
      · exact inductionHypothesis
          (fun later member => own later (by simp [member])) keptRest ended

end RustKernel.Foundations
