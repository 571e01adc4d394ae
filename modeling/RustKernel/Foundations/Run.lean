import Mathlib.Algebra.Order.Ring.Nat
import Mathlib.Data.List.Perm.Basic
import Mathlib.Tactic.Common

/-!
# Runs of programs that return or stop

A program over a state `σ` is an `EStateM`: a run either returns a value or
stops with a fault, and both outcomes carry the state that the run reached.
Faults are final, there is no handler.

Two kinds of fact about a run are composed here.  `Preserves R program` says
that the first and the last state of every run are related by `R`, whatever
the outcome; it follows a program's syntax when `R` is a preorder.  The
`run_ok` lemmas invert a run that returns into the runs of its parts.
-/

namespace RustKernel.Foundations

universe u

section Except

variable {ε α β : Type u}

theorem except_bind_eq_ok
    {first : Except ε α} {next : α → Except ε β} {value : β} :
    (first >>= next) = .ok value ↔
      ∃ middle, first = .ok middle ∧ next middle = .ok value := by
  cases first with
  | error fault => simp [bind, Except.bind]
  | ok middle => simp [bind, Except.bind]

theorem except_bind_eq_error
    {first : Except ε α} {next : α → Except ε β} {fault : ε} :
    (first >>= next) = .error fault ↔
      first = .error fault ∨
        ∃ middle, first = .ok middle ∧ next middle = .error fault := by
  cases first with
  | error other => simp [bind, Except.bind]
  | ok middle => simp [bind, Except.bind]

theorem except_eq_ok_of_isOk {outcome : Except ε α}
    (isOk : outcome.isOk = true) : ∃ value, outcome = .ok value := by
  cases outcome with
  | error fault => cases isOk
  | ok value => exact ⟨value, rfl⟩

theorem mapM_cons_eq_ok {transform : α → Except ε β} {item : α}
    {items : List α} {values : List β} :
    (item :: items).mapM transform = .ok values ↔
      ∃ value rest,
        transform item = .ok value ∧ items.mapM transform = .ok rest ∧
          values = value :: rest := by
  rw [List.mapM_cons, except_bind_eq_ok]
  simp only [except_bind_eq_ok]
  constructor
  · intro mapped
    obtain ⟨value, first, rest, later, closed⟩ := mapped
    cases closed
    exact ⟨value, rest, first, later, rfl⟩
  · intro mapped
    obtain ⟨value, rest, first, later, closed⟩ := mapped
    subst closed
    exact ⟨value, first, rest, later, rfl⟩

theorem mapM_append_eq_ok {transform : α → Except ε β}
    {front back : List α} {values : List β} :
    (front ++ back).mapM transform = .ok values ↔
      ∃ first second,
        front.mapM transform = .ok first ∧ back.mapM transform = .ok second ∧
          values = first ++ second := by
  rw [List.mapM_append, except_bind_eq_ok]
  simp only [except_bind_eq_ok]
  constructor
  · intro mapped
    obtain ⟨first, begun, second, ended, closed⟩ := mapped
    cases closed
    exact ⟨first, second, begun, ended, rfl⟩
  · intro mapped
    obtain ⟨first, second, begun, ended, closed⟩ := mapped
    subst closed
    exact ⟨first, begun, second, ended, rfl⟩

theorem exists_mapM_eq_ok {transform : α → Except ε β} {items : List α}
    (each : ∀ item ∈ items, ∃ value, transform item = .ok value) :
    ∃ values, items.mapM transform = .ok values := by
  induction items with
  | nil => exact ⟨[], rfl⟩
  | cons item items inductionHypothesis =>
      obtain ⟨value, first⟩ := each item (by simp)
      obtain ⟨rest, later⟩ :=
        inductionHypothesis fun later member =>
          each later (by simp [member])
      exact ⟨value :: rest, mapM_cons_eq_ok.mpr ⟨value, rest, first, later, rfl⟩⟩

theorem forall₂_of_mapM_eq_ok {transform : α → Except ε β} {items : List α}
    {values : List β} (mapped : items.mapM transform = .ok values) :
    List.Forall₂ (fun item value => transform item = .ok value) items
      values := by
  induction items generalizing values with
  | nil =>
      cases mapped
      exact List.Forall₂.nil
  | cons item items inductionHypothesis =>
      obtain ⟨value, rest, first, later, rfl⟩ := mapM_cons_eq_ok.mp mapped
      exact List.Forall₂.cons first (inductionHypothesis later)

theorem mapM_congr {transform other : α → Except ε β} {items : List α}
    (same : ∀ item ∈ items, transform item = other item) :
    items.mapM transform = items.mapM other := by
  induction items with
  | nil => rfl
  | cons item items inductionHypothesis =>
      rw [List.mapM_cons, List.mapM_cons, same item (by simp),
        inductionHypothesis fun later member => same later (by simp [member])]

theorem map_eq_of_mapM_eq_ok {transform : α → Except ε β} {items : List α}
    {values : List β} (mapped : items.mapM transform = .ok values) :
    items.map transform = values.map .ok := by
  induction items generalizing values with
  | nil =>
      cases mapped
      rfl
  | cons item items inductionHypothesis =>
      obtain ⟨value, rest, first, later, rfl⟩ := mapM_cons_eq_ok.mp mapped
      rw [List.map_cons, List.map_cons, first, inductionHypothesis later]

theorem exists_of_mapM_eq_ok {transform : α → Except ε β} {items : List α}
    {values : List β} (mapped : items.mapM transform = .ok values)
    {index : Nat} {value : β} (found : values[index]? = some value) :
    ∃ item, items[index]? = some item ∧ transform item = .ok value := by
  have images :
      (items.map transform)[index]? = some (.ok value) := by
    rw [map_eq_of_mapM_eq_ok mapped, List.getElem?_map, found]
    rfl
  rw [List.getElem?_map, Option.map_eq_some_iff] at images
  exact images

/-- Items in another order have values in another order. -/
theorem perm_of_mapM_eq_ok {transform : α → Except ε β}
    {items others : List α} {values otherValues : List β}
    (reordered : items.Perm others)
    (mapped : items.mapM transform = .ok values)
    (otherMapped : others.mapM transform = .ok otherValues) :
    values.Perm otherValues := by
  have images := reordered.map transform
  rw [map_eq_of_mapM_eq_ok mapped, map_eq_of_mapM_eq_ok otherMapped] at images
  refine (List.map_perm_map_iff ?_).mp images
  intro first second same
  cases same
  rfl

end Except

variable {ε σ α β : Type u}

/-- The state in which a run ends, whether it returns or stops. -/
def finalState : EStateM.Result ε σ α → σ
  | .ok _ state => state
  | .error _ state => state

@[simp]
theorem finalState_ok (value : α) (state : σ) :
    finalState (.ok value state : EStateM.Result ε σ α) = state := rfl

@[simp]
theorem finalState_error (fault : ε) (state : σ) :
    finalState (.error fault state : EStateM.Result ε σ α) = state := rfl

/-- What a run returns, or the fault that stops it. -/
def answerOf : EStateM.Result ε σ α → Except ε α
  | .ok value _ => .ok value
  | .error fault _ => .error fault

theorem bind_run
    (first : EStateM ε σ α) (next : α → EStateM ε σ β) (state : σ) :
    (first >>= next).run state =
      match first.run state with
      | .ok value middle => (next value).run middle
      | .error fault middle => .error fault middle := rfl

theorem bind_run_of_ok
    {first : EStateM ε σ α} (next : α → EStateM ε σ β)
    {state middle : σ} {value : α}
    (returned : first.run state = .ok value middle) :
    (first >>= next).run state = (next value).run middle := by
  rw [bind_run, returned]

theorem bind_run_ok
    {first : EStateM ε σ α} {next : α → EStateM ε σ β}
    {state final : σ} {result : β} :
    (first >>= next).run state = .ok result final ↔
      ∃ value middle,
        first.run state = .ok value middle ∧
          (next value).run middle = .ok result final := by
  rw [bind_run]
  cases first.run state with
  | ok value middle => simp
  | error fault middle => simp

theorem pure_run_ok {value result : α} {state final : σ} :
    (pure value : EStateM ε σ α).run state = .ok result final ↔
      value = result ∧ state = final := by
  constructor
  · intro returned
    cases returned
    exact ⟨rfl, rfl⟩
  · rintro ⟨rfl, rfl⟩
    rfl

theorem get_run (state : σ) :
    (get : EStateM ε σ σ).run state = .ok state state := rfl

theorem modify_run (change : σ → σ) (state : σ) :
    (modify change : EStateM ε σ PUnit).run state =
      .ok PUnit.unit (change state) := rfl

theorem modifyGet_run (change : σ → α × σ) (state : σ) :
    (modifyGet change : EStateM ε σ α).run state =
      .ok (change state).1 (change state).2 := rfl

theorem ofExcept_run (outcome : Except ε α) (state : σ) :
    (MonadExcept.ofExcept outcome : EStateM ε σ α).run state =
      match outcome with
      | .ok value => .ok value state
      | .error fault => .error fault state := by
  cases outcome <;> rfl

theorem ofExcept_run_ok {outcome : Except ε α} {result : α} {state final : σ} :
    (MonadExcept.ofExcept outcome : EStateM ε σ α).run state =
        .ok result final ↔
      outcome = .ok result ∧ state = final := by
  rw [ofExcept_run]
  cases outcome with
  | ok value => simp
  | error fault => simp

/-- The outcome of a run whose state is only needed when it returns. -/
def outcome (program : EStateM ε σ α) (state : σ) : Except ε (α × σ) :=
  match program.run state with
  | .ok value final => .ok (value, final)
  | .error fault _ => .error fault

theorem outcome_eq_ok {program : EStateM ε σ α} {state final : σ} {value : α} :
    outcome program state = .ok (value, final) ↔
      program.run state = .ok value final := by
  unfold outcome
  cases program.run state with
  | ok value final => simp
  | error fault final => simp

/-- Reflexive and transitive relations between states of a run. -/
class RunRelation (R : σ → σ → Prop) : Prop where
  refl : ∀ state, R state state
  trans : ∀ {first middle last}, R first middle → R middle last → R first last

/-- Every run relates its first state to its last one. -/
def Preserves (R : σ → σ → Prop) (program : EStateM ε σ α) : Prop :=
  ∀ state, R state (finalState (program.run state))

namespace Preserves

variable {R : σ → σ → Prop}

theorem of_run_ok
    {program : EStateM ε σ α} (preserved : Preserves R program)
    {state final : σ} {value : α}
    (returned : program.run state = .ok value final) :
    R state final := by
  have related := preserved state
  rw [returned] at related
  exact related

theorem mono
    {S : σ → σ → Prop} {program : EStateM ε σ α}
    (preserved : Preserves R program)
    (weaker : ∀ first last, R first last → S first last) :
    Preserves S program :=
  fun state => weaker _ _ (preserved state)

variable [RunRelation R]

theorem pure (value : α) : Preserves R (Pure.pure value : EStateM ε σ α) :=
  fun state => RunRelation.refl state

theorem throw (fault : ε) :
    Preserves R (MonadExcept.throw fault : EStateM ε σ α) :=
  fun state => RunRelation.refl state

theorem ofExcept_bind
    {outcome : Except ε α} {next : α → EStateM ε σ β}
    (nextPreserves : ∀ value, outcome = .ok value → Preserves R (next value)) :
    Preserves R (MonadExcept.ofExcept outcome >>= next) := by
  intro state
  rw [bind_run, ofExcept_run]
  cases outcome with
  | ok value => exact nextPreserves value rfl state
  | error fault => exact RunRelation.refl state

theorem bind
    {first : EStateM ε σ α} {next : α → EStateM ε σ β}
    (firstPreserves : Preserves R first)
    (nextPreserves : ∀ value, Preserves R (next value)) :
    Preserves R (first >>= next) := by
  intro state
  have begun := firstPreserves state
  rw [bind_run]
  cases outcome : first.run state with
  | ok value middle =>
      rw [outcome] at begun
      exact RunRelation.trans begun (nextPreserves value middle)
  | error fault middle =>
      rw [outcome] at begun
      exact begun

theorem forM {items : List α} {body : α → EStateM ε σ PUnit}
    (bodyPreserves : ∀ item ∈ items, Preserves R (body item)) :
    Preserves R (items.forM body) := by
  induction items with
  | nil =>
      exact Preserves.pure PUnit.unit
  | cons item rest inductionHypothesis =>
      apply Preserves.bind (bodyPreserves item (by simp))
      intro _
      exact inductionHypothesis fun later member =>
        bodyPreserves later (by simp [member])

theorem mapM {items : List α} {body : α → EStateM ε σ β}
    (bodyPreserves : ∀ item ∈ items, Preserves R (body item)) :
    Preserves R (items.mapM body) := by
  induction items with
  | nil => exact Preserves.pure []
  | cons item rest inductionHypothesis =>
      rw [List.mapM_cons]
      apply Preserves.bind (bodyPreserves item (by simp))
      intro value
      refine Preserves.bind ?_ fun _ => Preserves.pure _
      exact inductionHypothesis fun later member =>
        bodyPreserves later (by simp [member])

theorem foldlM (Valid : β → Prop)
    {items : List α} {body : β → α → EStateM ε σ β} {start : β}
    (valid : Valid start)
    (bodyPreserves :
      ∀ value, Valid value → ∀ item ∈ items, Preserves R (body value item))
    (validNext :
      ∀ value item state value' next, Valid value →
        (body value item).run state = .ok value' next → Valid value') :
    Preserves R (items.foldlM body start) := by
  induction items generalizing start with
  | nil =>
      exact Preserves.pure start
  | cons item rest inductionHypothesis =>
      intro state
      have begun := bodyPreserves start valid item (by simp) state
      rw [List.foldlM_cons, bind_run]
      cases outcome : (body start item).run state with
      | ok value middle =>
          rw [outcome] at begun
          have later :=
            inductionHypothesis (validNext _ _ _ _ _ valid outcome)
              fun value valid later member =>
                bodyPreserves value valid later (by simp [member])
          exact RunRelation.trans begun (later middle)
      | error fault middle =>
          rw [outcome] at begun
          exact begun

end Preserves

/-! ## Faults that do not occur -/

/-- No run stops with the fault. -/
def Avoids (fault : ε) (program : EStateM ε σ α) : Prop :=
  ∀ state final, program.run state ≠ .error fault final

namespace Avoids

variable {fault : ε}

theorem pure (value : α) :
    Avoids fault (Pure.pure value : EStateM ε σ α) := by
  intro state final stopped
  cases stopped

theorem bind {first : EStateM ε σ α} {next : α → EStateM ε σ β}
    (begins : Avoids fault first)
    (goesOn :
      ∀ state value final, first.run state = .ok value final →
        Avoids fault (next value)) :
    Avoids fault (first >>= next) := by
  intro state final
  rw [bind_run]
  cases outcome : first.run state with
  | ok value middle => exact goesOn state value middle outcome middle final
  | error other middle =>
      intro stopped
      cases stopped
      exact begins state final outcome

theorem ofExcept_bind {outcome : Except ε α} {next : α → EStateM ε σ β}
    (begins : outcome ≠ .error fault)
    (goesOn : ∀ value, outcome = .ok value → Avoids fault (next value)) :
    Avoids fault (MonadExcept.ofExcept outcome >>= next) := by
  intro state final
  rw [bind_run, ofExcept_run]
  cases outcome with
  | ok value => exact goesOn value rfl state final
  | error other =>
      intro stopped
      cases stopped
      exact begins rfl

/-- A fold whose carried value keeps a condition. -/
theorem foldlM (Carried : β → Prop) {items : List α}
    {body : β → α → EStateM ε σ β} {start : β} (carried : Carried start)
    (each :
      ∀ value, Carried value → ∀ item ∈ items, Avoids fault (body value item))
    (carries :
      ∀ value item state next final, Carried value →
        (body value item).run state = .ok next final → Carried next) :
    Avoids fault (items.foldlM body start) := by
  induction items generalizing start with
  | nil => exact pure start
  | cons item rest inductionHypothesis =>
      rw [List.foldlM_cons]
      apply bind (each start carried item List.mem_cons_self)
      intro state next middle turned
      apply inductionHypothesis (carries start item state next middle carried
        turned)
      exact fun value held later member =>
        each value held later (List.mem_cons_of_mem item member)

end Avoids

/-! ## Loops that return -/

theorem forM_nil_run_ok {body : α → EStateM ε σ PUnit}
    {state final : σ} {result : PUnit} :
    (([] : List α).forM body).run state = .ok result final ↔ state = final := by
  rw [List.forM_eq_forM, List.forM_nil, pure_run_ok]
  simp

theorem forM_append_run_ok
    {front back : List α} {body : α → EStateM ε σ PUnit}
    {state final : σ} {result : PUnit} :
    ((front ++ back).forM body).run state = .ok result final ↔
      ∃ middle,
        (front.forM body).run state = .ok result middle ∧
          (back.forM body).run middle = .ok result final := by
  simp only [List.forM_eq_forM]
  rw [List.forM_append, bind_run_ok]
  constructor
  · rintro ⟨⟨⟩, middle, begun, ended⟩
    exact ⟨middle, begun, ended⟩
  · rintro ⟨middle, begun, ended⟩
    exact ⟨result, middle, begun, ended⟩

theorem forM_cons_run_ok
    {item : α} {rest : List α} {body : α → EStateM ε σ PUnit}
    {state final : σ} {result : PUnit} :
    ((item :: rest).forM body).run state = .ok result final ↔
      ∃ middle,
        (body item).run state = .ok result middle ∧
          (rest.forM body).run middle = .ok result final := by
  simp only [List.forM_eq_forM]
  rw [List.forM_cons, bind_run_ok]
  constructor
  · rintro ⟨⟨⟩, middle, begun, ended⟩
    exact ⟨middle, begun, ended⟩
  · rintro ⟨middle, begun, ended⟩
    exact ⟨result, middle, begun, ended⟩

theorem mapM_cons_run_ok
    {item : α} {rest : List α} {body : α → EStateM ε σ β}
    {state final : σ} {values : List β} :
    ((item :: rest).mapM body).run state = .ok values final ↔
      ∃ value later middle,
        (body item).run state = .ok value middle ∧
          (rest.mapM body).run middle = .ok later final ∧
          values = value :: later := by
  rw [List.mapM_cons, bind_run_ok]
  constructor
  · rintro ⟨value, middle, begun, ended⟩
    rw [bind_run_ok] at ended
    obtain ⟨later, last, looped, closed⟩ := ended
    rw [pure_run_ok] at closed
    obtain ⟨rfl, rfl⟩ := closed
    exact ⟨value, later, middle, begun, looped, rfl⟩
  · rintro ⟨value, later, middle, begun, looped, rfl⟩
    refine ⟨value, middle, begun, ?_⟩
    rw [bind_run_of_ok _ looped]
    rfl

/-- What every turn of a loop keeps, a loop that collects values keeps. -/
theorem mapM_invariant
    (Inv : σ → Prop) {items : List α} {body : α → EStateM ε σ β}
    (step :
      ∀ item ∈ items, ∀ value state next,
        Inv state → (body item).run state = .ok value next → Inv next)
    {state final : σ} {values : List β}
    (start : Inv state)
    (returned : (items.mapM body).run state = .ok values final) :
    Inv final := by
  induction items generalizing state values with
  | nil =>
      rw [List.mapM_nil, pure_run_ok] at returned
      exact returned.2 ▸ start
  | cons item rest inductionHypothesis =>
      rw [mapM_cons_run_ok] at returned
      obtain ⟨value, later, middle, begun, looped, _⟩ := returned
      apply inductionHypothesis _ (step item (by simp) value state middle
        start begun) looped
      intro other member
      exact step other (by simp [member])

/-- A loop whose turns return what a function says returns its values. -/
theorem mapM_values
    {items : List α} {body : α → EStateM ε σ β} {value : α → β}
    (turn :
      ∀ item ∈ items, ∀ result state next,
        (body item).run state = .ok result next → result = value item)
    {state final : σ} {values : List β}
    (returned : (items.mapM body).run state = .ok values final) :
    values = items.map value := by
  induction items generalizing state values with
  | nil =>
      rw [List.mapM_nil, pure_run_ok] at returned
      exact returned.1.symm
  | cons item rest inductionHypothesis =>
      rw [mapM_cons_run_ok] at returned
      obtain ⟨first, later, middle, begun, looped, rfl⟩ := returned
      rw [turn item (by simp) first state middle begun, List.map_cons,
        inductionHypothesis
          (fun other member => turn other (by simp [member])) looped]

theorem forM_run_congr
    {items : List α} {body body' : α → EStateM ε σ PUnit}
    (same :
      ∀ item ∈ items, ∀ state,
        (body item).run state = (body' item).run state)
    (state : σ) :
    (items.forM body).run state = (items.forM body').run state := by
  induction items generalizing state with
  | nil => rfl
  | cons item rest inductionHypothesis =>
      simp only [List.forM_eq_forM] at inductionHypothesis ⊢
      rw [List.forM_cons, List.forM_cons, bind_run, bind_run,
        same item (by simp) state]
      cases (body' item).run state with
      | error fault middle => rfl
      | ok value middle =>
          apply inductionHypothesis
          intro later member
          exact same later (by simp [member])

/-- Nested loops are one loop. -/
theorem forM_flatMap_run
    (items : List α) (parts : α → List β) (body : β → EStateM ε σ PUnit)
    (state : σ) :
    (items.forM fun item => (parts item).forM body).run state =
      ((items.flatMap parts).forM body).run state := by
  induction items generalizing state with
  | nil => rfl
  | cons item rest inductionHypothesis =>
      simp only [List.forM_eq_forM] at inductionHypothesis ⊢
      rw [List.flatMap_cons, List.forM_cons, List.forM_append, bind_run,
        bind_run]
      cases (forM (parts item) body).run state with
      | error fault middle => rfl
      | ok value middle => exact inductionHypothesis middle

/-- What every turn of a loop keeps, the loop keeps. -/
theorem forM_invariant
    (Inv : σ → Prop) {items : List α} {body : α → EStateM ε σ PUnit}
    (step :
      ∀ item ∈ items, ∀ state next,
        Inv state → (body item).run state = .ok PUnit.unit next → Inv next)
    {state final : σ} {result : PUnit}
    (start : Inv state)
    (returned : (items.forM body).run state = .ok result final) :
    Inv final := by
  induction items generalizing state with
  | nil =>
      rw [forM_nil_run_ok] at returned
      exact returned ▸ start
  | cons item rest inductionHypothesis =>
      rw [forM_cons_run_ok] at returned
      obtain ⟨middle, begun, ended⟩ := returned
      apply inductionHypothesis _ (step item (by simp) state middle start begun)
        ended
      intro later member
      exact step later (by simp [member])

/-- A loop returns when every turn does, up to stops in excused states, under
an invariant that may speak of the turns still to come. -/
theorem forM_returns
    (Inv : List α → σ → Prop) (Excused : σ → Prop)
    {body : α → EStateM ε σ PUnit}
    (step :
      ∀ item rest state, Inv (item :: rest) state →
        (∃ next, (body item).run state = .ok PUnit.unit next ∧
          Inv rest next) ∨
        ∃ fault next, (body item).run state = .error fault next ∧
          Excused next)
    {items : List α} {state : σ} (start : Inv items state) :
    (∃ final, (items.forM body).run state = .ok PUnit.unit final ∧
      Inv [] final) ∨
    ∃ fault final, (items.forM body).run state = .error fault final ∧
      Excused final := by
  induction items generalizing state with
  | nil =>
      exact Or.inl ⟨state, forM_nil_run_ok.mpr rfl, start⟩
  | cons item rest inductionHypothesis =>
      simp only [List.forM_eq_forM, List.forM_cons]
      rcases step item rest state start with
        ⟨middle, begun, carried⟩ | ⟨fault, middle, stopped, excused⟩
      · rw [bind_run_of_ok _ begun]
        exact inductionHypothesis carried
      · rw [bind_run, stopped]
        exact Or.inr ⟨fault, middle, rfl, excused⟩

end RustKernel.Foundations
