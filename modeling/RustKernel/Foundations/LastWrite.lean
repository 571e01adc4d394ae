import RustKernel.Foundations.Run
import Mathlib.Data.List.Induction
import Mathlib.Logic.Function.Basic

/-!
# The value that was written last

A state shows a value under each key.  When every step of a run writes under
known keys and leaves the others alone, the state after the run shows under
each key what was written there last, or its first value if nothing was.
-/

namespace RustKernel.Foundations

universe u v

variable {κ ν : Type v} [DecidableEq κ]

/-- The values after the writes, of which the first one comes first. -/
def lastValues (initial : κ → ν) (writes : List (κ × ν)) : κ → ν :=
  writes.foldl (fun values write => Function.update values write.1 write.2)
    initial

@[simp]
theorem lastValues_nil (initial : κ → ν) : lastValues initial [] = initial :=
  rfl

theorem lastValues_append (initial : κ → ν) (front back : List (κ × ν)) :
    lastValues initial (front ++ back) =
      lastValues (lastValues initial front) back :=
  List.foldl_append

theorem lastValues_cons (initial : κ → ν) (write : κ × ν)
    (writes : List (κ × ν)) :
    lastValues initial (write :: writes) =
      lastValues (Function.update initial write.1 write.2) writes :=
  rfl

/-- The last one of the writes under a key decides. -/
theorem lastValues_eq_getLast (initial : κ → ν) (writes : List (κ × ν))
    (key : κ) :
    lastValues initial writes key =
      ((writes.filter fun write => write.1 = key).getLast?.map
        Prod.snd).getD (initial key) := by
  induction writes using List.reverseRecOn with
  | nil => rfl
  | append_singleton writes write inductionHypothesis =>
      rw [lastValues_append, lastValues_cons, lastValues_nil,
        List.filter_append]
      by_cases same : write.1 = key
      · simp [← same]
      · rw [Function.update_of_ne (Ne.symm same), inductionHypothesis]
        simp [same]

/-- What holds of the first values and of every written one. -/
theorem lastValues_induction {P : κ → ν → Prop} {initial : κ → ν}
    {writes : List (κ × ν)} (start : ∀ key, P key (initial key))
    (written : ∀ write ∈ writes, P write.1 write.2) (key : κ) :
    P key (lastValues initial writes key) := by
  induction writes generalizing initial with
  | nil => exact start key
  | cons write writes inductionHypothesis =>
      rw [lastValues_cons]
      apply inductionHypothesis
      · intro other
        by_cases same : other = write.1
        · rw [same, Function.update_self]
          exact written write (by simp)
        · rw [Function.update_of_ne same]
          exact start other
      · exact fun later member => written later (by simp [member])

section Runs

variable {ε σ α : Type u} (shown : σ → κ → ν) (writes : α → List (κ × ν))

/-- Steps that cannot fail, and each of which writes what its item says. -/
theorem shown_foldl {step : σ → α → σ}
    (each :
      ∀ state item,
        shown (step state item) = lastValues (shown state) (writes item))
    (items : List α) (state : σ) :
    shown (items.foldl step state) =
      lastValues (shown state) (items.flatMap writes) := by
  induction items generalizing state with
  | nil => rfl
  | cons item items inductionHypothesis =>
      rw [List.foldl_cons, inductionHypothesis, each, List.flatMap_cons,
        lastValues_append]

/-- Steps that return, and each of which writes what its item says. -/
theorem shown_foldlM {step : σ → α → Except ε σ} {items : List α}
    (each :
      ∀ state, ∀ item ∈ items, ∃ next,
        step state item = .ok next ∧
          shown next = lastValues (shown state) (writes item))
    (state : σ) :
    ∃ final,
      items.foldlM step state = .ok final ∧
        shown final = lastValues (shown state) (items.flatMap writes) := by
  induction items generalizing state with
  | nil => exact ⟨state, rfl, rfl⟩
  | cons item items inductionHypothesis =>
      obtain ⟨next, stepped, here⟩ := each state item (by simp)
      obtain ⟨final, finished, later⟩ :=
        inductionHypothesis
          (fun state item member => each state item (by simp [member])) next
      refine ⟨final, ?_, ?_⟩
      · rw [List.foldlM_cons, except_bind_eq_ok]
        exact ⟨next, stepped, finished⟩
      · rw [later, here, List.flatMap_cons, lastValues_append]

end Runs

end RustKernel.Foundations
