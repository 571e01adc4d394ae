import Mathlib.Data.List.Perm.Basic

/-!
# Values placed at paths

A list of values, each with the path it stands at.  Two such lists that agree
at every path are permutations of each other.
-/

namespace RustKernel.Foundations

variable {κ ν : Type*}

/-- The same values, one name further down. -/
def under (name : κ) (placed : List (List κ × ν)) : List (List κ × ν) :=
  placed.map fun entry => (name :: entry.1, entry.2)

section ValuesAt

variable [DecidableEq κ]

/-- The values at one path, in their order. -/
def valuesAt (path : List κ) (placed : List (List κ × ν)) : List ν :=
  (placed.filter fun entry => entry.1 = path).map Prod.snd

@[simp]
theorem valuesAt_nil (path : List κ) :
    valuesAt path ([] : List (List κ × ν)) = [] := by
  simp [valuesAt]

@[simp]
theorem valuesAt_append (path : List κ) (first second : List (List κ × ν)) :
    valuesAt path (first ++ second) =
      valuesAt path first ++ valuesAt path second := by
  simp [valuesAt]

theorem valuesAt_flatMap {α : Type*} (path : List κ)
    (place : α → List (List κ × ν)) (entries : List α) :
    valuesAt path (entries.flatMap place) =
      entries.flatMap fun entry => valuesAt path (place entry) := by
  induction entries with
  | nil => simp
  | cons entry entries inductionHypothesis =>
      rw [List.flatMap_cons, valuesAt_append, inductionHypothesis,
        List.flatMap_cons]

theorem valuesAt_under_nil (name : κ) (placed : List (List κ × ν)) :
    valuesAt [] (under name placed) = [] := by
  simp [valuesAt, under, List.filter_map]

theorem valuesAt_under (head name : κ) (path : List κ)
    (placed : List (List κ × ν)) :
    valuesAt (head :: path) (under name placed) =
      if name = head then valuesAt path placed else [] := by
  by_cases same : name = head
  · subst same
    simp [valuesAt, under, List.filter_map, Function.comp_def]
  · simp [valuesAt, under, List.filter_map, Function.comp_def, same]

variable [DecidableEq ν]

theorem count_eq_count_valuesAt (path : List κ) (value : ν)
    (placed : List (List κ × ν)) :
    placed.count (path, value) = (valuesAt path placed).count value := by
  induction placed with
  | nil => simp
  | cons entry placed inductionHypothesis =>
      obtain ⟨place, own⟩ := entry
      rw [← List.singleton_append, valuesAt_append, List.count_append,
        List.count_append, inductionHypothesis]
      congr 1
      by_cases same : place = path
      · subst same
        simp [valuesAt, List.count_singleton]
      · simp [valuesAt, same]

/-- What is at every path is what there is. -/
theorem perm_of_valuesAt {first second : List (List κ × ν)}
    (agrees : ∀ path, valuesAt path first = valuesAt path second) :
    first.Perm second := by
  rw [List.perm_iff_count]
  intro entry
  obtain ⟨path, value⟩ := entry
  rw [count_eq_count_valuesAt, count_eq_count_valuesAt, agrees path]

end ValuesAt

/-! ## Paths alone -/

/-- The paths one name further down. -/
def pathsUnder (name : κ) (paths : List (List κ)) : List (List κ) :=
  paths.map fun path => name :: path

theorem mem_pathsUnder {name : κ} {path : List κ} {paths : List (List κ)} :
    path ∈ pathsUnder name paths ↔
      ∃ below ∈ paths, name :: below = path := by
  simp [pathsUnder]

end RustKernel.Foundations
