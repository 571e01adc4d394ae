import Mathlib.Logic.Function.Basic
import Mathlib.Tactic.Common

/-!
# Moving a block of cells

The state of a move of `count` cells from `src` to `dst` after the cells of one
interval of indices have been written: the written cells hold what the source
cells held before the move, and every other cell is as it was.  The source and
the destination may overlap, so a further step extends the interval only when
the cells it reads have not been written yet.
-/

namespace RustKernel.Foundations

/-- `memory` is `original` with the cells at `dst + index` moved from
`src + index`, for the indices from `low` up to `high`. -/
structure MovedOn {α : Type} (original memory : Nat → α)
    (dst src low high : Nat) : Prop where
  moved : ∀ index, low ≤ index → index < high →
    memory (dst + index) = original (src + index)
  kept : ∀ address, address < dst + low ∨ dst + high ≤ address →
    memory address = original address

namespace MovedOn

variable {α : Type} {original middle memory : Nat → α}
  {dst src low inner high : Nat}

theorem refl (memory : Nat → α) (dst src index : Nat) :
    MovedOn memory memory dst src index index where
  moved := by
    intro other lower upper
    omega
  kept := by
    intro address _
    rfl

/-- A move described from other base addresses. -/
theorem shift {offset : Nat}
    (state : MovedOn original memory (dst + offset) (src + offset) low high) :
    MovedOn original memory dst src (offset + low) (offset + high) where
  moved := by
    intro index lower upper
    have cell := state.moved (index - offset) (by omega) (by omega)
    rw [show dst + offset + (index - offset) = dst + index by omega,
      show src + offset + (index - offset) = src + index by omega] at cell
    exact cell
  kept := by
    intro address outside
    exact state.kept address (by omega)

/-- The indices below have been moved next.  Their source cells lie below the
cells written so far. -/
theorem extendDown
    (below : src ≤ dst)
    (before : MovedOn original middle dst src inner high)
    (step : MovedOn middle memory dst src low inner)
    (ordered : low ≤ inner ∧ inner ≤ high) :
    MovedOn original memory dst src low high where
  moved := by
    intro index lower upper
    by_cases fresh : index < inner
    · rw [step.moved index lower fresh]
      exact before.kept (src + index) (by omega)
    · rw [step.kept (dst + index) (by omega)]
      exact before.moved index (by omega) upper
  kept := by
    intro address outside
    rw [step.kept address (by omega), before.kept address (by omega)]

/-- The indices above have been moved next.  Their source cells are not among
the cells written so far. -/
theorem extendUp
    (apart : dst ≤ src ∨ src + high ≤ dst + low)
    (before : MovedOn original middle dst src low inner)
    (step : MovedOn middle memory dst src inner high)
    (ordered : low ≤ inner ∧ inner ≤ high) :
    MovedOn original memory dst src low high where
  moved := by
    intro index lower upper
    by_cases early : index < inner
    · rw [step.kept (dst + index) (by omega)]
      exact before.moved index lower early
    · rw [step.moved index (by omega) upper]
      exact before.kept (src + index) (by omega)
  kept := by
    intro address outside
    rw [step.kept address (by omega), before.kept address (by omega)]

/-- A finished move, read at any address. -/
theorem at_address {count : Nat}
    (state : MovedOn original memory dst src 0 count) (address : Nat) :
    memory address =
      if dst ≤ address ∧ address < dst + count then
        original (src + (address - dst))
      else
        original address := by
  by_cases inside : dst ≤ address ∧ address < dst + count
  · rw [if_pos inside, ← state.moved (address - dst) (by omega) (by omega),
      Nat.add_sub_cancel' inside.1]
  · rw [if_neg inside]
    exact state.kept address (by omega)

/-- One cell has been moved. -/
theorem update (memory : Nat → α) (dst src index : Nat) :
    MovedOn memory
      (Function.update memory (dst + index) (memory (src + index)))
      dst src index (index + 1) where
  moved := by
    intro other lower upper
    obtain rfl : other = index := by omega
    exact Function.update_self _ _ _
  kept := by
    intro address outside
    exact Function.update_of_ne (by omega) _ _

end MovedOn

end RustKernel.Foundations
