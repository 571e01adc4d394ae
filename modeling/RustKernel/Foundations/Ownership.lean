import Mathlib.Data.Set.Basic

/-!
# Owners of values that are given out once

A source answers its calls one after the other, and no value is the answer of
two calls.  Owners hold values.  While every value that an owner gains is an
answer of a later call, no value ever has two owners.
-/

namespace RustKernel.Foundations

universe u v

variable {α : Type u} {answers : Nat → Option α}
variable {first middle last : Nat} {value : α}

/-- No value is the answer of two calls. -/
def NeverTwice (answers : Nat → Option α) : Prop :=
  ∀ left right value,
    answers left = some value → answers right = some value → left = right

/-- The value answers a call between the two call numbers. -/
def GivenIn (answers : Nat → Option α) (first last : Nat) (value : α) : Prop :=
  ∃ index, first ≤ index ∧ index < last ∧ answers index = some value

/-- No call from this one on is answered with the value. -/
def Spent (answers : Nat → Option α) (next : Nat) (value : α) : Prop :=
  ∀ index, next ≤ index → answers index ≠ some value

theorem Spent.later (spent : Spent answers first value)
    (advanced : first ≤ last) :
    Spent answers last value :=
  fun index lower => spent index (Nat.le_trans advanced lower)

theorem GivenIn.not_spent (given : GivenIn answers first last value) :
    ¬ Spent answers first value := by
  obtain ⟨index, lower, _, answer⟩ := given
  exact fun spent => spent index lower answer

theorem GivenIn.spent (once : NeverTwice answers)
    (given : GivenIn answers first last value) :
    Spent answers last value := by
  intro later lower again
  obtain ⟨index, _, upper, answer⟩ := given
  have same := once index later value answer again
  omega

theorem GivenIn.of_answer (answer : answers first = some value) :
    GivenIn answers first (first + 1) value :=
  ⟨first, Nat.le_refl _, Nat.lt_succ_self _, answer⟩

/-! ## Owners -/

section Owners

variable {ι : Type v} {holdings after : ι → Set α}
variable {owner : ι}

/-- What the owners hold is not given out again, and no value has two
owners. -/
structure Owned (answers : Nat → Option α) (next : Nat)
    (holdings : ι → Set α) : Prop where
  spent : ∀ owner, ∀ value ∈ holdings owner, Spent answers next value
  unique :
    ∀ left right value, value ∈ holdings left → value ∈ holdings right →
      left = right

/-- The value is not given out again, and nobody holds it. -/
structure Unowned (answers : Nat → Option α) (next : Nat)
    (holdings : ι → Set α) (value : α) : Prop where
  spent : Spent answers next value
  unheld : ∀ owner, value ∉ holdings owner

theorem Owned.later (owned : Owned answers first holdings)
    (advanced : first ≤ last) :
    Owned answers last holdings where
  spent := fun owner value held =>
    (owned.spent owner value held).later advanced
  unique := owned.unique

/-- The answer of the next call has no owner yet. -/
theorem Owned.unowned_answer (owned : Owned answers first holdings)
    (once : NeverTwice answers) (answer : answers first = some value) :
    Unowned answers (first + 1) holdings value where
  spent := (GivenIn.of_answer answer).spent once
  unheld := fun owner held =>
    owned.spent owner value held first (Nat.le_refl _) answer

/-- One owner gains answers of calls, and one is given values that nobody
holds. -/
theorem Owned.grow (owned : Owned answers first holdings)
    (owner holder : ι) (brought : Set α)
    (once : NeverTwice answers) (advanced : first ≤ last)
    (unowned : ∀ value ∈ brought, Unowned answers first holdings value)
    (grown :
      ∀ other, ∀ value ∈ after other,
        value ∈ holdings other ∨
          other = owner ∧ GivenIn answers first last value ∨
          other = holder ∧ value ∈ brought) :
    Owned answers last after where
  spent := by
    intro other value held
    rcases grown other value held with kept | ⟨_, given⟩ | ⟨_, new⟩
    · exact (owned.spent other value kept).later advanced
    · exact given.spent once
    · exact (unowned value new).spent.later advanced
  unique := by
    intro left right value heldLeft heldRight
    -- Kept, given and brought values are of three kinds that exclude each
    -- other, and there is one owner for each of the last two.
    have apart (other : ι) (kept : value ∈ holdings other) :
        ¬ GivenIn answers first last value ∧ value ∉ brought :=
      ⟨fun given => given.not_spent (owned.spent other value kept),
        fun new => (unowned value new).unheld other kept⟩
    rcases grown left value heldLeft with
      keptLeft | ⟨atLeft, givenLeft⟩ | ⟨atLeft, newLeft⟩
    · rcases grown right value heldRight with
        keptRight | ⟨_, given⟩ | ⟨_, new⟩
      · exact owned.unique left right value keptLeft keptRight
      · exact absurd given (apart left keptLeft).1
      · exact absurd new (apart left keptLeft).2
    · rcases grown right value heldRight with
        keptRight | ⟨atRight, _⟩ | ⟨_, new⟩
      · exact absurd givenLeft (apart right keptRight).1
      · rw [atLeft, atRight]
      · exact absurd (unowned value new).spent givenLeft.not_spent
    · rcases grown right value heldRight with
        keptRight | ⟨_, given⟩ | ⟨atRight, _⟩
      · exact absurd newLeft (apart right keptRight).2
      · exact absurd (unowned value newLeft).spent given.not_spent
      · rw [atLeft, atRight]

/-- A value without an owner is not among the answers of later calls. -/
theorem Unowned.grow (unowned : Unowned answers first holdings value)
    (advanced : first ≤ last)
    (grown :
      ∀ other, ∀ value ∈ after other,
        value ∈ holdings other ∨
          other = owner ∧ GivenIn answers first last value) :
    Unowned answers last after value where
  spent := unowned.spent.later advanced
  unheld := by
    intro other held
    rcases grown other value held with kept | ⟨_, given⟩
    · exact unowned.unheld other kept
    · exact given.not_spent unowned.spent

end Owners

end RustKernel.Foundations
