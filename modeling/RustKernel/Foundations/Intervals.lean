import Mathlib.Algebra.Order.Ring.Nat
import Mathlib.Tactic.Common

/-!
# Numbers listed interval by interval

A list of intervals lists the numbers of the first one, then those of the
second one, and so on.  A block of consecutive places of that list holds
consecutive numbers exactly when the intervals that meet inside the block
touch.
-/

namespace RustKernel.Foundations

structure Interval where
  first : Nat
  length : Nat
  deriving DecidableEq, Repr

namespace Interval

/-- The first number behind the interval. -/
def stop (interval : Interval) : Nat := interval.first + interval.length

def numbers (interval : Interval) : List Nat :=
  List.range' interval.first interval.length

def numbersOf (intervals : List Interval) : List Nat :=
  intervals.flatMap numbers

def lengthOf (intervals : List Interval) : Nat :=
  (intervals.map length).sum

/-- Intervals that meet at the place touch. -/
def TouchAt (intervals : List Interval) (place : Nat) : Prop :=
  ∀ front left right back, intervals = front ++ left :: right :: back →
    lengthOf (front ++ [left]) = place → left.stop = right.first

theorem lengthOf_cons (interval : Interval) (rest : List Interval) :
    lengthOf (interval :: rest) = interval.length + lengthOf rest := by
  simp [lengthOf]

theorem length_numbersOf (intervals : List Interval) :
    (numbersOf intervals).length = lengthOf intervals := by
  induction intervals with
  | nil => rfl
  | cons interval rest inductionHypothesis =>
      rw [numbersOf, List.flatMap_cons, List.length_append, numbers,
        List.length_range', lengthOf_cons, ← inductionHypothesis, numbersOf]

theorem numbersOf_getElem?_first {interval : Interval} {rest : List Interval}
    {place : Nat} (inside : place < interval.length) :
    (numbersOf (interval :: rest))[place]? = some (interval.first + place) := by
  rw [numbersOf, List.flatMap_cons,
    List.getElem?_append_left (by simpa [numbers] using inside), numbers,
    List.getElem?_range' inside, Nat.one_mul]

theorem numbersOf_getElem?_behind {interval : Interval} {rest : List Interval}
    {place : Nat} :
    (numbersOf (interval :: rest))[interval.length + place]? =
      (numbersOf rest)[place]? := by
  rw [numbersOf, List.flatMap_cons,
    List.getElem?_append_right (by simp [numbers]), numbers,
    List.length_range', Nat.add_sub_cancel_left]
  rfl

/-- Behind the first interval, the places count from its end. -/
theorem touchAt_behind {interval : Interval} {rest : List Interval}
    {place : Nat} (later : 0 < place) :
    TouchAt (interval :: rest) (interval.length + place) ↔
      TouchAt rest place := by
  constructor
  · intro touch front left right back split place_eq
    apply touch (interval :: front) left right back
    · rw [split, List.cons_append]
    · rw [List.cons_append, lengthOf_cons, place_eq]
  · intro touch front left right back split place_eq
    cases front with
    | nil =>
        rw [List.nil_append, List.cons.injEq] at split
        rw [← split.1] at place_eq
        simp [lengthOf] at place_eq
        omega
    | cons head front =>
        rw [List.cons_append, List.cons.injEq] at split
        rw [List.cons_append, lengthOf_cons, ← split.1] at place_eq
        exact touch front left right back split.2
          (Nat.add_left_cancel place_eq)

/-- No intervals meet inside the first one. -/
theorem touchAt_early {interval : Interval} {rest : List Interval}
    {place : Nat} (early : place < interval.length) :
    TouchAt (interval :: rest) place := by
  intro front left right back split place_eq
  exfalso
  cases front with
  | nil =>
      rw [List.nil_append, List.cons.injEq] at split
      rw [← split.1] at place_eq
      simp [lengthOf] at place_eq
      omega
  | cons head front =>
      rw [List.cons_append, List.cons.injEq] at split
      rw [List.cons_append, lengthOf_cons, ← split.1] at place_eq
      omega

theorem touchAt_first {interval next : Interval} {rest : List Interval}
    (positive : ∀ later ∈ next :: rest, 0 < later.length) :
    TouchAt (interval :: next :: rest) interval.length ↔
      interval.stop = next.first := by
  constructor
  · intro touch
    exact touch [] interval next rest rfl (by simp [lengthOf])
  · intro touches front left right back split place_eq
    cases front with
    | nil =>
        rw [List.nil_append, List.cons.injEq, List.cons.injEq] at split
        rw [← split.1, ← split.2.1]
        exact touches
    | cons head front =>
        rw [List.cons_append, List.cons.injEq] at split
        have leftPositive : 0 < left.length := by
          apply positive
          rw [split.2]
          simp
        have leftCounted : left.length ≤ lengthOf (front ++ [left]) := by
          simp [lengthOf]
        rw [List.cons_append, lengthOf_cons, ← split.1] at place_eq
        omega

/-- Neighbours are consecutive exactly when no gap between two intervals
separates them. -/
theorem neighbours_iff {intervals : List Interval} {place left right : Nat}
    (positive : ∀ interval ∈ intervals, 0 < interval.length)
    (atPlace : (numbersOf intervals)[place]? = some left)
    (next : (numbersOf intervals)[place + 1]? = some right) :
    right = left + 1 ↔ TouchAt intervals (place + 1) := by
  induction intervals generalizing place with
  | nil => cases atPlace
  | cons interval rest inductionHypothesis =>
      have restPositive : ∀ later ∈ rest, 0 < later.length :=
        fun later member => positive later (List.mem_cons_of_mem _ member)
      by_cases behind : interval.length ≤ place
      · obtain ⟨offset, rfl⟩ := Nat.exists_eq_add_of_le behind
        rw [Nat.add_assoc] at next ⊢
        rw [numbersOf_getElem?_behind] at atPlace next
        rw [touchAt_behind (Nat.succ_pos offset)]
        exact inductionHypothesis restPositive atPlace next
      · have inside : place < interval.length := by omega
        rw [numbersOf_getElem?_first inside] at atPlace
        cases atPlace
        by_cases nextInside : place + 1 < interval.length
        · rw [numbersOf_getElem?_first nextInside] at next
          cases next
          exact ⟨fun _ => touchAt_early nextInside, fun _ => rfl⟩
        · have last : place + 1 = interval.length + 0 := by omega
          rw [last, numbersOf_getElem?_behind] at next
          simp only [last, Nat.add_zero]
          cases rest with
          | nil => cases next
          | cons head tail =>
              have headPositive := restPositive head List.mem_cons_self
              rw [numbersOf_getElem?_first headPositive] at next
              cases next
              rw [touchAt_first restPositive, stop]
              omega

/-- A list of consecutive numbers, by its neighbours. -/
theorem eq_range'_iff {numbers : List Nat} {first : Nat}
    (head : ∀ number, numbers[0]? = some number → number = first) :
    numbers = List.range' first numbers.length ↔
      ∀ place left right, numbers[place]? = some left →
        numbers[place + 1]? = some right → right = left + 1 := by
  induction numbers generalizing first with
  | nil => simp
  | cons number rest inductionHypothesis =>
      obtain rfl : number = first := head number rfl
      rw [List.length_cons, List.range'_succ, List.cons.injEq]
      constructor
      · intro consecutive
        have restHead :
            ∀ second, rest[0]? = some second → second = number + 1 := by
          intro second found
          rw [consecutive.2] at found
          cases counted : rest.length with
          | zero =>
              rw [counted] at found
              cases found
          | succ count =>
              rw [counted, List.range'_succ] at found
              exact (Option.some.inj found).symm
        have restNeighbours :=
          (inductionHypothesis restHead).mp consecutive.2
        intro place left right atPlace next
        cases place with
        | zero =>
            cases atPlace
            exact restHead right next
        | succ place => exact restNeighbours place left right atPlace next
      · intro neighbours
        have restHead :
            ∀ second, rest[0]? = some second → second = number + 1 :=
          fun second found => neighbours 0 number second rfl found
        refine ⟨rfl, (inductionHypothesis restHead).mpr ?_⟩
        intro place left right atPlace next
        exact neighbours (place + 1) left right atPlace next

/-- A block of the list, from its first number on. -/
theorem block_iff {intervals : List Interval} {start count first : Nat}
    (positive : ∀ interval ∈ intervals, 0 < interval.length)
    (within : start + count ≤ lengthOf intervals)
    (head :
      ∀ number, (numbersOf intervals)[start]? = some number → number = first) :
    ((numbersOf intervals).drop start).take count = List.range' first count ↔
      ∀ place, start < place → place < start + count →
        TouchAt intervals place := by
  have length :
      (((numbersOf intervals).drop start).take count).length = count := by
    rw [List.length_take, List.length_drop, length_numbersOf]
    omega
  have read :
      ∀ place, place < count →
        (((numbersOf intervals).drop start).take count)[place]? =
          (numbersOf intervals)[start + place]? := by
    intro place inside
    rw [List.getElem?_take_of_lt inside, List.getElem?_drop]
  have blockHead :
      ∀ number,
        (((numbersOf intervals).drop start).take count)[0]? = some number →
          number = first := by
    intro number found
    by_cases empty : count = 0
    · rw [empty, List.take_zero] at found
      cases found
    · rw [read 0 (by omega)] at found
      exact head number found
  have whole := eq_range'_iff blockHead
  rw [length] at whole
  rw [whole]
  constructor
  · intro neighbours place lower upper
    obtain ⟨offset, rfl⟩ := Nat.exists_eq_add_of_lt lower
    have offsetInside : start + offset < (numbersOf intervals).length := by
      rw [length_numbersOf]
      omega
    have nextInside : start + offset + 1 < (numbersOf intervals).length := by
      rw [length_numbersOf]
      omega
    have atPlace := List.getElem?_eq_getElem offsetInside
    have next := List.getElem?_eq_getElem nextInside
    apply (neighbours_iff positive atPlace next).mp
    apply neighbours offset
    · rw [read offset (by omega)]
      exact atPlace
    · rw [read (offset + 1) (by omega)]
      exact next
  · intro touch place left right atPlace next
    have nextInside : place + 1 < count := by
      obtain ⟨bound, _⟩ := List.getElem?_eq_some_iff.mp next
      omega
    rw [read place (by omega)] at atPlace
    rw [read (place + 1) nextInside] at next
    exact (neighbours_iff positive atPlace next).mpr
      (touch (start + place + 1) (by omega) (by omega))

end Interval

end RustKernel.Foundations
