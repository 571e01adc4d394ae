import Mathlib.Data.List.Forall2
import Mathlib.Tactic.Common

/-!
# Ranges handed out by a counter

A range is a first number and a count.  A counter that only grows hands out
ranges one after another: `Ascending low high ranges` says that the ranges lie
between two values of the counter in their order.  Ascending ranges compose
like the runs of the counter, and they are disjoint.
-/

namespace RustKernel.Foundations

structure Range where
  start : Nat
  count : Nat
  deriving DecidableEq, Repr

namespace Range

/-- The first number behind the range. -/
def stop (range : Range) : Nat := range.start + range.count

/-- The ranges have no number in common. -/
def Disjoint (left right : Range) : Prop :=
  left.stop ≤ right.start ∨ right.stop ≤ left.start

theorem Disjoint.symm {left right : Range} (disjoint : Disjoint left right) :
    Disjoint right left :=
  Or.symm disjoint

end Range

def Ascending (low high : Nat) : List Range → Prop
  | [] => low ≤ high
  | range :: ranges => low ≤ range.start ∧ Ascending range.stop high ranges

namespace Ascending

variable {low middle high : Nat} {first second ranges : List Range}

theorem le (ascending : Ascending low high ranges) : low ≤ high := by
  induction ranges generalizing low with
  | nil => exact ascending
  | cons range ranges inductionHypothesis =>
      have later := inductionHypothesis ascending.2
      have lower := ascending.1
      unfold Range.stop at later
      omega

theorem append (begun : Ascending low middle first)
    (ended : Ascending middle high second) :
    Ascending low high (first ++ second) := by
  induction first generalizing low with
  | nil =>
      have lower : low ≤ middle := begun
      cases second with
      | nil => exact Nat.le_trans lower ended
      | cons range ranges => exact ⟨Nat.le_trans lower ended.1, ended.2⟩
  | cons range ranges inductionHypothesis =>
      exact ⟨begun.1, inductionHypothesis begun.2⟩

/-- A counter may pass over numbers before it hands out ranges. -/
theorem lower {lower : Nat} (earlier : lower ≤ low)
    (ascending : Ascending low high ranges) :
    Ascending lower high ranges := by
  cases ranges with
  | nil => exact Nat.le_trans earlier ascending
  | cons range ranges => exact ⟨Nat.le_trans earlier ascending.1, ascending.2⟩

/-- Every range may be shortened. -/
theorem shorten {shorter : List Range}
    (within :
      List.Forall₂
        (fun range short =>
          short.start = range.start ∧ short.count ≤ range.count)
        ranges shorter)
    (ascending : Ascending low high ranges) :
    Ascending low high shorter := by
  induction within generalizing low with
  | nil => exact ascending
  | cons same _ inductionHypothesis =>
      refine ⟨by rw [same.1]; exact ascending.1, ?_⟩
      refine (inductionHypothesis ascending.2).lower ?_
      unfold Range.stop
      omega

theorem bounds (ascending : Ascending low high ranges) :
    ∀ range ∈ ranges, low ≤ range.start ∧ range.stop ≤ high := by
  induction ranges generalizing low with
  | nil => simp
  | cons head ranges inductionHypothesis =>
      intro range member
      rcases List.mem_cons.mp member with same | member
      · subst same
        exact ⟨ascending.1, ascending.2.le⟩
      · have later := inductionHypothesis ascending.2 range member
        have lower := ascending.1
        unfold Range.stop at later ⊢
        omega

theorem pairwise_disjoint (ascending : Ascending low high ranges) :
    ranges.Pairwise Range.Disjoint := by
  induction ranges generalizing low with
  | nil => exact List.Pairwise.nil
  | cons head ranges inductionHypothesis =>
      refine List.Pairwise.cons ?_ (inductionHypothesis ascending.2)
      intro range member
      exact Or.inl (ascending.2.bounds range member).1

end Ascending

/-! ## Ranges without gaps -/

/-- The size of all ranges together. -/
def total : List Range → Nat
  | [] => 0
  | range :: ranges => range.count + total ranges

@[simp]
theorem total_cons (range : Range) (ranges : List Range) :
    total (range :: ranges) = range.count + total ranges :=
  rfl

@[simp]
theorem total_append (first second : List Range) :
    total (first ++ second) = total first + total second := by
  induction first with
  | nil => exact (Nat.zero_add _).symm
  | cons range first inductionHypothesis =>
      rw [List.cons_append, total_cons, total_cons, inductionHypothesis,
        Nat.add_assoc]

theorem total_congr {first second : List Range}
    (same : first.map Range.count = second.map Range.count) :
    total first = total second := by
  induction first generalizing second with
  | nil =>
      rw [List.map_nil, eq_comm, List.map_eq_nil_iff] at same
      rw [same]
  | cons range first inductionHypothesis =>
      cases second with
      | nil => cases same
      | cons other second =>
          injection same with sameCount sameRest
          rw [total_cons, total_cons, sameCount, inductionHypothesis sameRest]

namespace Ascending

variable {low high : Nat} {ranges : List Range}

theorem add_total_le (ascending : Ascending low high ranges) :
    low + total ranges ≤ high := by
  induction ranges generalizing low with
  | nil => exact ascending
  | cons range ranges inductionHypothesis =>
      have later := inductionHypothesis ascending.2
      have lower := ascending.1
      unfold Range.stop at later
      rw [total_cons]
      omega

/-- When the ranges fill the space between the bounds, each begins where those
in front of it end. -/
theorem start_of_total {front back : List Range} {range : Range}
    (ascending : Ascending low high (front ++ range :: back))
    (filled : low + total (front ++ range :: back) = high) :
    range.start = low + total front := by
  induction front generalizing low with
  | nil =>
      have later := ascending.2.add_total_le
      have lower := ascending.1
      simp only [List.nil_append, total_cons] at filled
      unfold Range.stop at later
      simp only [total]
      omega
  | cons head front inductionHypothesis =>
      obtain ⟨lower, ascendingLater⟩ := ascending
      have later := ascendingLater.add_total_le
      rw [List.cons_append, total_cons] at filled
      have filledLater :
          head.stop + total (front ++ range :: back) = high := by
        unfold Range.stop at later ⊢
        simp only [List.append_eq] at later
        omega
      rw [inductionHypothesis ascendingLater filledLater, total_cons]
      unfold Range.stop at filledLater ⊢
      omega

/-- Ranges that fill the space between the bounds cannot be made longer where
they are. -/
theorem count_le_of_total {longer : List Range}
    (starts :
      List.Forall₂ (fun range long => long.start = range.start) ranges longer)
    (ascending : Ascending low high ranges)
    (filled : low + total ranges = high)
    (ascendingLonger : Ascending low high longer) :
    List.Forall₂ (fun range long => long.count ≤ range.count) ranges longer := by
  induction starts generalizing low with
  | nil => exact List.Forall₂.nil
  | @cons range long ranges longer same rest inductionHypothesis =>
      have later := ascending.2.add_total_le
      have lower := ascending.1
      rw [total_cons] at filled
      unfold Range.stop at later
      have filledLater : range.stop + total ranges = high := by
        unfold Range.stop
        omega
      have behind : Ascending range.stop high longer ∧ long.stop ≤ range.stop := by
        have longerLater := ascendingLonger.2
        cases rest with
        | nil =>
            have reached : range.stop = high := filledLater
            have high : long.stop ≤ high := longerLater
            exact ⟨Nat.le_of_eq reached, by omega⟩
        | @cons next longNext ranges longer sameNext rest =>
            obtain ⟨nextLower, nextAscending⟩ := ascending.2
            have nextLater := nextAscending.add_total_le
            rw [total_cons] at filledLater
            unfold Range.stop at nextLater
            have nextStart : longNext.start = range.stop := by
              unfold Range.stop at nextLower filledLater ⊢
              omega
            refine ⟨⟨Nat.le_of_eq nextStart.symm, longerLater.2⟩, ?_⟩
            rw [← nextStart]
            exact longerLater.1
      refine List.Forall₂.cons ?_
        (inductionHypothesis ascending.2 filledLater behind.1)
      have short := behind.2
      unfold Range.stop at short
      omega

end Ascending

end RustKernel.Foundations
