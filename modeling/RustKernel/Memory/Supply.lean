import RustKernel.Foundations.Ownership
import RustKernel.Memory.HandoffLosses
import RustKernel.Paging.Mapper

/-!
# The allocator behind the trait

The mapper and the loaders know an allocator by the answers to its calls.
`PageTableFrameAllocator` walks a memory map instead.  As long as its usable
regions have physical addresses, every call on the walk is answered as the
sequence of the usable frames answers it.
-/

namespace RustKernel.Memory

open RustKernel.Foundations
open RustKernel.Machine
open RustKernel.Paging
open PageTableFrameAllocator

/-- The walk has the answers before it that the sequence has. -/
def Represents (walk : PageTableFrameAllocator) (sequence : FrameAllocator) :
    Prop :=
  ∀ index,
    walk.pending[index]? =
      (sequence.answers (sequence.drawn + index)).map .ok

/-- An allocator that gives the frames of a list. -/
def supply (frames : List (PhysFrame .size4KiB)) : FrameAllocator :=
  ⟨fun index => frames[index]?, 0⟩

section Calls

variable {walk : PageTableFrameAllocator} {sequence : FrameAllocator}

/-- A call on the walk is a call on the sequence. -/
theorem Represents.allocateFrame (represents : Represents walk sequence) :
    ∃ after,
      walk.allocateFrame = .ok (sequence.allocateFrame.1, after) ∧
        Represents after sequence.allocateFrame.2 := by
  have here := represents 0
  have behind (index : Nat) := represents (index + 1)
  cases pending : walk.pending with
  | nil =>
      obtain ⟨after, called, drained⟩ :=
        allocateFrame_produces.drained walk pending
      rw [pending] at here behind
      have answer : sequence.answers sequence.drawn = none := by
        simpa using here.symm
      refine ⟨after, ?_, ?_⟩
      · rw [called, FrameAllocator.allocateFrame, answer]
      · intro index
        have next := behind index
        rw [drained]
        simp only [FrameAllocator.allocateFrame]
        rw [Nat.add_right_comm, Nat.add_assoc, ← next]
        rfl
  | cons entry rest =>
      rw [pending] at here behind
      cases answer : sequence.answers sequence.drawn with
      | none => simp [answer] at here
      | some frame =>
          have isFrame : entry = .ok frame := by
            simpa [answer] using here
          rw [isFrame] at pending
          obtain ⟨after, called, left⟩ :=
            allocateFrame_produces.yielding walk frame rest pending
          refine ⟨after, ?_, ?_⟩
          · rw [called, FrameAllocator.allocateFrame, answer]
          · intro index
            have next := behind index
            rw [left]
            simp only [FrameAllocator.allocateFrame]
            rw [Nat.add_right_comm, Nat.add_assoc, ← next]
            rfl

/-- Any number of calls on the walk are calls on the sequence. -/
theorem Represents.allocateFrames (represents : Represents walk sequence)
    (count : Nat) :
    ∃ after,
      walk.allocateFrames count =
        .ok ((List.range count).map fun index =>
          sequence.answers (sequence.drawn + index), after) ∧
        Represents after { sequence with drawn := sequence.drawn + count } := by
  induction count generalizing walk sequence with
  | zero => exact ⟨walk, rfl, represents⟩
  | succ count inductionHypothesis =>
      obtain ⟨next, called, represents⟩ := represents.allocateFrame
      obtain ⟨after, returned, represents⟩ := inductionHypothesis represents
      refine ⟨after, ?_, ?_⟩
      · unfold PageTableFrameAllocator.allocateFrames at returned ⊢
        rw [takeNext, called]
        simp only [returned, List.range_succ_eq_map, List.map_cons,
          List.map_map, FrameAllocator.allocateFrame, Nat.add_zero]
        congr 2
        apply congrArg
        apply List.map_congr_left
        intro index _
        simp only [Function.comp_apply]
        congr 1
        omega
      · have counted : sequence.drawn + 1 + count = sequence.drawn + (count + 1) := by
          omega
        rw [← counted]
        exact represents

end Calls

/-! ## Walks over a map -/

theorem represents_of_pending {walk : PageTableFrameAllocator}
    {frames : List (PhysFrame .size4KiB)}
    (pending : walk.pending = frames.map .ok) :
    Represents walk (supply frames) := by
  intro index
  rw [pending, List.getElem?_map, supply, Nat.zero_add]

/-- A walk has one sequence of answers. -/
theorem Represents.answers_eq {walk : PageTableFrameAllocator}
    {left right : FrameAllocator} (first : Represents walk left)
    (second : Represents walk right) (leftUnused : left.drawn = 0)
    (rightUnused : right.drawn = 0) : left.answers = right.answers := by
  funext index
  have same := (first index).symm.trans (second index)
  rw [leftUnused, rightUnused, Nat.zero_add] at same
  have injective :
      Function.Injective (Except.ok : PhysFrame .size4KiB → Except Panic _) :=
    fun _ _ equal => Except.ok.inj equal
  exact Option.map_injective injective same

/-- A new allocator gives the usable frames of its map. -/
theorem represents_new {map : MemoryMap}
    (physical :
      ∀ descriptor ∈ usableDescriptors map, descriptor.Physical) :
    Represents (new map) (supply (usableFrames map)) := by
  apply represents_of_pending
  rw [new, pending_of_front_none]
  exact pendingFrames_of_physical physical

/-- After `swap_map`, the allocator gives the usable frames behind the region
at which it stopped. -/
theorem represents_swapMap {map : MemoryMap}
    {allocator swapped : PageTableFrameAllocator}
    (physical :
      ∀ descriptor ∈ usableDescriptors map, descriptor.Physical)
    (swap : allocator.swapMap map = .ok swapped) :
    ∃ front back,
      map = front ++ back ∧
        Represents swapped (supply (usableFrames back)) := by
  obtain ⟨current, advanced, rest, _, skips, rfl⟩ := swapMap_eq_ok swap
  obtain ⟨skipped, stop, split, _, _, _⟩ := skipRegions_eq_ok skips
  refine ⟨skipped ++ [stop], rest, by simp [split], ?_⟩
  apply represents_of_pending
  rw [pending_of_front_none]
  apply pendingFrames_of_physical
  intro descriptor usable
  apply physical descriptor
  rw [mem_usableDescriptors] at usable ⊢
  exact ⟨by rw [split]; simp [usable.1], usable.2⟩

/-- With a next frame and a region at or above it, `swap_map` returns. -/
theorem Represents.swapMap {walk : PageTableFrameAllocator}
    {sequence : FrameAllocator} {current : PhysFrame .size4KiB}
    {map rest : MemoryMap} (represents : Represents walk sequence)
    (answer : sequence.answers sequence.drawn = some current)
    (skips : skipRegions (some current) map = .ok rest)
    (physical :
      ∀ descriptor ∈ usableDescriptors rest, descriptor.Physical) :
    ∃ swapped, walk.swapMap map = .ok swapped ∧
      Represents swapped (supply (usableFrames rest)) := by
  obtain ⟨after, called, _⟩ := represents.allocateFrame
  have drawn : sequence.allocateFrame.1 = some current := answer
  rw [drawn] at called
  refine ⟨{ after with addresses := ⟨none, rest⟩ }, ?_, ?_⟩
  · unfold PageTableFrameAllocator.swapMap
    rw [called]
    simp only [skips]
  · apply represents_of_pending
    rw [pending_of_front_none]
    exact pendingFrames_of_physical physical

theorem neverTwice_supply {frames : List (PhysFrame .size4KiB)}
    (nodup : frames.Nodup) : NeverTwice (supply frames).answers := by
  intro left right frame atLeft atRight
  obtain ⟨leftBound, leftGiven⟩ := List.getElem?_eq_some_iff.mp atLeft
  obtain ⟨rightBound, rightGiven⟩ := List.getElem?_eq_some_iff.mp atRight
  exact (List.Nodup.getElem_inj_iff nodup).mp
    (leftGiven.trans rightGiven.symm)

end RustKernel.Memory
