import RustKernel.Foundations.Intervals
import RustKernel.Memory.AllocationRuns

/-!
# Blocks of frames

`allocate_size` takes frames one at a time and returns the first of them
together with their number.  The number is rounded down, and the frames follow
one another only as far as the usable regions do.
-/

namespace RustKernel.Memory

open RustKernel.Foundations
open RustKernel.Machine
open PageTableFrameAllocator

/-! ## The function -/

namespace PageTableFrameAllocator

/-- The loop of `allocate_size`, from turn `i` on: the frame that it
remembers, unless the allocator runs out. -/
def allocateSizeLoop :
    Nat → Nat → PhysFrame .size4KiB → PageTableFrameAllocator →
      Except Panic (Option (PhysFrame .size4KiB) × PageTableFrameAllocator)
  | _, 0, retFrame, allocator => .ok (some retFrame, allocator)
  | i, left + 1, retFrame, allocator =>
      match allocator.allocateFrame with
      | .error fault => .error fault
      | .ok (none, after) => .ok (none, after)
      | .ok (some frame, after) =>
          allocateSizeLoop (i + 1) left (if i = 0 then frame else retFrame)
            after

/-- `PageTableFrameAllocator::allocate_size`. -/
def allocateSize (size : Nat) (allocator : PageTableFrameAllocator) :
    Except Panic
      (Option (PhysFrame .size4KiB × Nat) × PageTableFrameAllocator) :=
  let n := size / 4096
  match allocateSizeLoop 0 n ⟨0⟩ allocator with
  | .error fault => .error fault
  | .ok (answer, after) => .ok (answer.map fun frame => (frame, n), after)

end PageTableFrameAllocator

/-- The frames that stand between two states of the allocator. -/
def Took (before after : PageTableFrameAllocator)
    (frames : List (PhysFrame .size4KiB)) : Prop :=
  before.pending = frames.map .ok ++ after.pending

/-- The block is large enough and consists of the frames taken. -/
def UsableBlock (size : Nat) (frame : PhysFrame .size4KiB) (n : Nat)
    (before after : PageTableFrameAllocator) : Prop :=
  size ≤ n * 4096 ∧
    Took before after ((List.range' frame.number n).map PhysFrame.mk)

/-! ## What the call takes -/

/-- The loop takes a frame in every turn and remembers the one of turn
zero. -/
theorem allocateSizeLoop_took {i left : Nat}
    {retFrame frame : PhysFrame .size4KiB}
    {allocator after : PageTableFrameAllocator}
    (returned :
      allocateSizeLoop i left retFrame allocator = .ok (some frame, after)) :
    ∃ taken, Took allocator after taken ∧ taken.length = left ∧
      frame = if i = 0 then taken.headD retFrame else retFrame := by
  induction left generalizing i retFrame allocator with
  | zero =>
      cases returned
      exact ⟨[], rfl, rfl, by simp⟩
  | succ left inductionHypothesis =>
      rw [allocateSizeLoop] at returned
      cases called : allocator.allocateFrame with
      | error fault =>
          rw [called] at returned
          cases returned
      | ok answer =>
          obtain ⟨answer, middle⟩ := answer
          rw [called] at returned
          cases answer with
          | none => cases returned
          | some first =>
              obtain ⟨taken, took, length, remembered⟩ :=
                inductionHypothesis returned
              refine ⟨first :: taken, ?_, by simp [length], ?_⟩
              · rw [Took, allocateFrame_produces.next_some called, took,
                  List.map_cons, List.cons_append]
              · rw [remembered, if_neg (Nat.succ_ne_zero i), List.headD_cons]

theorem allocateSize_took {size n : Nat} {frame : PhysFrame .size4KiB}
    {allocator after : PageTableFrameAllocator}
    (returned :
      allocateSize size allocator = .ok (some (frame, n), after)) :
    n = size / 4096 ∧
      ∃ taken, Took allocator after taken ∧ taken.length = n ∧
        frame = taken.headD ⟨0⟩ := by
  rw [allocateSize] at returned
  cases looped : allocateSizeLoop 0 (size / 4096) ⟨0⟩ allocator with
  | error fault =>
      simp only [looped] at returned
      cases returned
  | ok answer =>
      obtain ⟨answer, final⟩ := answer
      simp only [looped] at returned
      cases answer with
      | none => cases returned
      | some first =>
          cases returned
          obtain ⟨taken, took, length, remembered⟩ :=
            allocateSizeLoop_took looped
          exact ⟨rfl, taken, took, length, by simpa using remembered⟩

/-- Between two states stands one list of frames. -/
theorem Took.unique {before after : PageTableFrameAllocator}
    {left right : List (PhysFrame .size4KiB)}
    (tookLeft : Took before after left) (tookRight : Took before after right) :
    left = right := by
  have same := List.append_cancel_right (tookLeft.symm.trans tookRight)
  exact List.map_injective_iff.mpr (fun _ _ => Except.ok.inj) same

/-! ## Where the frames lie in the map -/

/-- The usable regions that have frames, as intervals of frame numbers. -/
def frameIntervals (map : MemoryMap) : List Interval :=
  ((usableDescriptors map).map fun descriptor =>
    ⟨descriptor.physicalAddress / 4096, descriptor.size⟩).filter
      fun interval => 0 < interval.length

theorem usableFrames_eq (map : MemoryMap) :
    usableFrames map =
      (Interval.numbersOf (frameIntervals map)).map PhysFrame.mk := by
  unfold usableFrames frameIntervals
  induction usableDescriptors map with
  | nil => rfl
  | cons descriptor rest inductionHypothesis =>
      rw [List.flatMap_cons, inductionHypothesis, List.map_cons,
        List.filter_cons]
      by_cases positive : 0 < descriptor.size
      · simp only [positive, decide_true, if_true, Interval.numbersOf,
          List.flatMap_cons, List.map_append]
        rfl
      · have empty : descriptor.size = 0 := by omega
        simp [descriptorFrames, empty]

/-- A call that takes frames takes the next ones of the map. -/
theorem took_eq {map : MemoryMap} {earlier : Nat}
    {answers : List (Option (PhysFrame .size4KiB))}
    {before after : PageTableFrameAllocator}
    {taken : List (PhysFrame .size4KiB)}
    (allocated : allocateFrames earlier (new map) = .ok (answers, before))
    (took : Took before after taken) (some : taken ≠ []) :
    earlier + taken.length ≤ (usableFrames map).length ∧
      taken = ((usableFrames map).drop earlier).take taken.length := by
  obtain ⟨items, split, bounded, _, exhausted⟩ :=
    allocateFrame_produces.takeNext_ok allocated
  have exact : items.length = earlier := by
    by_contra different
    have drained := exhausted (by omega)
    rw [took, List.append_eq_nil_iff, List.map_eq_nil_iff] at drained
    exact some drained.1
  have presents := pendingFrames_presents map
  rw [new, pending_of_front_none] at split
  rw [split, took, ← List.append_assoc, ← List.map_append] at presents
  obtain ⟨⟨rest, whole⟩, _⟩ := presents.good_entries
  rw [← whole]
  constructor
  · simp only [List.length_append]
    omega
  · rw [← exact, List.append_assoc, List.drop_left, List.take_left]

/-- The call returns a usable block exactly when the size is a number of whole
pages and the regions that meet inside the block touch. -/
theorem allocateSize_usable_iff {map : MemoryMap} {earlier size n : Nat}
    {answers : List (Option (PhysFrame .size4KiB))}
    {frame : PhysFrame .size4KiB} {before after : PageTableFrameAllocator}
    (positive : 0 < size)
    (allocated : allocateFrames earlier (new map) = .ok (answers, before))
    (returned : allocateSize size before = .ok (some (frame, n), after)) :
    UsableBlock size frame n before after ↔
      size % 4096 = 0 ∧
        ∀ place, earlier < place → place < earlier + size / 4096 →
          Interval.TouchAt (frameIntervals map) place := by
  obtain ⟨rfl, taken, took, length, first⟩ := allocateSize_took returned
  by_cases small : size < 4096
  · constructor
    · intro usable
      have enough := usable.1
      omega
    · intro whole
      omega
  · have some : taken ≠ [] := by
      intro empty
      rw [empty, List.length_nil] at length
      omega
    obtain ⟨within, slice⟩ := took_eq allocated took some
    rw [length, usableFrames_eq, List.length_map, Interval.length_numbersOf]
      at within
    rw [length, usableFrames_eq, ← List.map_drop, ← List.map_take] at slice
    have intervalsPositive :
        ∀ interval ∈ frameIntervals map, 0 < interval.length := by
      intro interval member
      simpa [frameIntervals] using (List.mem_filter.mp member).2
    have head :
        ∀ number,
          (Interval.numbersOf (frameIntervals map))[earlier]? = .some number →
            number = frame.number := by
      intro number found
      have takenHead : taken[0]? = .some ⟨number⟩ := by
        rw [slice, List.getElem?_map, List.getElem?_take_of_lt (by omega),
          List.getElem?_drop, Nat.add_zero, found]
        rfl
      rw [first, List.headD_eq_head?_getD, List.head?_eq_getElem?, takenHead]
      rfl
    have block := Interval.block_iff intervalsPositive within head
    have numbers :
        ((Interval.numbersOf (frameIntervals map)).drop earlier).take
            (size / 4096) = List.range' frame.number (size / 4096) ↔
          Took before after
            ((List.range' frame.number (size / 4096)).map PhysFrame.mk) := by
      constructor
      · intro same
        rw [← same, ← slice]
        exact took
      · intro tookBlock
        have same := tookBlock.unique took
        rw [slice] at same
        exact (List.map_injective_iff.mpr (fun _ _ => PhysFrame.mk.inj)
          same).symm
    rw [UsableBlock, ← numbers, block]
    refine and_congr_left fun _ => ?_
    omega

/-! ## A map with a gap -/

/-- Two regions of two pages with a gap between them. -/
def gapMap : MemoryMap :=
  [⟨.conventional, 0x1000, 0, 2⟩, ⟨.conventional, 0x5000, 0, 2⟩]

/-- The allocator of the map, between two addresses of the first region. -/
def inFirstRegion (start : Nat) : PageTableFrameAllocator :=
  ⟨gapMap, ⟨some ⟨start, 0x3000, false⟩, [⟨.conventional, 0x5000, 0, 2⟩]⟩⟩

/-- The allocator of the map in its last region. -/
def inLastRegion (start : Nat) : PageTableFrameAllocator :=
  ⟨gapMap, ⟨some ⟨start, 0x7000, false⟩, []⟩⟩

theorem allocateSize_usable_iff_lastRegion :
    UsableBlock 8192 ⟨5⟩ 2 (inFirstRegion 0x2001) (inLastRegion 0x6001) ↔
      8192 % 4096 = 0 ∧
        ∀ place, 2 < place → place < 2 + 8192 / 4096 →
          Interval.TouchAt (frameIntervals gapMap) place := by
  have allocated :
      allocateFrames 2 (new gapMap) =
        .ok ([some ⟨1⟩, some ⟨2⟩], inFirstRegion 0x2001) := by
    decide
  have returned :
      allocateSize 8192 (inFirstRegion 0x2001) =
        .ok (some (⟨5⟩, 2), inLastRegion 0x6001) := by
    decide
  exact allocateSize_usable_iff (by decide) allocated returned

/-- After one frame, a block of two frames spans the gap. -/
theorem allocateSize_spans_gap :
    allocateFrames 1 (new gapMap) =
        .ok ([some ⟨1⟩], inFirstRegion 0x1001) ∧
      allocateSize 8192 (inFirstRegion 0x1001) =
        .ok (some (⟨2⟩, 2), inLastRegion 0x5001) ∧
      ¬ UsableBlock 8192 ⟨2⟩ 2 (inFirstRegion 0x1001)
        (inLastRegion 0x5001) := by
  refine ⟨by decide, by decide, ?_⟩
  intro usable
  have took := usable.2
  unfold Took at took
  revert took
  decide

end RustKernel.Memory
