import RustKernel.Memory.Supply

/-!
# The handoff of a sorted map

In a map whose usable regions are listed by address, the frames come in
address order.  The region at which the loop of `swap_map` stops lies at or
above the next frame, so that everything behind it is new.
-/

namespace RustKernel.Memory

open RustKernel.Foundations
open RustKernel.Machine
open RustKernel.Paging
open PageTableFrameAllocator

/-- The usable regions are listed by address. -/
def SortedMap (map : MemoryMap) : Prop :=
  (usableDescriptors map).Pairwise fun left right =>
    left.physicalAddress ≤ right.physicalAddress

instance (map : MemoryMap) : Decidable (SortedMap map) :=
  inferInstanceAs (Decidable (List.Pairwise _ _))

theorem descriptorFrames_sorted (descriptor : MemoryDescriptor) :
    (descriptorFrames descriptor).Pairwise fun left right =>
      left.number < right.number := by
  unfold descriptorFrames
  rw [List.pairwise_map]
  exact List.pairwise_lt_range'

/-- The frames of regions that are apart and sorted. -/
theorem number_lt_of_sorted {left right : MemoryDescriptor}
    {before behind : PhysFrame .size4KiB}
    (leftAligned : left.physicalAddress % 4096 = 0)
    (rightAligned : right.physicalAddress % 4096 = 0)
    (apart : left.Apart right)
    (sorted : left.physicalAddress ≤ right.physicalAddress)
    (inLeft : before ∈ descriptorFrames left)
    (inRight : behind ∈ descriptorFrames right) :
    before.number < behind.number := by
  rw [mem_descriptorFrames] at inLeft inRight
  rw [MemoryDescriptor.apart_iff] at apart
  unfold MemoryDescriptor.endAddress at apart
  omega

theorem usableFrames_sorted {map : MemoryMap} (wellFormed : WellFormedMap map)
    (sorted : SortedMap map) :
    (usableFrames map).Pairwise fun left right =>
      left.number < right.number := by
  unfold usableFrames
  rw [List.pairwise_flatMap]
  refine ⟨fun descriptor _ => descriptorFrames_sorted descriptor, ?_⟩
  have both := wellFormed.apart.and sorted
  refine both.imp_of_mem ?_
  intro left right leftListed rightListed separated before inLeft behind
    inRight
  exact number_lt_of_sorted (wellFormed.aligned left leftListed)
    (wellFormed.aligned right rightListed) separated.1 separated.2 inLeft
    inRight

section Swap

variable {map map' : MemoryMap}

theorem SameDescriptors.wellFormed (same : SameDescriptors map map')
    (wellFormed : WellFormedMap map) : WellFormedMap map' where
  aligned := (same.forall_iff fun _ => Iff.rfl).mp wellFormed.aligned
  apart := (same.pairwise_iff fun _ _ => Iff.rfl).mp wellFormed.apart
  representable :=
    (same.forall_iff fun _ => Iff.rfl).mp wellFormed.representable

variable {count : Nat} {answers : List (Option (PhysFrame .size4KiB))}
variable {walk advanced : PageTableFrameAllocator}
variable {current : PhysFrame .size4KiB}

/-- The frame that the swap draws comes after those of the calls before. -/
theorem next_frame
    (physical :
      ∀ descriptor ∈ usableDescriptors map', descriptor.Physical)
    (same : SameDescriptors map map')
    (before : allocateFrames count (new map) = .ok (answers, walk))
    (called : walk.allocateFrame = .ok (some current, advanced)) :
    itemsOf answers = (usableFrames map').take count ∧
      (usableFrames map')[count]? = some current := by
  obtain ⟨items, pending⟩ := pending_after same before
  refine ⟨items, next_usableFrame ?_ pending called⟩
  rw [allocateFrame_produces.next_some called,
    pendingFrames_of_physical physical] at pending
  have lengths := congrArg List.length pending
  simp only [List.length_map, List.length_append, List.length_cons,
    List.length_take] at lengths
  omega

/-- The kernel's allocator gives no frame that the loader has drawn, and only
frames of usable regions, each of them once. -/
theorem swap_gives_new_frames {swapped : PageTableFrameAllocator}
    (wellFormed : WellFormedMap map) (sorted : SortedMap map)
    (physical :
      ∀ descriptor ∈ usableDescriptors map, descriptor.Physical)
    (same : SameDescriptors map map')
    (before : allocateFrames count (new map) = .ok (answers, walk))
    (swap : walk.swapMap map' = .ok swapped) :
    ∃ frames : List (PhysFrame .size4KiB),
      Represents swapped (supply frames) ∧ frames.Nodup ∧
        frames ⊆ usableFrames map ∧ List.Disjoint (itemsOf answers) frames := by
  have wellFormed' := same.wellFormed wellFormed
  have sorted' : SortedMap map' :=
    (same.pairwise_iff fun _ _ => Iff.rfl).mp sorted
  have physical' :
      ∀ descriptor ∈ usableDescriptors map', descriptor.Physical :=
    (same.forall_iff fun _ => Iff.rfl).mp physical
  obtain ⟨current, advanced, rest, called, skips, rfl⟩ := swapMap_eq_ok swap
  obtain ⟨skipped, stop, split, stopUsable, above, _⟩ :=
    skipRegions_eq_ok skips
  obtain ⟨items, found⟩ := next_frame physical' same before called
  have regions :
      usableDescriptors map' =
        usableDescriptors skipped ++ stop :: usableDescriptors rest := by
    rw [split]
    simp [usableDescriptors, stopUsable]
  have framesSorted := usableFrames_sorted wellFormed' sorted'
  have behind : usableFrames rest <:+ usableFrames map' := by
    refine ⟨usableFrames (skipped ++ [stop]), ?_⟩
    rw [← usableFrames_append, split]
    simp
  refine ⟨usableFrames rest, ?_, ?_, ?_, ?_⟩
  · apply represents_of_pending
    rw [pending_of_front_none]
    apply pendingFrames_of_physical
    intro descriptor usable
    apply physical'
    rw [regions]
    simp [usable]
  · exact (framesSorted.imp fun less same =>
      absurd (congrArg PhysFrame.number same) (Nat.ne_of_lt less)).sublist
        behind.sublist
  · rw [same.usableFrames_eq]
    exact behind.subset
  · intro frame handed again
    rw [items] at handed
    obtain ⟨index, lower, atIndex⟩ := List.mem_take_iff_getElem.mp handed
    have earlier : frame.number < current.number := by
      obtain ⟨bound, atCount⟩ := List.getElem?_eq_some_iff.mp found
      have less :=
        List.pairwise_iff_getElem.mp framesSorted index count (by omega) bound
          (by omega)
      rw [atIndex, atCount] at less
      exact less
    obtain ⟨owner, listed, owned⟩ := mem_usableFrames.mp again
    rw [SortedMap, regions] at sorted'
    have order :=
      (List.pairwise_cons.mp (List.pairwise_append.mp sorted').2.1).1 owner
        listed
    have aligned := wellFormed'.aligned owner (by rw [regions]; simp [listed])
    rw [mem_descriptorFrames] at owned
    simp only [PhysFrame.startAddress, PageSize.bytes] at above
    omega

end Swap

end RustKernel.Memory
