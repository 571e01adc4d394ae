import RustKernel.Loader.Completion
import RustKernel.Memory.AllocationRuns

/-!
# The window onto physical memory

`kernel_from_elf` maps physical memory at `PAGE_TABLE_OFFSET` from address
zero up to the size that `get_mem_size` gives, rounded up to 1 GiB.  The size
is a sum over the memory map and knows nothing of holes, while the frames of
the allocator are where the map says they are.
-/

namespace RustKernel.Loader

open RustKernel.Foundations
open RustKernel.Machine
open RustKernel.Memory
open RustKernel.Paging

/-- The first address behind the window. -/
def windowEnd (mem : Nat) : Nat :=
  (mem / 2 ^ 30 + 1) * 2 ^ 30

/-- Every usable descriptor that the allocator gets to ends, with its start
rounded down to a page, inside the window. -/
def WindowReaches (map : MemoryMap) : Prop :=
  ∀ front descriptor back,
    usableDescriptors map = front ++ descriptor :: back →
      (∀ earlier ∈ front, earlier.Physical) →
      descriptor.endAddress < wordSize → 0 < descriptor.size →
      descriptor.physicalAddress < 2 ^ 52 →
        min (descriptor.physicalAddress / 4096 + descriptor.size) (2 ^ 40) *
            4096 ≤
          windowEnd (describedBytes map)

/-- The frame lies in a 1 GiB frame that the table shows at its place. -/
def SeenThroughWindow {T : Type} [Mapper T] (table : T)
    (frame : PhysFrame .size4KiB) : Prop :=
  ∃ giant page flags,
    windowPage giant = .ok page ∧
      entry table .size1GiB page = .leaf giant flags ∧
      ∀ address, frame.Holds address → giant.Holds address

/-! ## The frames of the window -/

theorem mem_windowFrames {mem : Nat} {frames : List (PhysFrame .size1GiB)}
    (computed : windowFrames mem = .ok frames) {giant : PhysFrame .size1GiB} :
    giant ∈ frames ↔ giant.number ≤ mem / 2 ^ 30 := by
  unfold windowFrames at computed
  obtain ⟨last, created, computed⟩ := except_bind_eq_ok.mp computed
  cases computed
  have value : last.value = mem := PhysAddr.new_eq_ok.mp created
  rw [PhysFrame.mem_rangeInclusive]
  simp [PhysFrame.containingAddress, PageSize.bytes, value]

theorem holds_giant_iff
    {frame : PhysFrame .size4KiB} {giant : PhysFrame .size1GiB} :
    (∀ address, frame.Holds address → giant.Holds address) ↔
      giant.number = frame.number / 2 ^ 18 := by
  simp only [PhysFrame.holds_iff, PageSize.bytes]
  constructor
  · intro inside
    have first := inside (frame.number * 4096) (by omega)
    omega
  · intro same address held
    omega

/-- Giants that the window may hold. -/
def HugeAmong (frames : List (PhysFrame .size1GiB)) :
    (size : PageSize) → PhysFrame size → Prop
  | .size1GiB, frame => frame ∈ frames
  | _, _ => True

def hugeAmong (frames : List (PhysFrame .size1GiB)) : LeafCondition where
  Holds := fun _ size _ frame _ => HugeAmong frames size frame
  advance := fun _ holds => holds

section Loader

variable {T C : Type} [Mapper T] [Mapper C] [LawfulMapper T] [LawfulMapper C]
variable {elf : ElfFile} {descriptors : List MemoryDescriptor}
variable {kernelStackStart kernelStackEnd mem : Nat}
variable {start final : Machine T C} {process : Process T}

/-- `kernel_from_elf` maps no 1 GiB frame outside the window. -/
theorem hugeAmong_kernelFromElf
    (empty : Empty start.table)
    (returned :
      (kernelFromElf descriptors elf kernelStackStart kernelStackEnd mem).run
        start = .ok process final) :
    LeavesIn (hugeAmong (listOf (windowFrames mem))) start.allocator
      final := by
  obtain ⟨ready, setup, looped, _⟩ := kernelFromElf_run_ok returned
  apply leavesIn_loadSegments _ _ _ looped
  · intro _ _ _ _ _
    trivial
  · intro _ _ _ _ _ _ _ holds
    exact holds
  · apply leavesIn_kernelSetup _ _ _ _ _ (leavesIn_of_empty empty) setup
    · intro _ frame member
      exact member
    · intro _ _ _ _ _
      trivial
    · intro _ _ _
      trivial
    · intro _ _ _
      trivial
    · intro _
      trivial

/-- A frame is seen through the window exactly when it ends before it. -/
theorem seenThroughWindow_iff
    (empty : Empty start.table)
    (returned :
      (kernelFromElf descriptors elf kernelStackStart kernelStackEnd mem).run
        start = .ok process final)
    (frame : PhysFrame .size4KiB) :
    SeenThroughWindow process.addressSpace frame ↔
      (frame.number + 1) * 4096 ≤ windowEnd mem := by
  have huge := hugeAmong_kernelFromElf empty returned
  obtain ⟨ready, setup, looped, made⟩ := kernelFromElf_run_ok returned
  have grown : Grows ready final :=
    (grows_loadSegments elf ignoreAnswer).of_run_ok looped
  obtain ⟨frames, computed, each⟩ := (kernelSetup_maps_window setup).grows grown
  rw [computed] at huge
  rw [made]
  unfold SeenThroughWindow windowEnd
  simp only [holds_giant_iff]
  constructor
  · rintro ⟨giant, page, flags, _, leaf, same⟩
    have listed : giant ∈ frames := huge.holds .size1GiB page giant flags leaf
    rw [mem_windowFrames computed] at listed
    omega
  · intro before
    have listed : ⟨frame.number / 2 ^ 18⟩ ∈ frames := by
      rw [mem_windowFrames computed]
      simp only
      omega
    obtain ⟨page, flags, located, leaf⟩ := each _ listed
    exact ⟨_, page, flags, located, leaf, rfl⟩

/-- Every frame that the allocator of a map can return is seen through the
window exactly when the usable descriptors end inside it. -/
theorem window_reaches_iff
    {newPageTable : T} {current : C} {allocator : FrameAllocator}
    {idIndex : Nat} {map : MemoryMap}
    (empty : Empty newPageTable)
    (measured : getMemSize map = .ok mem)
    (returned :
      (kernelFromElf descriptors elf kernelStackStart kernelStackEnd mem).run
          (Machine.start newPageTable current allocator idIndex) =
        .ok process final) :
    (∀ count answers after,
      PageTableFrameAllocator.allocateFrames count
          (PageTableFrameAllocator.new map) = .ok (answers, after) →
        ∀ frame ∈ itemsOf answers,
          SeenThroughWindow process.addressSpace frame) ↔
      WindowReaches map := by
  have seen := seenThroughWindow_iff empty returned
  rw [getMemSize_eq_ok measured] at seen
  constructor
  · intro reaches front descriptor back listed earlier representable nonempty
      physical
    let index :=
      min descriptor.size (2 ^ 40 - descriptor.physicalAddress / 4096) - 1
    have bounds :
        index < descriptor.size ∧
          descriptor.physicalAddress / 4096 + index < 2 ^ 40 := by
      omega
    obtain ⟨count, answers, after, allocated, member⟩ :=
      canAllocate_iff.mpr
        ⟨front, descriptor, back, listed, earlier, representable, index,
          bounds.1, bounds.2, rfl⟩
    have before := (seen _).mp (reaches count answers after allocated _ member)
    have last :
        min (descriptor.physicalAddress / 4096 + descriptor.size) (2 ^ 40) ≤
          descriptor.physicalAddress / 4096 + index + 1 := by
      omega
    exact Nat.le_trans (Nat.mul_le_mul_right 4096 last) before
  · intro reaches count answers after allocated frame member
    obtain
      ⟨front, descriptor, back, listed, earlier, representable, index,
        inRange, physical, rfl⟩ :=
        canAllocate_iff.mp ⟨count, answers, after, allocated, member⟩
    rw [seen]
    have bound :=
      reaches front descriptor back listed earlier representable (by omega)
        (by omega)
    have notBehind :
        descriptor.physicalAddress / 4096 + index + 1 ≤
          min (descriptor.physicalAddress / 4096 + descriptor.size)
            (2 ^ 40) := by
      omega
    exact Nat.le_trans (Nat.mul_le_mul_right 4096 notBehind) bound

end Loader

/-- One usable page behind the loader's code. -/
def lowMap : MemoryMap :=
  [⟨.loaderCode, 0x100000, 0, 16⟩, ⟨.conventional, 0x200000, 0, 1⟩]

theorem window_reaches_iff_lowMap :
    ∃ process final,
      (kernelFromElf bootDescriptors residentElf 0x200000 0x200000
          (17 * 4096)).run bootMachine = .ok process final ∧
        SeenThroughWindow process.addressSpace ⟨0x200⟩ := by
  obtain ⟨process, final, returned⟩ :=
    kernelFromElf_returns_small (loadable_layOut residentTable)
      (by decide : 17 * 4096 < 2 ^ 30)
  refine ⟨process, final, returned, ?_⟩
  have measured : getMemSize lowMap = .ok (17 * 4096) := by decide
  have reaches : WindowReaches lowMap := by
    intro front descriptor back listed _ _ _ _
    have usable :
        usableDescriptors lowMap = [⟨.conventional, 0x200000, 0, 1⟩] := by
      decide
    have member : descriptor ∈ usableDescriptors lowMap := by
      rw [listed]
      simp
    rw [usable, List.mem_singleton] at member
    subst member
    decide
  have allocated :
      ∃ count answers after,
        PageTableFrameAllocator.allocateFrames count
            (PageTableFrameAllocator.new lowMap) = .ok (answers, after) ∧
          ⟨0x200⟩ ∈ itemsOf answers :=
    canAllocate_iff.mpr
      ⟨[], ⟨.conventional, 0x200000, 0, 1⟩, [], by decide, by simp,
        by decide, 0, by decide, by decide, rfl⟩
  obtain ⟨count, answers, after, allocated, member⟩ := allocated
  exact (window_reaches_iff (RadixTable.new_empty _) measured returned).mpr
    reaches count answers after allocated _ member

/-- One usable page at 4 GiB, behind a hole. -/
def holeMap : MemoryMap :=
  [⟨.conventional, 0x100000000, 0, 1⟩]

/-- The page at 4 GiB is allocated, but the window ends at 1 GiB. -/
theorem hole_hides_frame :
    ∃ process final count answers after,
      getMemSize holeMap = .ok 4096 ∧
        (kernelFromElf bootDescriptors residentElf 0x200000 0x200000
            4096).run bootMachine = .ok process final ∧
        PageTableFrameAllocator.allocateFrames count
            (PageTableFrameAllocator.new holeMap) = .ok (answers, after) ∧
        ⟨0x100000⟩ ∈ itemsOf answers ∧
        ¬ SeenThroughWindow process.addressSpace ⟨0x100000⟩ := by
  obtain ⟨process, final, returned⟩ :=
    kernelFromElf_returns_small (loadable_layOut residentTable)
      (by decide : 4096 < 2 ^ 30)
  have allocated :
      ∃ count answers after,
        PageTableFrameAllocator.allocateFrames count
            (PageTableFrameAllocator.new holeMap) = .ok (answers, after) ∧
          ⟨0x100000⟩ ∈ itemsOf answers :=
    canAllocate_iff.mpr
      ⟨[], ⟨.conventional, 0x100000000, 0, 1⟩, [], by decide, by simp,
        by decide, 0, by decide, by decide, rfl⟩
  obtain ⟨count, answers, after, allocated, member⟩ := allocated
  refine ⟨process, final, count, answers, after, by decide, returned,
    allocated, member, ?_⟩
  rw [seenThroughWindow_iff (RadixTable.new_empty _) returned]
  decide

end RustKernel.Loader
