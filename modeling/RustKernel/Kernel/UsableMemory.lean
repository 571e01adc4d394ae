import RustKernel.Kernel.ActiveTable
import RustKernel.Memory.Supply

/-!
# The memory that the processes use

The kernel's allocator is the loader's, after `swap_map` has given it the
memory map of the firmware.  Every frame that user code of a process reaches
was drawn from it, and lies in a usable region of that map.
-/

namespace RustKernel.Kernel

open RustKernel.Foundations
open RustKernel.Machine
open RustKernel.Memory
open RustKernel.Paging
open RustKernel.Loader

section Drawn

variable {T C : Type} [StoredMapper T] [StoredMapper C]
variable [LawfulMapper T] [LawfulMapper C]
variable [LawfulStoredMapper T] [LawfulStoredMapper C]
variable {kernel : ElfFile} {kept : Set (PhysFrame .size4KiB)}
variable {initial spaces next final : AddressSpaces T C}

/-- User code reaches frames that were drawn since the first state. -/
structure AddressSpaces.DrawnSince (initial spaces : AddressSpaces T C) :
    Prop where
  advances : initial.allocator.Advances spaces.allocator
  user :
    ∀ managed ∈ spaces.processes, ∀ (page : Page .size4KiB)
        (frame : PhysFrame .size4KiB),
      UserMapped managed.process.addressSpace page frame →
        initial.allocator.Answered spaces.allocator (some frame)

theorem AddressSpaces.DrawnSince.step
    (separate : spaces.Separate kernel kept)
    (drawn : initial.DrawnSince spaces)
    (step : SpaceStep kernel kept spaces next) :
    initial.DrawnSince next := by
  cases step with
  | draw =>
      have advances : spaces.allocator.Advances spaces.drew.allocator :=
        ⟨rfl, Nat.le_succ _⟩
      exact ⟨drawn.advances.trans advances,
        fun managed member page frame user =>
          (drawn.user managed member page frame user).earlier advances⟩
  | mapActive page target flags present =>
      have effect :=
        LawfulMapper.mapTo_effect spaces.current spaces.allocator page target
          flags present
      exact ⟨drawn.advances.trans effect.advances,
        fun managed member page frame user =>
          (drawn.user managed member page frame user).earlier
            effect.advances⟩
  | create elf _ _ _ newPageTable managed machine land empty boxed returned =>
      have constructed := separate.constructed land empty boxed returned
      have leaves := userLeaves_fromElf empty constructed
      obtain ⟨_, _, _, _, _, made⟩ := fromElf_run_ok constructed
      refine ⟨drawn.advances.trans leaves.advances, ?_⟩
      intro other member page frame user
      rcases List.mem_append.mp member with old | new
      · exact (drawn.user other old page frame user).earlier leaves.advances
      · rw [List.mem_singleton] at new
        subst new
        obtain ⟨flags, leaf, accessible⟩ := user
        rw [made] at leaf
        have reached := leaves.holds .size4KiB page frame flags leaf accessible
        exact FrameAllocator.Answered.later drawn.advances reached.2

theorem AddressSpaces.DrawnSince.run
    (separate : initial.Separate kernel kept) (none : initial.processes = [])
    (run :
      Relation.ReflTransGen (SpaceStep kernel kept) initial final) :
    initial.DrawnSince final := by
  induction run with
  | refl =>
      refine ⟨FrameAllocator.Advances.refl _, ?_⟩
      intro managed member
      rw [none] at member
      cases member
  | tail earlier step inductionHypothesis =>
      exact DrawnSince.step (separate.run earlier) inductionHypothesis step

end Drawn

/-! ## The allocator behind `swap_map` -/

section Usable

variable {T C : Type} [StoredMapper T] [StoredMapper C]
variable [LawfulMapper T] [LawfulMapper C]
variable [LawfulStoredMapper T] [LawfulStoredMapper C]
variable {kernel : ElfFile}

end Usable

/-! ## A map of two regions -/

/-- The frame that `swap_map` draws is in the first region, and the walk goes
on behind it. -/
def guestMap : MemoryMap :=
  [⟨.conventional, 0x1000, 0, 1⟩, ⟨.conventional, 0x8000000, 0, 2048⟩]

def swappedAllocator : PageTableFrameAllocator :=
  ⟨guestMap, ⟨none, guestMap.tail⟩⟩

/-- The kernel of one page at the start of the second region. -/
def suppliedSpaces : AddressSpaces RadixTable RadixTable :=
  ⟨residentSpace, supply (usableFrames guestMap.tail), 0, [], []⟩

theorem swapMap_guestMap :
    (PageTableFrameAllocator.new guestMap).swapMap guestMap =
      .ok swappedAllocator := by
  decide

theorem usableFrames_guestMap :
    usableFrames guestMap.tail =
      (List.range' 0x8000 2048).map PhysFrame.mk := by
  have usable :
      usableDescriptors guestMap.tail =
        [⟨.conventional, 0x8000000, 0, 2048⟩] := rfl
  rw [usableFrames, usable, List.flatMap_singleton]
  rfl

theorem represents_suppliedSpaces :
    Represents swappedAllocator suppliedSpaces.allocator := by
  apply represents_of_pending
  rw [swappedAllocator, pending_of_front_none]
  apply pendingFrames_of_physical
  decide

theorem answers_suppliedSpaces {index : Nat} (small : index < 2048) :
    suppliedSpaces.allocator.answers index = some ⟨0x8000 + index⟩ := by
  change (usableFrames guestMap.tail)[index]? = _
  rw [usableFrames_guestMap, List.getElem?_map,
    List.getElem?_range' small]
  simp

theorem le_of_answers_suppliedSpaces {index : Nat}
    {frame : PhysFrame .size4KiB}
    (answer : suppliedSpaces.allocator.answers index = some frame) :
    0x8000 ≤ frame.number := by
  have listed := List.mem_of_getElem? answer
  rw [usableFrames_guestMap] at listed
  obtain ⟨number, inRange, rfl⟩ := List.mem_map.mp listed
  exact (List.mem_range'_1.mp inRange).1

theorem suppliedSpaces_booted : suppliedSpaces.Booted residentElf where
  noProcess := rfl
  loaded := guestSpaces_booted.loaded
  tablesSpent := by
    intro frame stored index _ given
    have low := (tableFrames_residentSpace stored).1
    have high := le_of_answers_suppliedSpaces given
    omega
  residentSpent := by
    intro frame resident
    rw [suppliedSpaces, residentFrames_residentSpace,
      Set.mem_singleton_iff] at resident
    subst resident
    constructor
    · intro index _ given
      exact absurd (le_of_answers_suppliedSpaces given) (by decide)
    · intro stored
      exact (tableFrames_residentSpace stored).2 rfl

end RustKernel.Kernel
