import RustKernel.Loader.SpilledCopies

/-!
# The physical memory that the copies reach

A copy is written through the active address space.  It stays in its frame
when the address of the frame leads to the frame and the copy ends in the page
there.  The rest of a longer copy goes to whatever the next page maps.
-/

namespace RustKernel.Loader

open RustKernel.Foundations
open RustKernel.Machine
open RustKernel.Memory
open RustKernel.Paging

section Loaders

variable {T C : Type} [StoredMapper T] [StoredMapper C]

theorem clear_start {newPageTable : T} {current : C}
    {allocator : FrameAllocator} {idIndex : Nat}
    (fresh : Fresh (Machine.start newPageTable current allocator idIndex))
    (ready :
      ∀ index frame, allocator.drawn ≤ index →
        allocator.answers index = some frame → IdentityReady current frame) :
    Clear allocator
      (Machine.start newPageTable current allocator idIndex) where
  advances := FrameAllocator.Advances.refl allocator
  fresh := fresh
  ready := ready
  inside := by
    intro store member
    cases member

theorem ahead_start {newPageTable : T} {current : C}
    {allocator : FrameAllocator} {idIndex : Nat}
    (fresh : Fresh (Machine.start newPageTable current allocator idIndex))
    (ready :
      ∀ index frame, allocator.drawn ≤ index →
        allocator.answers index = some frame → IdentityReady current frame)
    (leads :
      ∀ index frame, allocator.drawn ≤ index →
        allocator.answers index = some frame → LeadsOn current frame) :
    Ahead allocator
      (Machine.start newPageTable current allocator idIndex) where
  toClear := clear_start fresh ready
  leads := leads

variable [LawfulMapper T] [LawfulMapper C]
variable [LawfulStoredMapper T] [LawfulStoredMapper C]

/-- If every segment fits, all copies of every run of either loader are inside
their frames, also when the run panics. -/
theorem copiesInside_of_fits
    (descriptors : List MemoryDescriptor) (elf kernel : ElfFile)
    (kernelStackStart kernelStackEnd mem : Nat)
    {newPageTable : T} {current : C} {allocator : FrameAllocator}
    {idIndex : Nat}
    (fresh : Fresh (Machine.start newPageTable current allocator idIndex))
    (ready :
      ∀ index frame, allocator.drawn ≤ index →
        allocator.answers index = some frame → IdentityReady current frame)
    (fits : ∀ header ∈ elf.loadHeaders, FitsFrame header) :
    let start := Machine.start newPageTable current allocator idIndex
    CopiesInside
        (finalState
          ((throughActive.kernelFromElf descriptors elf kernelStackStart
            kernelStackEnd mem).run start)).stores ∧
      CopiesInside
        (finalState
          ((throughActive.fromElf elf kernel kernelStackStart kernelStackEnd
            mem).run start)).stores := by
  have clear := clear_start fresh ready
  constructor
  · exact (refines_kernelFromElf descriptors kernelStackStart kernelStackEnd
      mem fits).final (fun _ _ kept => kept.inside)
      (fun _ inside => inside) clear
  · exact (refines_fromElf kernel kernelStackStart kernelStackEnd mem
      fits).final (fun _ _ kept => kept.inside) (fun _ inside => inside) clear

end Loaders

/-! ## A segment that begins at the last byte of a page -/

/-- The second GiB of the memory is mapped at its own addresses as well. -/
def withIdentityGiB (table : RadixTable) : RadixTable :=
  (mapTo (⟨1⟩ : Page .size1GiB) ⟨1⟩ presentWritable table
    ⟨fun index => some ⟨0x900 + index⟩, 0⟩).table

/-- The firmware has mapped the memory from which frames are given. -/
def firmwareMachine : Machine RadixTable RadixTable :=
  Machine.start (RadixTable.new ⟨0x800⟩)
    (withIdentityGiB (RadixTable.new ⟨0x801⟩))
    ⟨fun index => some ⟨0x50000 + index⟩, 0⟩ 0

/-- Two bytes of a segment that begins at the last byte of a page. -/
def straddlingHeader : ProgramHeader :=
  ⟨.load, 0, 0x400FFF, 2, 2⟩

def straddlingElf : ElfFile :=
  ElfFile.layOut 0x400FFF [straddlingHeader] []

def returns {T C α : Type}
    (run : EStateM.Result Panic (Machine T C) α) : Bool :=
  match run with
  | .ok _ _ => true
  | .error _ _ => false

theorem exists_of_returns {T C α : Type}
    {run : EStateM.Result Panic (Machine T C) α}
    (returned : returns run = true) :
    ∃ value final, run = .ok value final := by
  cases run with
  | ok value final => exact ⟨value, final, rfl⟩
  | error fault final => cases returned

/-- The pages at the addresses of all frames are free at boot. -/
theorem bootMachine_ready (index : Nat) (frame : PhysFrame .size4KiB)
    (_ : bootMachine.allocator.drawn ≤ index)
    (_ : bootMachine.allocator.answers index = some frame) :
    IdentityReady bootMachine.current frame :=
  Or.inl (unmapped_of_empty (RadixTable.new_empty _) _)

/-- The copy has reached another frame than the one drawn for it. -/
def Store.strays (store : Store Origin) : Bool :=
  match store.origin with
  | .pageTable => false
  | .segmentCopy _ _ frame =>
      store.bytes != [] && store.address / 4096 != frame.number

theorem not_copiesInside_of_strays {stores : List (Store Origin)}
    (strays : stores.any Store.strays = true) : ¬ CopiesInside stores := by
  intro inside
  obtain ⟨store, member, outside⟩ := List.any_eq_true.mp strays
  cases origin : store.origin with
  | pageTable =>
      rw [Store.strays, origin] at outside
      cases outside
  | segmentCopy header page frame =>
      rw [Store.strays, origin] at outside
      simp only [Bool.and_eq_true, bne_iff_ne, ne_eq] at outside
      have positive := List.length_pos_iff.mpr outside.1
      have held :=
        inside store member header page frame origin store.address
          ⟨Nat.le_refl _, by omega⟩
      simp only [PhysFrame.Holds, PhysFrame.startAddress, PageSize.bytes]
        at held
      omega

end RustKernel.Loader
