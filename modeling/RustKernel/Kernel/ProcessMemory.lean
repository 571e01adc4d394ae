import RustKernel.Kernel.AddressSpaces
import RustKernel.Loader.SettledSegments

/-!
# The memory of the processes

The kernel writes to physical memory when it maps a page and when it copies
the segments of a program.  No such write goes to a frame that belongs to a
process already, if every copy lands in its frame, and so a program is in
memory as its file has it for as long as the kernel runs.
-/

namespace RustKernel.Kernel

open RustKernel.Foundations
open RustKernel.Machine
open RustKernel.Memory
open RustKernel.Paging
open RustKernel.Loader

/-! ## Frames with an owner -/

section Bytes

variable {T C : Type} [StoredMapper T] [StoredMapper C]
variable {kernel elf : ElfFile} {kept : Set (PhysFrame .size4KiB)}
variable {initial spaces next final : AddressSpaces T C}
variable {owner : FrameOwner} {frame : PhysFrame .size4KiB}

omit [StoredMapper T] [StoredMapper C] in
theorem AddressSpaces.contents_created (managed : ManagedProcess T)
    (machine : Machine T C) (memory : Nat → UInt8) :
    (spaces.created managed machine).contents memory =
      machine.contents (spaces.contents memory) :=
  Store.applyAll_append memory spaces.stores machine.stores

/-- What an owner other than the active table holds, it holds for good. -/
theorem SpaceStep.holds (step : SpaceStep kernel kept spaces next)
    (notActive : owner ≠ .active)
    (held : frame ∈ frameHoldings kept spaces.current spaces.tables owner) :
    frame ∈ frameHoldings kept next.current next.tables owner := by
  have sameTables {current : C}
      (held : frame ∈ frameHoldings kept spaces.current spaces.tables owner) :
      frame ∈ frameHoldings kept current spaces.tables owner := by
    rcases mem_frameHoldings_current current held with old | ⟨isActive, _⟩
    · exact old
    · exact absurd isActive notActive
  cases step with
  | draw => exact held
  | mapActive page target flags present => exact sameTables held
  | create _ _ _ _ _ managed machine _ _ _ _ =>
      rw [AddressSpaces.tables_created]
      exact mem_frameHoldings_concat.mpr (Or.inl (sameTables held))

variable [LawfulMapper T] [LawfulMapper C]
variable [LawfulStoredMapper T] [LawfulStoredMapper C]

/-- A step writes nothing to a frame with an owner other than the active
table. -/
theorem SpaceStep.keeps_bytes (separate : spaces.Separate kernel kept)
    (step : SpaceStep kernel kept spaces next)
    (notActive : owner ≠ .active)
    (held : frame ∈ frameHoldings kept spaces.current spaces.tables owner)
    (memory : Nat → UInt8) {address : Nat} (inside : frame.Holds address) :
    next.contents memory address = spaces.contents memory address := by
  have spent := separate.owned.spent owner frame held
  have notCurrent : frame ∉ tableFrames spaces.current := by
    intro stored
    exact notActive (separate.owned.unique owner .active frame held stored)
  cases step with
  | draw => rfl
  | mapActive page target flags present =>
      have effect :=
        LawfulMapper.mapTo_effect spaces.current spaces.allocator page target
          flags present
      have missed :=
        MapToEffect.stores_miss effect notCurrent
          (fun answered => GivenIn.not_spent answered spent) inside
      unfold AddressSpaces.contents AddressSpaces.mappedActive
      rw [Store.applyAll_append]
      exact applyAll_tableStore_of_outside missed
  | create elf _ _ _ newPageTable managed machine land empty boxed returned =>
      have confined :=
        confined_fromElf land.fits
          (separate.constructed land empty boxed returned)
      rw [AddressSpaces.contents_created]
      apply confined.kept frame (Set.notMem_empty frame) _ notCurrent
        (fun answered => GivenIn.not_spent answered spent) _ _ inside
      intro stored
      exact (boxed frame stored).unheld owner held

theorem AddressSpaces.Separate.keeps_bytes
    (separate : spaces.Separate kernel kept)
    (later : Relation.ReflTransGen (SpaceStep kernel kept) spaces next)
    (notActive : owner ≠ .active)
    (held : frame ∈ frameHoldings kept spaces.current spaces.tables owner)
    (memory : Nat → UInt8) {address : Nat} (inside : frame.Holds address) :
    next.contents memory address = spaces.contents memory address := by
  have both :
      frame ∈ frameHoldings kept next.current next.tables owner ∧
        next.contents memory address = spaces.contents memory address := by
    induction later with
    | refl => exact ⟨held, rfl⟩
    | tail earlier step inductionHypothesis =>
        obtain ⟨heldHere, same⟩ := inductionHypothesis
        have bytes :=
          step.keeps_bytes (separate.run earlier) notActive heldHere memory
            inside
        exact ⟨step.holds notActive heldHere, bytes.trans same⟩
  exact both.2

/-- The active table goes on to translate what it has translated. -/
theorem SpaceStep.translates (separate : spaces.Separate kernel kept)
    (step : SpaceStep kernel kept spaces next)
    {page : Page .size4KiB}
    (translated : translatePage spaces.current page = some frame) :
    translatePage next.current page = some frame := by
  cases step with
  | draw => exact translated
  | mapActive _ target flags present =>
      exact translatePage_mapTo present translated
  | create _ _ _ _ newPageTable managed machine land empty boxed returned =>
      have constructed := separate.constructed land empty boxed returned
      have translations :
          KeepsTranslations
            (Machine.start newPageTable spaces.current spaces.allocator
              spaces.idIndex) machine :=
        keepsTranslations_fromElf.of_run_ok constructed
      exact translations page frame translated

theorem AddressSpaces.Separate.translates {page : Page .size4KiB}
    (separate : spaces.Separate kernel kept)
    (run : Relation.ReflTransGen (SpaceStep kernel kept) spaces next)
    (translated : translatePage spaces.current page = some frame) :
    translatePage next.current page = some frame := by
  induction run with
  | refl => exact translated
  | tail earlier step inductionHypothesis =>
      exact step.translates (separate.run earlier) inductionHypothesis

/-- A program whose segments begin on pages of their own, apart from what
every process has. -/
abbrev LoadsApart (kernel elf : ElfFile)
    (kernelStackStart kernelStackEnd memSize : Nat) : Prop :=
  SegmentsApart elf
    (userReserved kernelStackStart kernelStackEnd memSize ++
      (kernelPages kernel).map smallPage)

omit [LawfulStoredMapper T] [LawfulStoredMapper C] in
/-- A page of a segment is mapped for user code to a frame with the image of
its turn. -/
theorem LoadsApart.loaded {kernelStackStart kernelStackEnd memSize : Nat}
    {start machine : Machine T C} {process : Process T}
    {header : ProgramHeader}
    (apart : LoadsApart kernel elf kernelStackStart kernelStackEnd memSize)
    (empty : Empty start.table) (fresh : Fresh start)
    (returned :
      (fromElf elf kernel kernelStackStart kernelStackEnd memSize).run start =
        .ok process machine)
    (neverOut : ¬ start.allocator.Answered machine.allocator none)
    (member : header ∈ elf.loadHeaders) :
    SegmentLoaded elf header process.addressSpace start machine ∧
      ∀ page ∈ header.pages, ∀ frame flags,
        entry process.addressSpace .size4KiB page = .leaf frame flags →
          flags.userAccessible = true := by
  obtain ⟨front, back, listed⟩ := List.append_of_mem member
  constructor
  · exact fromElf_segmentLoaded empty fresh apart.fits returned neverOut
      listed (apart.sizes header member).1 (apart.alone listed)
      (apart.reserved header member)
  · intro page inRange frame flags leaf
    have outside := fromElf_user_outside empty returned
    obtain ⟨_, _, _, _, _, made⟩ := fromElf_run_ok returned
    rw [made] at leaf
    rcases outside.holds .size4KiB page frame flags leaf with
      taken | accessible
    · have self := apart.reserved header member page inRange _ taken
      exact absurd rfl (apart_iff_ne.mp self)
    · exact accessible

omit [LawfulStoredMapper T] [LawfulStoredMapper C] in
/-- A byte of the file is in a frame that user code reaches. -/
theorem LoadsApart.byte {kernelStackStart kernelStackEnd memSize index : Nat}
    {start machine : Machine T C} {process : Process T}
    {header : ProgramHeader}
    (apart : LoadsApart kernel elf kernelStackStart kernelStackEnd memSize)
    (empty : Empty start.table) (fresh : Fresh start)
    (returned :
      (fromElf elf kernel kernelStackStart kernelStackEnd memSize).run start =
        .ok process machine)
    (neverOut : ¬ start.allocator.Answered machine.allocator none)
    (member : header ∈ elf.loadHeaders)
    (inFile : index < header.segmentFileSize)
    (canonical : IsCanonical (header.virtualAddress + index)) :
    ∃ (page : Page .size4KiB) (frame : PhysFrame .size4KiB),
      UserMapped process.addressSpace page frame ∧
        (header.virtualAddress + index) % 2 ^ 48 / 4096 = page.number ∧
        ∀ memory,
          elf.data[header.offset + index]? =
            some (machine.contents memory
              (frame.startAddress +
                (header.virtualAddress + index) % 2 ^ 48 % 4096)) := by
  obtain ⟨loaded, user⟩ := apart.loaded empty fresh returned neverOut member
  obtain ⟨_, _, _, _, looped, _⟩ := fromElf_run_ok returned
  have ranges := (loadable_of_run_ok looped).ranges header member
  obtain ⟨page, inRange, frame, flags, leaf, inPage, bytes⟩ :=
    loaded.file_byte apart ranges member inFile canonical
  exact ⟨page, frame, ⟨flags, leaf, user page inRange frame flags leaf⟩,
    inPage, bytes⟩

/-- What the table shows at the addresses of the segments are the bytes of the
file, whatever the memory was before. -/
def ShowsFile {S : Type} [Mapper S] (elf : ElfFile) (table : S)
    (contents : (Nat → UInt8) → Nat → UInt8) : Prop :=
  ∀ header ∈ elf.loadHeaders, ∀ index < header.segmentFileSize,
    IsCanonical (header.virtualAddress + index) →
      ∃ physical,
        translateAddr table ((header.virtualAddress + index) % 2 ^ 48) =
          some physical ∧
        ∀ memory,
          elf.data[header.offset + index]? = some (contents memory physical)

theorem AddressSpaces.Separate.program_stays
    (separate : spaces.Separate kernel kept)
    {kernelStackStart kernelStackEnd memSize : Nat} {newPageTable : T}
    {managed : ManagedProcess T} {machine : Machine T C}
    (apart : LoadsApart kernel elf kernelStackStart kernelStackEnd memSize)
    (land : spaces.CopiesLand elf)
    (empty : Empty newPageTable) (boxed : spaces.Boxed kept newPageTable)
    (returned :
      (newKernelProcess elf kernel kernelStackStart kernelStackEnd memSize).run
          (Machine.start newPageTable spaces.current spaces.allocator
            spaces.idIndex) = .ok managed machine)
    (neverOut : ¬ spaces.allocator.Answered machine.allocator none)
    (later :
      Relation.ReflTransGen (SpaceStep kernel kept)
        (spaces.created managed machine) final) :
    ShowsFile elf managed.process.addressSpace final.contents := by
  intro header member index inFile canonical
  have constructed := separate.constructed land empty boxed returned
  obtain ⟨page, frame, user, inPage, bytes⟩ :=
    apart.byte empty (separate.begun empty boxed).fresh constructed neverOut
      member inFile canonical
  have ⟨flags, leaf, _⟩ := user
  refine ⟨_, translateAddr_of_leaf leaf inPage, ?_⟩
  intro memory
  have held :
      frame ∈ frameHoldings kept (spaces.created managed machine).current
        (spaces.created managed machine).tables
        (.page spaces.tables.length page) := by
    rw [AddressSpaces.tables_created]
    exact mem_frameHoldings_concat.mpr (Or.inr (Or.inr ⟨page, rfl, user⟩))
  have inside :
      frame.Holds
        (frame.startAddress +
          (header.virtualAddress + index) % 2 ^ 48 % 4096) := by
    simp only [PhysFrame.Holds, PageSize.bytes]
    omega
  have stays :=
    (separate.created empty boxed constructed).keeps_bytes later
      (by simp) held memory inside
  rw [stays, AddressSpaces.contents_created]
  exact bytes (spaces.contents memory)

end Bytes

/-! ## Two processes of one program -/

theorem guestElf_loadsApart :
    LoadsApart residentElf guestElf 0x200000 0x200000 0 := by
  have headers : guestElf.loadHeaders = [guestHeader] :=
    ElfFile.loadHeaders_layOut guestTable
  constructor
  case short => decide
  case sizes => rw [headers]; decide
  case aligned => rw [headers]; decide
  case within => rw [headers]; decide
  case disjoint => rw [headers]; exact List.pairwise_singleton _ _
  case reserved =>
    rw [headers, kernelPages_residentElf]
    decide +kernel

end RustKernel.Kernel
