import RustKernel.Loader.CopyTargets

/-!
# The loaded image of `kernel_from_elf`

For page-aligned segments with their own pages, the byte that the new address
space maps at an address of a segment is the byte of the file.  The carried
file size stops shrinking on the last chunk while the page loop goes on; up to
there the chunk of a page begins at the offset that the page has in the
segment.
-/

namespace RustKernel.Loader

open RustKernel.Foundations
open RustKernel.Machine
open RustKernel.Memory
open RustKernel.Paging

/-! ## Addresses of a segment -/

/-- The page of a byte of the segment, for a byte that has an address. -/
theorem page_of_byte {header : ProgramHeader} {index : Nat}
    (ranges : header.segmentPages = .ok header.pages)
    (aligned : header.virtualAddress % 4096 = 0)
    (inSegment : index ≤ header.segmentMemSize) (short : index < 2 ^ 63)
    (canonical : IsCanonical (header.virtualAddress + index)) :
    (header.virtualAddress + index) % 2 ^ 48 / 4096 =
        header.firstPage.number + index / 4096 ∧
      (header.virtualAddress + index) % 2 ^ 48 % 4096 = index % 4096 ∧
      (⟨(header.virtualAddress + index) % 2 ^ 48 / 4096⟩ :
        Page .size4KiB) ∈ header.pages := by
  have bounds := ProgramHeader.segmentPages_bounds ranges
  unfold IsCanonical at canonical
  rw [ProgramHeader.mem_pages]
  unfold ProgramHeader.firstPage ProgramHeader.lastPage
  simp only
  omega

/-- A byte of the file is copied by the turn of its page. -/
theorem chunk_at_byte (elf : ElfFile) {header : ProgramHeader}
    {page : Page .size4KiB} {index : Nat}
    (inFile : index < header.segmentFileSize)
    (numbered : page.number = header.firstPage.number + index / 4096) :
    ((Turn.mk header page).chunk elf)[index % 4096]? =
      elf.data[header.offset + index]? := by
  have turnIndex : (Turn.mk header page).index = index / 4096 := by
    simp only [Turn.index]
    omega
  have start : (Turn.mk header page).start = 4096 * (index / 4096) := by
    simp only [Turn.start, chunkStart, turnIndex]
    omega
  have inChunk : index % 4096 < (Turn.mk header page).length := by
    simp only [Turn.length, Turn.fileSize, start]
    omega
  unfold Turn.chunk
  rw [bytesAt_getElem? inChunk]
  simp only [start]
  congr 1
  omega

theorem canonical_of_translatePointer {T : Type} [Mapper T] {table : T}
    {pointer physical : Nat}
    (translated : translatePointer table pointer = some physical) :
    IsCanonical pointer := by
  by_contra extended
  rw [translatePointer, if_neg extended] at translated
  cases translated

/-! ## Slices of the copy loop -/

section Slices

variable {T C : Type} [StoredMapper T] [StoredMapper C]

theorem avoids_writePart (origin : Origin) (pointer : Nat)
    (bytes : List UInt8) :
    Avoids Panic.sliceIndex
      (writePart origin pointer bytes :
        EStateM Panic (Machine T C) Unit) := by
  by_cases empty : bytes = []
  · rw [writePart, if_pos empty]
    exact Avoids.pure ()
  · intro state final
    rw [writePart_run origin pointer empty]
    cases translatePointer state.current pointer <;> simp

/-- The slice of a turn ends in the data. -/
theorem avoids_copyPage {header : ProgramHeader} {data : List UInt8}
    {fileSize : Nat} (length : data.length = header.segmentFileSize)
    (bounded : fileSize ≤ header.segmentFileSize) (page : Page .size4KiB) :
    Avoids Panic.sliceIndex
      (throughActive.copyPage header data ignoreAnswer fileSize page :
        EStateM Panic (Machine T C) Nat) := by
  have drawn :
      Avoids Panic.sliceIndex
        (allocateFrame "Unable to allocate physical frame for elf process!" :
          EStateM Panic (Machine T C) (PhysFrame .size4KiB)) := by
    intro state final
    unfold allocateFrame
    rw [bind_run, modifyGet_run]
    cases state.allocator.allocateFrame.1 with
    | none => intro stopped; cases stopped
    | some frame => intro stopped; cases stopped
  apply Avoids.bind drawn
  intro _ frame _ _
  have identity :
      Avoids Panic.sliceIndex
        (identityMapThrough frame : EStateM Panic (Machine T C) Unit) := by
    intro state final
    unfold identityMapThrough
    split <;> intro stopped <;> cases stopped
  apply Avoids.bind identity
  intro _ _ _ _
  apply Avoids.ofExcept_bind
  · unfold slice
    rw [if_pos (by omega)]
    simp
  intro bytes _
  have copy :
      Avoids Panic.sliceIndex
        (copyThrough header page frame bytes :
          EStateM Panic (Machine T C) Unit) :=
    Avoids.bind (avoids_writePart _ _ _) fun _ _ _ _ =>
      avoids_writePart _ _ _
  apply Avoids.bind copy
  intro _ _ _ _ state final stopped
  cases stopped

/-- No slice of the loop over the pages of a segment is out of range. -/
theorem avoids_loadSegment {elf : ElfFile} {header : ProgramHeader}
    (short : elf.data.length < 2 ^ 64)
    (positive : 0 < header.segmentFileSize)
    (within : header.offset + header.segmentFileSize ≤ elf.data.length) :
    Avoids Panic.sliceIndex
      (throughActive.loadSegment elf ignoreAnswer header :
        EStateM Panic (Machine T C) Unit) := by
  apply Avoids.ofExcept_bind header.segmentPages_ne_sliceIndex
  intro pages _
  rw [ElfFile.segment_of_within positive within short]
  apply Avoids.ofExcept_bind (by simp)
  rintro data found
  cases found
  have length :
      (bytesAt elf.data header.offset header.segmentFileSize).length =
        header.segmentFileSize :=
    bytesAt_length within
  refine Avoids.bind ?_ fun _ _ _ _ => Avoids.pure ()
  apply Avoids.foldlM (· ≤ header.segmentFileSize) (Nat.le_refl _)
  · exact fun fileSize bounded page _ => avoids_copyPage length bounded page
  · intro fileSize page state next final bounded turned
    rw [FrameWriter.copyPage_returns_nextFileSize turned]
    unfold nextFileSize
    split <;> omega

end Slices

/-! ## Loaded segments -/

section Loaded

variable {T C : Type} [Mapper T] [LawfulMapper T]

/-- A byte of a loaded segment is in the frame of its page. -/
theorem SegmentLoaded.byte
    {elf : ElfFile} {header : ProgramHeader} {table : T}
    {start final : Machine T C} {index : Nat}
    (loaded : SegmentLoaded elf header table start final)
    (ranges : header.segmentPages = .ok header.pages)
    (aligned : header.virtualAddress % 4096 = 0)
    (inSegment : index ≤ header.segmentMemSize) (short : index < 2 ^ 63)
    (canonical : IsCanonical (header.virtualAddress + index)) :
    ∃ (page : Page .size4KiB) (frame : PhysFrame .size4KiB),
      page.number = header.firstPage.number + index / 4096 ∧
      translateAddr table ((header.virtualAddress + index) % 2 ^ 48) =
        some (frame.startAddress + index % 4096) ∧
      FrameImage elf ⟨header, page⟩ frame start final := by
  obtain ⟨numbered, position, inRange⟩ :=
    page_of_byte ranges aligned inSegment short canonical
  obtain ⟨frame, flags, leaf, image⟩ := loaded _ inRange
  refine ⟨_, frame, numbered, ?_, image⟩
  rw [translateAddr_of_leaf leaf rfl, position]

omit [Mapper T] [LawfulMapper T] in
/-- In a segment that starts on a page, the chunk of a turn lies at the start
of its frame. -/
theorem FrameImage.getElem?_eq {elf : ElfFile} {header : ProgramHeader}
    {page : Page .size4KiB} {frame : PhysFrame .size4KiB} {index position : Nat}
    {start final : Machine T C}
    (image : FrameImage elf ⟨header, page⟩ frame start final)
    (aligned : header.virtualAddress % 4096 = 0)
    (found :
      ((Turn.mk header page).chunk elf)[index]? = elf.data[position]?)
    (inData : position < elf.data.length) (memory : Nat → UInt8) :
    elf.data[position]? =
      some (final.contents memory (frame.startAddress + index)) := by
  rw [List.getElem?_eq_getElem inData] at found ⊢
  have copied := image.copied memory _ _ found
  simp only [aligned, Nat.add_zero] at copied
  rw [copied]

end Loaded

/-! ## Segments of the loaders -/

section Loaders

variable {T C : Type} [Mapper T] [Mapper C] [LawfulMapper T] [LawfulMapper C]
variable {elf kernel : ElfFile} {descriptors : List MemoryDescriptor}
variable {kernelStackStart kernelStackEnd mem : Nat}
variable {start final : Machine T C} {process : Process T}
variable {front back : List ProgramHeader} {header : ProgramHeader}

theorem fitsFrame_of_aligned (aligned : header.virtualAddress % 4096 = 0) :
    FitsFrame header := by
  right
  omega

/-- A segment whose pages nothing else maps is loaded. -/
theorem kernelFromElf_segmentLoaded
    (empty : Empty start.table) (fresh : Fresh start)
    (fits : ∀ header ∈ elf.loadHeaders, FitsFrame header)
    (returned :
      (kernelFromElf descriptors elf kernelStackStart kernelStackEnd mem).run
        start = .ok process final)
    (neverOut : ¬ start.allocator.Answered final.allocator none)
    (listed : elf.loadHeaders = front ++ header :: back)
    (positive : 0 < header.segmentFileSize)
    (alone :
      ∀ other ∈ front, List.Disjoint other.pages header.pages)
    (reserved :
      ∀ page ∈ header.pages,
        ∀ mapped ∈
            kernelReserved descriptors kernelStackStart kernelStackEnd mem,
          Apart mapped.2 page) :
    SegmentLoaded elf header process.addressSpace start final := by
  obtain ⟨ready, setup, looped, made⟩ := kernelFromElf_run_ok returned
  have confined : ConfinedTo ∅ start ready :=
    (preserves_kernelSetup _ _ _ _).of_run_ok setup
  have leaves := onPages_kernelSetup empty setup
  rw [made]
  apply segment_image fresh confined fits looped _ listed positive
    (fun other ofFront _ => alone other ofFront)
  · intro page inRange
    exact unmapped_of_onPages leaves (reserved page inRange)
  · intro out
    exact neverOut (out.later confined.advances)

theorem fromElf_segmentLoaded
    (empty : Empty start.table) (fresh : Fresh start)
    (fits : ∀ header ∈ elf.loadHeaders, FitsFrame header)
    (returned :
      (fromElf elf kernel kernelStackStart kernelStackEnd mem).run start =
        .ok process final)
    (neverOut : ¬ start.allocator.Answered final.allocator none)
    (listed : elf.loadHeaders = front ++ header :: back)
    (positive : 0 < header.segmentFileSize)
    (alone :
      ∀ other ∈ front, List.Disjoint other.pages header.pages)
    (reserved :
      ∀ page ∈ header.pages,
        ∀ mapped ∈
            userReserved kernelStackStart kernelStackEnd mem ++
              (kernelPages kernel).map smallPage,
          Apart mapped.2 page) :
    SegmentLoaded elf header process.addressSpace start final := by
  obtain ⟨ready, loaded, setup, mapped, looped, made⟩ := fromElf_run_ok returned
  have toReady : ConfinedTo ∅ start ready :=
    (preserves_userSetup _ _ _).of_run_ok setup
  have toLoaded : ConfinedTo ∅ ready loaded :=
    (preserves_mapKernel kernel).of_run_ok mapped
  have confined : ConfinedTo ∅ start loaded :=
    RunRelation.trans toReady toLoaded
  have leaves := onPages_mapKernel (onPages_userSetup empty setup) mapped
  rw [made]
  apply segment_image fresh confined fits looped _ listed positive
    (fun other ofFront _ => alone other ofFront)
  · intro page inRange
    exact unmapped_of_onPages leaves (reserved page inRange)
  · intro out
    exact neverOut (out.later confined.advances)

end Loaders

section Image

variable {T C : Type} [StoredMapper T] [StoredMapper C]
variable [LawfulMapper T] [LawfulMapper C]
variable [LawfulStoredMapper T] [LawfulStoredMapper C]
variable {elf : ElfFile} {descriptors : List MemoryDescriptor}
variable {kernelStackStart kernelStackEnd mem : Nat}

/-- After `kernel_from_elf`, the pointers into a segment lead to its bytes
exactly when they are addresses: `VirtAddr::new` moves the pages of a segment
from the addresses that it extends to the upper half. -/
theorem kernelFromElf_image_iff
    {newPageTable : T} {current : C} {allocator : FrameAllocator}
    {idIndex : Nat}
    (empty : Empty newPageTable) (short : elf.data.length < 2 ^ 63)
    (sizes :
      ∀ header ∈ elf.loadHeaders,
        0 < header.segmentFileSize ∧
          header.segmentFileSize ≤ header.segmentMemSize)
    (aligned :
      ∀ header ∈ elf.loadHeaders, header.virtualAddress % 4096 = 0)
    (within :
      ∀ header ∈ elf.loadHeaders,
        header.offset + header.segmentFileSize ≤ elf.data.length)
    (disjoint :
      elf.loadHeaders.Pairwise fun left right =>
        List.Disjoint left.pages right.pages)
    (reserved :
      ∀ header ∈ elf.loadHeaders, ∀ page ∈ header.pages,
        ∀ mapped ∈
            kernelReserved descriptors kernelStackStart kernelStackEnd mem,
          Apart mapped.2 page)
    (fresh : Fresh (Machine.start newPageTable current allocator idIndex))
    (reachable :
      ∀ index frame, allocator.drawn ≤ index →
        allocator.answers index = some frame → IdentityReady current frame) :
    (∀ header ∈ elf.loadHeaders,
      Avoids Panic.sliceIndex
        (throughActive.loadSegment elf ignoreAnswer header :
          EStateM Panic (Machine T C) Unit)) ∧
    ∀ process final,
      (throughActive.kernelFromElf descriptors elf kernelStackStart
          kernelStackEnd mem).run
          (Machine.start newPageTable current allocator idIndex) =
        .ok process final →
      ¬ allocator.Answered final.allocator none →
      ((∀ header ∈ elf.loadHeaders, ∀ index < header.segmentFileSize,
        ∃ physical,
          translatePointer process.addressSpace
              (header.virtualAddress + index) = some physical ∧
          ∀ memory,
            elf.data[header.offset + index]? =
              some (final.contents memory physical)) ↔
        ∀ header ∈ elf.loadHeaders, ∀ index < header.segmentFileSize,
          IsCanonical (header.virtualAddress + index)) := by
  constructor
  · intro header member
    exact avoids_loadSegment (Nat.lt_trans short (by decide))
      (sizes header member).1 (within header member)
  intro process final copied neverOut
  constructor
  · intro loaded header member index inFile
    obtain ⟨physical, translated, _⟩ := loaded header member index inFile
    exact canonical_of_translatePointer translated
  intro addressable header member index inFile
  have canonical := addressable header member index inFile
  rw [translatePointer, if_pos canonical]
  have fits : ∀ header ∈ elf.loadHeaders, FitsFrame header :=
    fun header member => fitsFrame_of_aligned (aligned header member)
  have returned :
      (kernelFromElf descriptors elf kernelStackStart kernelStackEnd mem).run
          (Machine.start newPageTable current allocator idIndex) =
        .ok process final :=
    ((refines_kernelFromElf descriptors kernelStackStart kernelStackEnd mem
      fits).of_run_ok (clear_start fresh reachable) copied).1
  obtain ⟨ready, _, looped, _⟩ := kernelFromElf_run_ok returned
  have ranges := (loadable_of_run_ok looped).ranges header member
  have inData := within header member
  have smaller := (sizes header member).2
  obtain ⟨front, back, listed⟩ := List.append_of_mem member
  have alone :
      ∀ other ∈ front, List.Disjoint other.pages header.pages := by
    intro other ofFront
    rw [listed, List.pairwise_append] at disjoint
    exact disjoint.2.2 other ofFront header (by simp)
  have loaded :=
    kernelFromElf_segmentLoaded empty fresh fits returned neverOut listed
      (sizes header member).1 alone (reserved header member)
  obtain ⟨page, frame, numbered, translated, image⟩ :=
    loaded.byte ranges (aligned header member)
      (by omega : index ≤ header.segmentMemSize) (by omega) canonical
  refine ⟨_, translated, ?_⟩
  intro memory
  exact image.getElem?_eq (aligned header member)
    (chunk_at_byte elf inFile numbered) (by omega) memory

end Image

/-! ## A file of two pages -/

def twoPageHeader : ProgramHeader :=
  ⟨.load, 0, 0x400000, 4216, 4500⟩

/-- The segment is the whole file, and ends in its second page. -/
def twoPageElf : ElfFile :=
  ElfFile.layOut 0x400000 [twoPageHeader] (List.replicate 4096 7)

theorem twoPageTable :
    LoadTable 0x400000 [twoPageHeader] (List.replicate 4096 7) := by
  decide +kernel

theorem twoPageElf_length : twoPageElf.data.length = 4216 := by
  unfold twoPageElf
  rw [ElfFile.layOut_length, List.length_replicate]
  rfl

theorem twoPageElf_loadHeaders : twoPageElf.loadHeaders = [twoPageHeader] :=
  ElfFile.loadHeaders_layOut twoPageTable

theorem kernelFromElf_image_iff_twoPages :
    ∃ process final physical,
      (throughActive.kernelFromElf bootDescriptors twoPageElf 0x200000
          0x200000 0).run bootMachine = .ok process final ∧
        translatePointer process.addressSpace 0x401068 = some physical ∧
        ∀ memory, final.contents memory physical = 7 := by
  have evaluated :
      returns
        ((throughActive.kernelFromElf bootDescriptors twoPageElf 0x200000
          0x200000 0).run bootMachine) = true := by
    decide +kernel
  obtain ⟨process, final, returned⟩ := exists_of_returns evaluated
  have reserved :
      ∀ header ∈ twoPageElf.loadHeaders, ∀ page ∈ header.pages,
        ∀ mapped ∈ kernelReserved bootDescriptors 0x200000 0x200000 0,
          Apart mapped.2 page := by
    rw [twoPageElf_loadHeaders]
    decide +kernel
  have image :=
    kernelFromElf_image_iff (RadixTable.new_empty _)
      (by rw [twoPageElf_length]; decide)
      (by rw [twoPageElf_loadHeaders]; decide)
      (by rw [twoPageElf_loadHeaders]; decide)
      (by rw [twoPageElf_loadHeaders, twoPageElf_length]; decide)
      (by rw [twoPageElf_loadHeaders]; exact List.pairwise_singleton _ _)
      reserved bootMachine_fresh bootMachine_ready
  have addressable :
      ∀ header ∈ twoPageElf.loadHeaders, ∀ index < header.segmentFileSize,
        IsCanonical (header.virtualAddress + index) := by
    rw [twoPageElf_loadHeaders]
    intro header member index inFile
    rw [List.mem_singleton.mp member, twoPageHeader] at inFile ⊢
    left
    simp only at inFile ⊢
    omega
  obtain ⟨physical, translated, bytes⟩ :=
    (image.2 process final returned (bootMachine_neverOut _)).mpr addressable
      twoPageHeader (by rw [twoPageElf_loadHeaders]; simp) 4200 (by decide)
  have byte :
      twoPageElf.data[twoPageHeader.offset + 4200]? = some 7 := by
    decide +kernel
  refine ⟨process, final, physical, returned, translated, ?_⟩
  intro memory
  rw [byte] at bytes
  exact (Option.some.inj (bytes memory)).symm

/-- One byte at the first address that is extended. -/
def extendedHeader : ProgramHeader :=
  ⟨.load, 0, 0x800000000000, 1, 1⟩

def extendedElf : ElfFile :=
  ElfFile.layOut 0x800000000000 [extendedHeader] []

theorem extendedTable : LoadTable 0x800000000000 [extendedHeader] [] := by
  decide

/-- The segment is accepted and loaded, to another address. -/
theorem extended_segment_moved :
    ∃ process final,
      (throughActive.kernelFromElf bootDescriptors extendedElf 0x200000
          0x200000 0).run bootMachine = .ok process final ∧
        extendedElf.loadHeaders = [extendedHeader] ∧
        extendedHeader.virtualAddress % 4096 = 0 ∧
        (∀ page ∈ extendedHeader.pages,
          ∀ mapped ∈ kernelReserved bootDescriptors 0x200000 0x200000 0,
            Apart mapped.2 page) ∧
        translatePointer process.addressSpace extendedHeader.virtualAddress =
          none := by
  have evaluated :
      returns
        ((throughActive.kernelFromElf bootDescriptors extendedElf 0x200000
          0x200000 0).run bootMachine) = true := by
    decide +kernel
  obtain ⟨process, final, returned⟩ := exists_of_returns evaluated
  exact ⟨process, final, returned, ElfFile.loadHeaders_layOut extendedTable,
    by decide, by decide +kernel, if_neg (by decide)⟩

end RustKernel.Loader
