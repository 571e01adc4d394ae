import RustKernel.Boot.Handover
import RustKernel.Kernel.AddressSpaces
import RustKernel.Kernel.HeapFrames
import RustKernel.Loader.SettledSegments
import RustKernel.Memory.MapHandoff

/-!
# The address space that the kernel starts in

What holds when the loader jumps: the kernel is in memory as its file has it,
it finds the loader's heap where the loader had it, the runtime services where
their descriptors say, and its own table and its own pages are in frames that
no allocator gives out again.
-/

namespace RustKernel.Boot

open RustKernel.BootImage
open RustKernel.Foundations
open RustKernel.Kernel
open RustKernel.Loader
open RustKernel.Machine
open RustKernel.Memory
open RustKernel.Paging

/-! ## The machine behind `init_heap_new` -/

/-- The new table is stored in one frame, which is a page of the heap. -/
structure TableBox {T C : Type} [Mapper T] [Mapper C] (heap : C)
    (newPageTable : T) (pointer : Nat) (root : PhysFrame .size4KiB) :
    Prop where
  empty : Empty newPageTable
  stored : ∀ frame ∈ tableFrames newPageTable, frame = root
  physical : root.startAddress < 2 ^ 52
  aligned : pointer % 4096 = 0
  inHeap : (⟨pointer / 4096⟩ : Page .size4KiB) ∈ heapPages 0
  translated : translatePage heap ⟨pointer / 4096⟩ = some root

section Start

variable {T C : Type} [Mapper T] [Mapper C]
variable {allocator : FrameAllocator} {heap : HeapMachine C}
variable {newPageTable : T} {pointer idIndex : Nat}
variable {root frame : PhysFrame .size4KiB} {page : Page .size4KiB}

theorem heapPage_held (inHeap : page ∈ heapPages 0)
    (translated : translatePage heap.table page = some frame) :
    frame ∈ heapHoldings (heapPages 0) heap.table (.page page) :=
  ⟨inHeap, translatePage_eq_some.mp translated⟩

/-- Frames that are drawn from now on are in no table. -/
theorem fresh_start (once : NeverTwice allocator.answers)
    (built : HeapBuilt (heapPages 0) allocator heap)
    (box : TableBox heap.table newPageTable pointer root) :
    Fresh (Machine.start newPageTable heap.table heap.allocator idIndex) := by
  have spent := built.owned.spent
  rw [← built.advances.answers_eq] at spent once
  intro index drawn lower given
  refine ⟨?_, ?_, ?_⟩
  · intro stored
    have isRoot := box.stored drawn stored
    subst isRoot
    exact spent _ _ (heapPage_held box.inHeap box.translated) index lower
      given
  · intro stored
    exact spent .table drawn stored index lower given
  · intro later behind again
    have same := once index later drawn given again
    omega

/-- The frames of the heap, the one of the new table apart, are left alone. -/
theorem settled_heap (built : HeapBuilt (heapPages 0) allocator heap)
    (box : TableBox heap.table newPageTable pointer root)
    (inHeap : page ∈ heapPages 0)
    (translated : translatePage heap.table page = some frame)
    (different : frame ≠ root) :
    Settled frame
      (Machine.start newPageTable heap.table heap.allocator idIndex) where
  notTable := fun stored => different (box.stored frame stored)
  notCurrent := by
    intro stored
    cases built.owned.unique _ .table frame
      (heapPage_held inHeap translated) stored
  notDrawn := by
    have spent :=
      built.owned.spent _ frame (heapPage_held inHeap translated)
    rw [← built.advances.answers_eq] at spent
    exact spent

theorem pointer_low (box : TableBox heap.table newPageTable pointer root) :
    pointer < 2 ^ 47 := by
  obtain ⟨address, _, upper, inPage⟩ := mem_heapPages.mp box.inHeap
  have size : heapStart + 0 + heapSize < 2 ^ 46 := by decide
  simp only at inPage
  omega

/-- `CR3` gets the frame of the new table. -/
theorem tableFrame_of_box [LawfulMapper C] {current : C}
    (box : TableBox heap.table newPageTable pointer root)
    (translated : translatePage current ⟨pointer / 4096⟩ = some root) :
    tableFrame current pointer = .ok root := by
  have low := pointer_low box
  have created : VirtAddr.new pointer = .ok ⟨pointer, by omega⟩ := by
    rw [VirtAddr.new, dif_pos]
  obtain ⟨flags, leaf⟩ := translatePage_eq_some.mp translated
  have address :
      translateAddr current pointer =
        some (root.startAddress + pointer % 4096) :=
    translateAddr_of_leaf leaf rfl
  rw [box.aligned, Nat.add_zero] at address
  have whole : root.startAddress % 4096 = 0 := Nat.mul_mod_left _ _
  have number : root.startAddress / 4096 = root.number :=
    Nat.mul_div_cancel _ (by decide)
  unfold tableFrame
  rw [created]
  simp only [bind, Except.bind, address, whole, if_true, number]
  rfl

end Start

/-! ## The kernel in the table -/

section Kernel

variable {T C : Type} [Mapper T] [Mapper C] [LawfulMapper T] [LawfulMapper C]
variable {kernel : ElfFile} {descriptors : List MemoryDescriptor}
variable {stackStart stackEnd mem : Nat}
variable {start loaded final : Machine T C} {process : Process T}

theorem confined_kernelFromElf
    (fits : ∀ header ∈ kernel.loadHeaders, FitsFrame header)
    (built :
      (kernelFromElf descriptors kernel stackStart stackEnd mem).run start =
        .ok process loaded) :
    ConfinedTo ∅ start loaded := by
  obtain ⟨ready, setup, looped, _⟩ := kernelFromElf_run_ok built
  have toReady : ConfinedTo ∅ start ready :=
    (preserves_kernelSetup _ _ _ _).of_run_ok setup
  have toLoaded : ConfinedTo ∅ ready loaded :=
    (confined_turns (loadable_of_run_ok looped) fits
      (List.Subset.refl _)).of_run_ok (turns_run_ok looped)
  exact RunRelation.trans toReady toLoaded

omit [LawfulMapper T] in
theorem keepsTranslations_kernelFromElf :
    Preserves (KeepsTranslations (T := T) (C := C))
      (kernelFromElf descriptors kernel stackStart stackEnd mem) := by
  apply preserves_kernelFromElf
  apply preserves_loadSegments
  intro header _ data fileSize page _ _
  apply preserves_copyPage
  intro frame bytes _ state page frame translated
  exact translated

/-- Nothing is mapped beside the pages of the setup and of the kernel. -/
theorem onPages_kernelFromElf (empty : Empty start.table)
    (built :
      (kernelFromElf descriptors kernel stackStart stackEnd mem).run start =
        .ok process loaded) :
    LeavesIn
      (onPages
        (kernelReserved descriptors stackStart stackEnd mem ++
          (kernelPages kernel).map smallPage))
      start.allocator loaded := by
  obtain ⟨ready, setup, looped, _⟩ := kernelFromElf_run_ok built
  have leaves :
      LeavesIn
        (onPages
          (kernelReserved descriptors stackStart stackEnd mem ++
            (kernelPages kernel).map smallPage))
        start.allocator ready :=
    (onPages_kernelSetup empty setup).mono
      fun _ _ _ _ _ listed => List.mem_append_left _ listed
  apply leavesIn_loadSegments _ _ leaves looped
  · intro _ turn member _ _
    obtain ⟨listed, _, inRange⟩ := mem_turns.mp member
    apply List.mem_append_right
    apply List.mem_map_of_mem
    exact List.mem_flatMap.mpr ⟨turn.header, listed, inRange⟩
  · intro _ _ _ _ _ _ _ listed
    exact listed

/-- The segments of the kernel are loaded, each into frames of its own. -/
theorem kernelFromElf_segments (empty : Empty start.table)
    (fresh : Fresh start)
    (apart :
      SegmentsApart kernel
        (kernelReserved descriptors stackStart stackEnd mem))
    (built :
      (kernelFromElf descriptors kernel stackStart stackEnd mem).run start =
        .ok process loaded)
    (neverOut : ¬ start.allocator.Answered loaded.allocator none) :
    ∀ header ∈ kernel.loadHeaders,
      header.segmentPages = .ok header.pages ∧
        SegmentLoaded kernel header loaded.table start loaded ∧
        SegmentSettled header start loaded := by
  intro header member
  obtain ⟨ready, setup, looped, made⟩ := kernelFromElf_run_ok built
  have confined : ConfinedTo ∅ start ready :=
    (preserves_kernelSetup _ _ _ _).of_run_ok setup
  obtain ⟨front, back, listed⟩ := List.append_of_mem member
  refine ⟨(loadable_of_run_ok looped).ranges header member, ?_, ?_⟩
  · rw [← made]
    exact kernelFromElf_segmentLoaded empty fresh apart.fits built neverOut
      listed (apart.sizes header member).1 (apart.alone listed)
      (apart.reserved header member)
  · apply apart.settled fresh confined looped _ member
    · intro page inRange
      exact unmapped_of_onPages (onPages_kernelSetup empty setup)
        (apart.reserved header member page inRange)
    · exact fun out => neverOut (out.later confined.advances)

/-- What the kernel finds of itself in the table. -/
structure KernelResident (kernel : ElfFile) (start final : Machine T C) :
    Prop where
  image :
    ∀ header ∈ kernel.loadHeaders, ∀ index < header.segmentFileSize,
      IsCanonical (header.virtualAddress + index) →
        ∃ page ∈ header.pages, ∃ frame,
          translatePage final.table page = some frame ∧
          (header.virtualAddress + index) % 2 ^ 48 / 4096 = page.number ∧
          ∀ memory,
            kernel.data[header.offset + index]? =
              some (final.contents memory
                (frame.startAddress +
                  (header.virtualAddress + index) % 2 ^ 48 % 4096))
  settled : ∀ header ∈ kernel.loadHeaders, SegmentSettled header start final

/-- The kernel stays where `kernel_from_elf` has put it. -/
theorem kernelResident_handedOver (empty : Empty start.table)
    (fresh : Fresh start)
    (apart :
      SegmentsApart kernel
        (kernelReserved descriptors stackStart stackEnd mem))
    (built :
      (kernelFromElf descriptors kernel stackStart stackEnd mem).run start =
        .ok process loaded)
    (neverOut : ¬ start.allocator.Answered loaded.allocator none)
    (handed : HandsOver loaded final) :
    KernelResident kernel start final := by
  have segments := kernelFromElf_segments empty fresh apart built neverOut
  constructor
  case image =>
    intro header member index inFile canonical
    obtain ⟨ranges, image, settled⟩ := segments header member
    have stays : SegmentLoaded kernel header final.table start final :=
      image.later settled handed.toConfinedTo handed.smallLeaves
        (apart.fits header member)
        fun _ _ =>
          ⟨(apart.sizes header member).1, apart.within header member⟩
    obtain ⟨page, inRange, frame, flags, leaf, inPage, bytes⟩ :=
      stays.file_byte apart ranges member inFile canonical
    exact ⟨page, inRange, frame, translatePage_eq_some.mpr ⟨flags, leaf⟩,
      inPage, bytes⟩
  case settled =>
    intro header member page inRange
    obtain ⟨_, _, settled⟩ := segments header member
    obtain ⟨frame, flags, leaf, alone, drawn⟩ := settled page inRange
    exact ⟨frame, flags, handed.smallLeaves page frame flags leaf,
      alone.grows handed.toGrows, drawn.earlier handed.advances⟩

/-- The stack that the kernel starts with is mapped. -/
theorem mapStack_maps {page : Page .size4KiB}
    (returned : mapStack.run start = .ok () final)
    (member : page ∈ getStack) :
    ∃ frame flags, entry final.table .size4KiB page = .leaf frame flags := by
  obtain ⟨front, back, split⟩ := List.append_of_mem member
  unfold mapStack at returned
  rw [split, forM_append_run_ok] at returned
  obtain ⟨before, _, returned⟩ := returned
  rw [forM_cons_run_ok] at returned
  obtain ⟨after, turned, ended⟩ := returned
  rw [bind_run_ok] at turned
  obtain ⟨frame, drawn, _, mapping⟩ := turned
  obtain ⟨succeeded, rfl⟩ := mapOrPanic_run_ok.mp mapping
  have effect :=
    LawfulMapper.mapTo_effect drawn.table drawn.allocator page frame
      presentWritableUser rfl
  have grown : Grows (drawn.mapped page frame presentWritableUser) final := by
    refine Preserves.of_run_ok (Preserves.forM ?_) ended
    intro other _
    refine Preserves.bind (preserves_allocateFrame _) ?_
    intro otherFrame
    exact preserves_mapOrPanic _ other otherFrame rfl
  obtain ⟨flags, leaf⟩ :=
    grown.leaves .size4KiB page frame _ (effect.mapped succeeded).2
  exact ⟨frame, flags, leaf⟩

/-- The process that `kernel_from_elf` returns. -/
theorem kernelFromElf_process
    (built :
      (kernelFromElf descriptors kernel stackStart stackEnd mem).run start =
        .ok process loaded) :
    process.stackBase = processStackAddress ∧
      (∃ header, kernel.header = .ok header ∧
        process.entry = header.entry) ∧
      ∀ page ∈ getStack, ∃ frame flags,
        entry loaded.table .size4KiB page = .leaf frame flags := by
  rw [kernelFromElf_eq] at built
  rw [bind_run_ok] at built
  obtain ⟨_, ready, setup, built⟩ := built
  rw [bind_run_ok] at built
  obtain ⟨header, _, read, built⟩ := built
  rw [ofExcept_run_ok] at read
  obtain ⟨read, rfl⟩ := read
  rw [bind_run_ok] at built
  obtain ⟨_, last, looped, made⟩ := built
  cases made
  refine ⟨rfl, ⟨header, read, rfl⟩, ?_⟩
  intro page member
  obtain
    ⟨_, _, windowed, stacked, coded, complete, _, _, _, stackRun, codeRun,
      kernelStackRun, apicRun⟩ :=
      kernelSetup_run_ok setup
  have toCoded : Grows stacked coded :=
    (preserves_identityMapAll rfl _).of_run_ok codeRun
  have toComplete : Grows coded complete :=
    (preserves_identityMapAll rfl _).of_run_ok kernelStackRun
  have toReady : Grows complete ready :=
    (preserves_mapOrPanic _ _ apicFrame rfl).of_run_ok apicRun
  have toLast : Grows ready last :=
    (grows_loadSegments kernel ignoreAnswer).of_run_ok looped
  obtain ⟨frame, flags, leaf⟩ := mapStack_maps stackRun member
  obtain ⟨kept, leaf⟩ :=
    (((toCoded.trans toComplete).trans toReady).trans toLast).leaves
      .size4KiB page frame flags leaf
  exact ⟨frame, kept, leaf⟩

end Kernel

end RustKernel.Boot
