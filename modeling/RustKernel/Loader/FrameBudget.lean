import RustKernel.Foundations.Cost
import RustKernel.Loader.Isolation

/-!
# How many frames the loaders draw

A call of `map_to` draws at most one frame for each level of tables.  Both
loaders make a number of calls that is known from their arguments, so a supply
that is large enough for all of them is enough for the loader to return.
-/

namespace RustKernel.Loader

open RustKernel.Foundations
open RustKernel.Machine
open RustKernel.Memory
open RustKernel.Paging

/-- The calls of the allocator so far. -/
def Machine.drawn {T C : Type} (state : Machine T C) : Nat :=
  state.allocator.drawn

/-- The frames that `from_elf` needs at most: for tables, for the stack of the
process, and for the pages of the segments, of which each is mapped twice. -/
def fromElfBudget (elf kernel : ElfFile)
    (kernelStackStart kernelStackEnd mem : Nat) : Nat :=
  (listOf (windowFrames mem)).length * 3 + (getStack.length * (1 + 3) +
    ((listOf (kernelStackFrames kernelStackStart kernelStackEnd)).length * 3 +
      ((kernelPages kernel).length * 3 + (turns elf).length * (1 + (3 + 3)))))

/-- The frames that `kernel_from_elf` needs at most. -/
def kernelFromElfBudget (descriptors : List MemoryDescriptor) (elf : ElfFile)
    (kernelStackStart kernelStackEnd mem : Nat) : Nat :=
  (listOf (windowFrames mem)).length * 3 + (getStack.length * (1 + 3) +
    ((listOf (kernelCodeFrames descriptors)).length * 3 +
      ((listOf (kernelStackFrames kernelStackStart
          kernelStackEnd)).length * 3 +
        3)) + (turns elf).length * (1 + (3 + 3)))

section Setup

variable {T C : Type}
variable {kernelStackStart kernelStackEnd mem : Nat}

theorem costs_allocateFrame (text : String) :
    CostsAtMost (Machine.drawn (T := T) (C := C)) 1 (allocateFrame text) := by
  apply CostsAtMost.bind_free (CostsAtMost.modifyGet fun _ => Nat.le_refl _)
  intro answer
  cases answer with
  | none => exact CostsAtMost.throw _
  | some frame => exact CostsAtMost.pure frame

theorem costs_makeProcess (header : Header) :
    CostsAtMost (Machine.drawn (T := T) (C := C)) 0 (makeProcess header) :=
  fun _ => Nat.le_refl _

variable [Mapper T] [LawfulMapper T]

theorem costs_mapNew {size : PageSize} (page : Page size)
    (frame : PhysFrame size) {flags : PageTableFlags}
    (present : flags.present = true) :
    CostsAtMost (Machine.drawn (T := T) (C := C)) 3
      (mapNew page frame flags) :=
  CostsAtMost.modifyGet fun state =>
    (LawfulMapper.mapTo_effect state.table state.allocator page frame flags
      present).atMostThree

theorem costs_mapOrPanic {size : PageSize} (fault : Panic)
    (page : Page size) (frame : PhysFrame size) {flags : PageTableFlags}
    (present : flags.present = true) :
    CostsAtMost (Machine.drawn (T := T) (C := C)) 3
      (mapOrPanic fault page frame flags) := by
  apply CostsAtMost.bind_free (costs_mapNew page frame present)
  intro answer
  cases answer with
  | ok value => exact CostsAtMost.pure ()
  | error reason => exact CostsAtMost.throw fault

theorem costs_mapWindow (mem : Nat) :
    CostsAtMost (Machine.drawn (T := T) (C := C))
      ((listOf (windowFrames mem)).length * 3) (mapWindow mem) := by
  apply CostsAtMost.ofExcept_bind
  intro frames computed
  rw [computed, listOf]
  apply CostsAtMost.forM
  intro frame _
  apply CostsAtMost.ofExcept_bind
  intro page _
  exact costs_mapOrPanic _ page frame rfl

theorem costs_mapStack :
    CostsAtMost (Machine.drawn (T := T) (C := C)) (getStack.length * (1 + 3))
      mapStack := by
  apply CostsAtMost.forM
  intro page _
  apply CostsAtMost.bind (costs_allocateFrame _)
  intro frame
  exact costs_mapOrPanic _ page frame rfl

theorem costs_identityMapAll {flags : PageTableFlags}
    (present : flags.present = true) (frames : List (PhysFrame .size4KiB)) :
    CostsAtMost (Machine.drawn (T := T) (C := C)) (frames.length * 3)
      (identityMapAll flags frames) := by
  apply CostsAtMost.forM
  intro frame _
  unfold identityMapOrPanic
  split
  · exact costs_mapOrPanic _ (identityPage frame) frame present
  · exact (CostsAtMost.throw _).weaken (Nat.zero_le 3)

theorem costs_userSetup :
    CostsAtMost (Machine.drawn (T := T) (C := C))
      ((listOf (windowFrames mem)).length * 3 + (getStack.length * (1 + 3) +
        (listOf (kernelStackFrames kernelStackStart
          kernelStackEnd)).length * 3))
      (userSetup kernelStackStart kernelStackEnd mem) := by
  apply CostsAtMost.bind (costs_mapWindow mem)
  intro _
  apply CostsAtMost.bind costs_mapStack
  intro _
  apply CostsAtMost.ofExcept_bind
  intro frames computed
  rw [computed, listOf]
  exact costs_identityMapAll rfl frames

theorem costs_kernelSetup
    {descriptors : List MemoryDescriptor} :
    CostsAtMost (Machine.drawn (T := T) (C := C))
      ((listOf (windowFrames mem)).length * 3 + (getStack.length * (1 + 3) +
        ((listOf (kernelCodeFrames descriptors)).length * 3 +
          ((listOf (kernelStackFrames kernelStackStart
            kernelStackEnd)).length * 3 + 3))))
      (kernelSetup descriptors kernelStackStart kernelStackEnd mem) := by
  apply CostsAtMost.bind (costs_mapWindow mem)
  intro _
  apply CostsAtMost.bind costs_mapStack
  intro _
  apply CostsAtMost.ofExcept_bind
  intro codeFrames codeComputed
  apply CostsAtMost.ofExcept_bind
  intro stackFrames computed
  rw [codeComputed, computed, listOf, listOf]
  apply CostsAtMost.bind (costs_identityMapAll rfl codeFrames)
  intro _
  apply CostsAtMost.bind (costs_identityMapAll rfl stackFrames)
  intro _
  exact costs_mapOrPanic _ (identityPage apicFrame) apicFrame rfl

end Setup

section Passes

variable {T C : Type} [Mapper T] [Mapper C] [LawfulMapper T]
variable {elf kernel : ElfFile} {afterMap : AfterMap}

theorem costs_mapKernelPage (page : Page .size4KiB) :
    CostsAtMost (Machine.drawn (T := T) (C := C)) 3 (mapKernelPage page) := by
  intro state
  rw [mapKernelPage_run]
  cases translatePage state.current page with
  | none => exact Nat.le_add_right _ _
  | some frame => exact costs_mapOrPanic _ page frame rfl state

theorem costs_mapKernel (readable : kernel.Readable)
    (ranges :
      ∀ header ∈ kernel.loadHeaders,
        header.segmentPages = .ok header.pages) :
    CostsAtMost (Machine.drawn (T := T) (C := C))
      ((kernelPages kernel).length * 3) (mapKernel kernel) :=
  CostsAtMost.of_run_eq (CostsAtMost.forM fun page _ =>
    costs_mapKernelPage page) (mapKernel_run readable ranges)

/-- A writer maps each frame once, and copies without frames. -/
structure FrameWriter.Costs (writer : FrameWriter T C) : Prop where
  identityMap :
    ∀ frame, CostsAtMost Machine.drawn 3 (writer.identityMap frame)
  copy :
    ∀ header page frame bytes,
      CostsAtMost Machine.drawn 0 (writer.copy header page frame bytes)

variable {writer : FrameWriter T C}

omit [Mapper C] in
/-- A turn draws a frame, and tables for the two mappings of the frame. -/
theorem FrameWriter.Costs.copyPage (costs : writer.Costs)
    (header : ProgramHeader) (data : List UInt8) (fileSize : Nat)
    (page : Page .size4KiB) :
    CostsAtMost (Machine.drawn (T := T) (C := C)) (1 + (3 + 3))
      (writer.copyPage header data afterMap fileSize page) := by
  apply CostsAtMost.bind (costs_allocateFrame _)
  intro frame
  apply CostsAtMost.bind (costs.identityMap frame)
  intro _
  apply CostsAtMost.ofExcept_bind
  intro bytes _
  refine (CostsAtMost.bind (costs.copy header page frame bytes) fun _ =>
    CostsAtMost.bind_free (costs_mapNew page frame rfl) fun _ =>
      CostsAtMost.ofExcept_bind fun _ _ => CostsAtMost.pure _).weaken ?_
  exact Nat.le_refl _

omit [Mapper C] in
theorem FrameWriter.Costs.loadSegments (costs : writer.Costs)
    (loadable : Loadable elf) :
    CostsAtMost (Machine.drawn (T := T) (C := C))
      ((turns elf).length * (1 + (3 + 3)))
      (writer.loadSegments elf afterMap) := by
  apply CostsAtMost.of_run_eq (CostsAtMost.forM_flatMap _)
    (forLoadSegments_run_of_readable loadable.readable _)
  intro header _
  apply CostsAtMost.ofExcept_bind
  intro pages computed
  rw [ProgramHeader.segmentPages_eq_ok computed]
  apply CostsAtMost.ofExcept_bind
  intro data found
  cases data with
  | none => exact (CostsAtMost.pure ()).weaken (Nat.zero_le _)
  | some data =>
      have positive := (ElfFile.segment_eq_some found).1
      rw [headerTurns, if_pos positive, List.length_map]
      refine CostsAtMost.bind_free (CostsAtMost.foldlM ?_) fun _ =>
        CostsAtMost.pure ()
      intro page _ fileSize
      exact costs.copyPage header data fileSize page

end Passes

/-! ## The loaders -/

section Writers

variable {T C : Type} [Mapper T] [Mapper C] [LawfulMapper T]
variable {elf kernel : ElfFile} {descriptors : List MemoryDescriptor}
variable {kernelStackStart kernelStackEnd mem : Nat}
variable {writer : FrameWriter T C}

theorem FrameWriter.Costs.fromElf (costs : writer.Costs)
    (readable : kernel.Readable)
    (ranges :
      ∀ header ∈ kernel.loadHeaders, header.segmentPages = .ok header.pages)
    (loadable : Loadable elf) :
    CostsAtMost (Machine.drawn (T := T) (C := C))
      (fromElfBudget elf kernel kernelStackStart kernelStackEnd mem)
      (writer.fromElf elf kernel kernelStackStart kernelStackEnd mem) := by
  refine (CostsAtMost.bind costs_userSetup fun _ =>
    CostsAtMost.ofExcept_bind fun _ _ =>
      CostsAtMost.bind (costs_mapKernel readable ranges) fun _ =>
        CostsAtMost.ofExcept_bind fun header _ =>
          CostsAtMost.bind_free (costs.loadSegments loadable) fun _ =>
            costs_makeProcess header).weaken ?_
  unfold fromElfBudget
  omega

omit [Mapper C] in
theorem FrameWriter.Costs.kernelFromElf (costs : writer.Costs)
    (loadable : Loadable elf) :
    CostsAtMost (Machine.drawn (T := T) (C := C))
      (kernelFromElfBudget descriptors elf kernelStackStart kernelStackEnd mem)
      (writer.kernelFromElf descriptors elf kernelStackStart kernelStackEnd
        mem) := by
  refine (CostsAtMost.bind costs_kernelSetup fun _ =>
    CostsAtMost.ofExcept_bind fun header _ =>
      CostsAtMost.bind_free (costs.loadSegments loadable) fun _ =>
        costs_makeProcess header).weaken ?_
  unfold kernelFromElfBudget
  omega

end Writers

section Through

variable {T C : Type} [StoredMapper T] [StoredMapper C]

theorem costs_writePart (origin : Origin) (pointer : Nat)
    (bytes : List UInt8) :
    CostsAtMost (Machine.drawn (T := T) (C := C)) 0
      (writePart origin pointer bytes) := by
  by_cases empty : bytes = []
  · rw [writePart, if_pos empty]
    exact CostsAtMost.pure ()
  · intro state
    rw [writePart_run origin pointer empty]
    cases translatePointer state.current pointer with
    | some target => exact Nat.le_refl _
    | none => exact Nat.le_refl _

theorem costs_throughActive [LawfulMapper C] :
    (throughActive : FrameWriter T C).Costs where
  identityMap := by
    intro frame
    change CostsAtMost _ 3 (identityMapThrough frame)
    unfold identityMapThrough
    split
    · exact CostsAtMost.modifyGet fun state =>
        (LawfulMapper.mapTo_effect state.current state.allocator
          (identityPage frame) frame presentWritable rfl).atMostThree
    · exact (CostsAtMost.throw _).weaken (Nat.zero_le 3)
  copy := fun header _ frame bytes =>
    (CostsAtMost.bind_free (costs_writePart _ _ _) fun _ =>
      costs_writePart _ _ _)

end Through

/-! ## Supplies -/

section Supplies

variable {T C : Type} {state final : Machine T C} {count spent rest : Nat}

/-- The allocator answers the next calls with frames of the lower half. -/
def Machine.Supplied (count : Nat) (state : Machine T C) : Prop :=
  ∀ index, state.allocator.drawn ≤ index →
    index < state.allocator.drawn + count →
      ∃ frame, state.allocator.answers index = some frame ∧
        frame.startAddress < 2 ^ 47

/-- A run within its supply is not lost. -/
theorem Machine.Supplied.not_lost (enough : state.Supplied count)
    (within : final.allocator.drawn ≤ state.allocator.drawn + count) :
    ¬ Lost state.allocator final := by
  rintro (⟨index, lower, upper, out⟩ | ⟨frame, given, high⟩)
  · obtain ⟨frame, answer, _⟩ :=
      enough index lower (Nat.lt_of_lt_of_le upper within)
    rw [out] at answer
    cases answer
  · obtain ⟨index, lower, upper, given⟩ := given
    obtain ⟨other, answer, low⟩ :=
      enough index lower (Nat.lt_of_lt_of_le upper within)
    rw [given, Option.some.injEq] at answer
    subst answer
    omega

theorem Machine.Supplied.neverOut (enough : state.Supplied count)
    (within : final.allocator.drawn ≤ state.allocator.drawn + count) :
    ¬ state.allocator.Answered final.allocator none :=
  fun out => enough.not_lost within (Or.inl out)

/-- A run that stops for want of a frame only does not stop within its
supply. -/
theorem Machine.Supplied.returns {α : Type}
    {program : EStateM Panic (Machine T C) α}
    (enough : state.Supplied count)
    (costs : CostsAtMost Machine.drawn count program)
    (completes :
      (∃ value final, program.run state = .ok value final) ∨
      ∃ fault final, program.run state = .error fault final ∧
        Lost state.allocator final) :
    ∃ value final, program.run state = .ok value final ∧
      final.allocator.drawn ≤ state.allocator.drawn + count := by
  have spent := costs state
  rcases completes with
    ⟨value, final, returned⟩ | ⟨fault, final, stopped, lost⟩
  · rw [returned] at spent
    exact ⟨value, final, returned, spent⟩
  · rw [stopped] at spent
    exact absurd lost (enough.not_lost spent)

/-- What a run has left of its supply. -/
theorem Machine.Supplied.later (enough : state.Supplied (spent + rest))
    (advances : state.allocator.Advances final.allocator)
    (within : final.allocator.drawn ≤ state.allocator.drawn + spent) :
    final.Supplied rest := by
  intro index lower upper
  have started := advances.drawn_le
  rw [advances.answers_eq]
  exact enough index (by omega) (by omega)

theorem lost_of_out {α : Type} {program : EStateM Panic (Machine T C) α}
    {begun : FrameAllocator}
    (completes :
      (∃ value final, program.run state = .ok value final) ∨
      ∃ fault final, program.run state = .error fault final ∧
        begun.Answered final.allocator none) :
    (∃ value final, program.run state = .ok value final) ∨
      ∃ fault final, program.run state = .error fault final ∧
        Lost begun final := by
  rcases completes with returned | ⟨fault, final, stopped, out⟩
  · exact Or.inl returned
  · exact Or.inr ⟨fault, final, stopped, Or.inl out⟩

/-- Where the coarse program stops for want of a frame only, the fine one
returns or is lost. -/
theorem completes_of_refines {α : Type}
    {Before Stopped : Machine T C → Prop} {After : α → Machine T C → Prop}
    {begun : FrameAllocator} {fine coarse : EStateM Panic (Machine T C) α}
    (refines : Refines Before After Stopped (Lost begun) fine coarse)
    (before : Before state)
    (completes :
      (∃ value final, coarse.run state = .ok value final) ∨
      ∃ fault final, coarse.run state = .error fault final ∧
        begun.Answered final.allocator none) :
    (∃ value final, fine.run state = .ok value final) ∨
      ∃ fault final, fine.run state = .error fault final ∧
        Lost begun final := by
  rcases refines.run_eq_or_lost before with same | lost
  · rw [same]
    exact lost_of_out completes
  · exact Or.inr lost

end Supplies

section Loaders

variable {T C : Type} [StoredMapper T] [StoredMapper C]
variable [LawfulMapper T] [LawfulMapper C]
variable [LawfulStoredMapper T] [LawfulStoredMapper C]
variable {elf kernel : ElfFile}
variable {kernelStackStart kernelStackEnd mem : Nat}
variable {stackFrames : List (PhysFrame .size4KiB)}

/-- `from_elf` returns when its pages are free, the active table has the pages
of the kernel, every copy lands in its frame, and the allocator has the frames
of its budget; then it draws no more than those. -/
theorem fromElf_returns_within_budget
    {newPageTable : T} {current : C} {allocator : FrameAllocator}
    {idIndex : Nat}
    (fresh : Fresh (Machine.start newPageTable current allocator idIndex))
    (ready :
      ∀ index frame, allocator.drawn ≤ index →
        allocator.answers index = some frame → IdentityReady current frame)
    (fits : ∀ header ∈ elf.loadHeaders, FitsFrame header)
    (window : ValidWindow mem)
    (stack :
      kernelStackFrames kernelStackStart kernelStackEnd = .ok stackFrames)
    (stackLow : ∀ frame ∈ stackFrames, frame.startAddress < 2 ^ 48)
    (readable : kernel.Readable)
    (ranges :
      ∀ header ∈ kernel.loadHeaders, header.segmentPages = .ok header.pages)
    (translates :
      ∀ page ∈ kernelPages kernel,
        ∃ frame, translatePage current page = some frame)
    (loadable : Loadable elf)
    (free :
      Free (Machine.start newPageTable current allocator idIndex)
        (userReserved kernelStackStart kernelStackEnd mem ++
          ((kernelPages kernel).map smallPage ++
            (turns elf).map fun turn => smallPage turn.page)))
    (enough :
      (Machine.start newPageTable current allocator idIndex).Supplied
        (fromElfBudget elf kernel kernelStackStart kernelStackEnd mem)) :
    ∃ process final,
      (throughActive.fromElf elf kernel kernelStackStart kernelStackEnd
          mem).run (Machine.start newPageTable current allocator idIndex) =
          .ok process final ∧
        final.allocator.drawn ≤ allocator.drawn +
          fromElfBudget elf kernel kernelStackStart kernelStackEnd mem := by
  have completes :=
    completes_of_refines
      (refines_fromElf kernel kernelStackStart kernelStackEnd mem fits)
      (clear_start fresh ready)
      (fromElf_completes window stack stackLow readable ranges translates
        loadable free)
  exact enough.returns
    (costs_throughActive.fromElf readable ranges loadable) completes

end Loaders

/-! ## The program of one page -/

section Guest

variable {root : PhysFrame .size4KiB} {current : RadixTable}
variable {allocator : FrameAllocator} {idIndex : Nat}

theorem turnPages_guestElf :
    (turns guestElf).map Turn.page = [⟨0x400⟩] := by
  unfold turns guestElf
  rw [ElfFile.loadHeaders_layOut guestTable]
  rfl

theorem guest_free :
    Free (Machine.start (RadixTable.new root) current allocator idIndex)
      (userReserved 0x200000 0x200000 0 ++
        ((kernelPages residentElf).map smallPage ++
          (turns guestElf).map fun turn => smallPage turn.page)) := by
  apply free_of_empty (RadixTable.new_empty _)
  have stack : kernelStackFrames 0x200000 0x200000 = .ok [⟨0x200⟩] := by
    decide
  have all :=
    bootPages_apart (by decide : [⟨0x200⟩, ⟨0x800⟩, ⟨0x400⟩].Nodup)
      (by decide) (by decide)
  have pages :
      (turns guestElf).map (fun turn => smallPage turn.page) =
        [smallPage ⟨0x400⟩] := by
    have mapped := congrArg (List.map smallPage) turnPages_guestElf
    rw [List.map_map] at mapped
    exact mapped
  rw [pages, kernelPages_residentElf]
  simpa [userReserved, userSmallPages, stack, listOf, identityPage] using all

/-- The frames for the window, the stacks, the kernel and the program. -/
theorem fromElfBudget_guestElf :
    fromElfBudget guestElf residentElf 0x200000 0x200000 0 = 1044 := by
  have window : (listOf (windowFrames 0)).length = 1 := by decide
  have stack : getStack.length = 257 := by decide +kernel
  have kernelStack :
      (listOf (kernelStackFrames 0x200000 0x200000)).length = 1 := by
    decide
  have program : (turns guestElf).length = 1 := by
    rw [← List.length_map, turnPages_guestElf]
    rfl
  rw [fromElfBudget, window, stack, kernelStack, program,
    kernelPages_residentElf]
  rfl

theorem fromElf_returns_guest_supplied
    (fresh :
      Fresh (Machine.start (RadixTable.new root) current allocator idIndex))
    (ready :
      ∀ index frame, allocator.drawn ≤ index →
        allocator.answers index = some frame → IdentityReady current frame)
    (translates :
      ∃ frame, translatePage current (⟨0x800⟩ : Page .size4KiB) = some frame)
    (enough :
      (Machine.start (RadixTable.new root) current allocator
        idIndex).Supplied 1044) :
    ∃ process final,
      (throughActive.fromElf guestElf residentElf 0x200000 0x200000 0).run
          (Machine.start (RadixTable.new root) current allocator idIndex) =
        .ok process final ∧
      final.allocator.drawn ≤ allocator.drawn + 1044 := by
  have stack : kernelStackFrames 0x200000 0x200000 = .ok [⟨0x200⟩] := by
    decide
  have kernelLoadable : Loadable residentElf := loadable_layOut residentTable
  have guestLoadable : Loadable guestElf := loadable_layOut guestTable
  rw [← fromElfBudget_guestElf] at enough ⊢
  have translated :
      ∀ page ∈ kernelPages residentElf,
        ∃ frame, translatePage current page = some frame := by
    rw [kernelPages_residentElf]
    intro page member
    rw [List.mem_singleton] at member
    rwa [member]
  have completes :=
    completes_of_refines
      (refines_fromElf residentElf 0x200000 0x200000 0 guestElf_fits)
      (clear_start fresh ready)
      (fromElf_completes bootWindow_valid stack (by decide)
        kernelLoadable.readable kernelLoadable.ranges translated
        guestLoadable guest_free)
  exact enough.returns
    (costs_throughActive.fromElf kernelLoadable.readable
      kernelLoadable.ranges guestLoadable) completes

/-- As many frames as the budget of the program allows. -/
def guestSupply : FrameAllocator :=
  ⟨fun index => if index < 1044 then some ⟨0x8000 + index⟩ else none, 0⟩

theorem guestSupply_supplied {current : RadixTable} :
    (Machine.start (RadixTable.new root) current guestSupply idIndex).Supplied
      1044 := by
  intro index _ upper
  have bound : index < 1044 := by
    simpa [Machine.start, guestSupply] using upper
  refine ⟨⟨0x8000 + index⟩, ?_, ?_⟩
  · simp [Machine.start, guestSupply, bound]
  · simp only [PhysFrame.startAddress, PageSize.bytes]
    omega

/-- The program of one page, with the kernel in the active table. -/
def guestMachine : Machine RadixTable RadixTable :=
  Machine.start (RadixTable.new ⟨1⟩) residentSpace guestSupply 0

theorem number_guestSupply {index : Nat} {frame : PhysFrame .size4KiB}
    (given : guestSupply.answers index = some frame) :
    frame.number = 0x8000 + index := by
  unfold guestSupply at given
  dsimp only at given
  split at given
  · cases given
    rfl
  · cases given

theorem guestMachine_fresh : Fresh guestMachine := by
  intro index frame _ given
  have number := number_guestSupply given
  refine ⟨?_, ?_, ?_⟩
  · intro stored
    rw [RadixTable.mem_tableFrames_new.mp stored] at number
    simp only at number
    omega
  · intro stored
    have low := (tableFrames_residentSpace stored).1
    omega
  · intro later behind again
    have other := number_guestSupply again
    omega

theorem fromElf_returns_within_budget_guest :
    ∃ process final,
      (throughActive.fromElf guestElf residentElf 0x200000 0x200000 0).run
          guestMachine = .ok process final ∧
      final.allocator.drawn ≤ 0 + 1044 := by
  have stack : kernelStackFrames 0x200000 0x200000 = .ok [⟨0x200⟩] := by
    decide
  have kernelLoadable : Loadable residentElf := loadable_layOut residentTable
  have guestLoadable : Loadable guestElf := loadable_layOut guestTable
  have translated :
      ∀ page ∈ kernelPages residentElf,
        ∃ frame, translatePage residentSpace page = some frame := by
    rw [kernelPages_residentElf]
    intro page member
    rw [List.mem_singleton] at member
    exact ⟨⟨0x50⟩, by rw [member]; rfl⟩
  have ready :
      ∀ index frame, guestSupply.drawn ≤ index →
        guestSupply.answers index = some frame →
          IdentityReady residentSpace frame := by
    intro index frame _ given
    have number := number_guestSupply given
    exact residentSpace_ready (by omega)
  have enough :
      guestMachine.Supplied
        (fromElfBudget guestElf residentElf 0x200000 0x200000 0) := by
    rw [fromElfBudget_guestElf]
    exact guestSupply_supplied
  have returned :=
    fromElf_returns_within_budget guestMachine_fresh ready guestElf_fits
      bootWindow_valid stack (by decide) kernelLoadable.readable
      kernelLoadable.ranges translated guestLoadable guest_free enough
  rw [fromElfBudget_guestElf] at returned
  exact returned

end Guest

end RustKernel.Loader
