import RustKernel.Boot.KernelSpace

/-!
# The state at the jump into the kernel

The parts of a run of the loader are put together: from a machine on which
`init_heap_new` has returned, whatever `run` jumps with is what the kernel
needs.
-/

namespace RustKernel.Boot

open RustKernel.BootImage
open RustKernel.Foundations
open RustKernel.Kernel
open RustKernel.Loader
open RustKernel.Machine
open RustKernel.Memory
open RustKernel.Paging

section Jump

variable {T C : Type} [Mapper T] [Mapper C]

/-- What the kernel starts with: it is in memory as its file has it, its stack
is mapped, `CR3` has its table, it has the loader's heap with the loader's
data, the runtime services are where the map that it gets says, and no table
is in a frame that was not drawn for it. -/
structure HandedOver (map : List FirmwareDescriptor) (kernel : ElfFile)
    (reserved : List AnyPage) (root : PhysFrame .size4KiB)
    (start final : Machine T C) (jump : KernelEntry) : Prop where
  resident : KernelResident kernel start final
  cr3 : jump.cr3 = root
  entry : ∃ header, kernel.header = .ok header ∧ jump.entry = header.entry
  stackBase : jump.stackBase = processStackAddress
  stack :
    ∀ page ∈ getStack, ∃ frame flags,
      Mapper.entry final.table .size4KiB page = .leaf frame flags
  heap :
    ∀ page ∈ heapPages 0, ∀ frame,
      translatePage start.current page = some frame →
        Mapper.entry final.table .size4KiB page =
          .leaf frame presentWritable
  heapBytes :
    ∀ page ∈ heapPages 0, ∀ frame,
      translatePage start.current page = some frame → frame ≠ root →
        ∀ memory address, frame.Holds address →
          final.contents memory address = start.contents memory address
  runtime :
    ∀ descriptor ∈ map, descriptor.isRuntime = true →
      ∀ index < descriptor.size, ∀ number,
        number = (descriptor.physicalAddress + index * 4096) / 4096 →
        (∀ mapped ∈ reserved,
          Apart mapped.2 (⟨number⟩ : Page .size4KiB)) →
          IdentityMapped final.table number
  memoryMap :
    jump.parameters.memoryMap = map.map FirmwareDescriptor.relocated
  frameAllocator : jump.parameters.frameAllocator = final.allocator
  tables :
    ∀ frame ∈ tableFrames final.table,
      frame = root ∨
        start.allocator.Answered final.allocator (some frame)

variable [LawfulMapper T] [LawfulMapper C]
variable {map handed : List FirmwareDescriptor} {kernel : ElfFile}
variable {pointer stackStart stackEnd mem : Nat}
variable {allocator : FrameAllocator} {heap : HeapMachine C}
variable {newPageTable : T} {root frame : PhysFrame .size4KiB}
variable {loaded final : Machine T C}

omit [LawfulMapper C] in
/-- The pages of the runtime services that were free are identity mapped. -/
theorem handOver_runtime {state : Machine T C} {pages : List AnyPage}
    {descriptor : FirmwareDescriptor} {index number : Nat}
    {start : FrameAllocator}
    (given :
      (handOver map pointer).run state = .ok (frame, handed) final)
    (physical : frame.startAddress < 2 ^ 52)
    (neverOut : ¬ state.allocator.Answered final.allocator none)
    (leaves : LeavesIn (onPages pages) start state)
    (listed : descriptor ∈ map) (runtime : descriptor.isRuntime = true)
    (inside : index < descriptor.size)
    (numbered :
      number = (descriptor.physicalAddress + index * 4096) / 4096)
    (free :
      ∀ mapped ∈ pages, Apart mapped.2 (⟨number⟩ : Page .size4KiB)) :
    IdentityMapped final.table number := by
  obtain ⟨rooted, mapped, _, _, rooting, looped, _, shared⟩ :=
    handOver_run_ok.mp given
  have toRooted : HandsOver state rooted :=
    (handsOver_identityMapNew frame rfl).of_run_ok rooting
  have toFinal : HandsOver mapped final :=
    (Preserves.forM fun page _ =>
      handsOver_shareHeapPage page).of_run_ok shared
  have identifiable : Identifiable state.table number :=
    Or.inl (unmapped_of_onPages leaves free)
  obtain ⟨_, isRooted⟩ := (identityMapNew_run_ok physical).mp rooting
  apply toFinal.identityMapped
  apply handMap_identityMapped looped _ listed runtime inside numbered
  · rw [isRooted]
    exact identifiable.mapped frame rfl
  · intro out
    exact neverOut ((out.earlier toFinal.advances).later toRooted.advances)

omit [LawfulMapper C] in
/-- The heap of the kernel is the heap of the active table. -/
theorem handOver_heap {state : Machine T C} {page : Page .size4KiB}
    {held : PhysFrame .size4KiB}
    (given :
      (handOver map pointer).run state = .ok (frame, handed) final)
    (inHeap : page ∈ heapPages 0)
    (translated : translatePage state.current page = some held) :
    entry final.table .size4KiB page = .leaf held presentWritable := by
  obtain ⟨rooted, mapped, pages, _, rooting, looped, formed, shared⟩ :=
    handOver_run_ok.mp given
  have toRooted : HandsOver state rooted :=
    (handsOver_identityMapNew frame rfl).of_run_ok rooting
  have toMapped : HandsOver rooted mapped :=
    (Preserves.mapM fun descriptor _ =>
      handsOver_handDescriptor descriptor).of_run_ok looped
  obtain ⟨_, others, split⟩ := heapRange_eq_ok formed
  apply shareHeapPages_agree shared
  · rw [split]
    exact List.mem_append_left others inHeap
  · rw [toMapped.sameCurrent, toRooted.sameCurrent]
    exact translated

end Jump

section Handed

variable {T C : Type} [StoredMapper T] [StoredMapper C]
variable [LawfulMapper T] [LawfulMapper C]
variable [LawfulStoredMapper T] [LawfulStoredMapper C]
variable {map : List FirmwareDescriptor} {kernel : ElfFile}
variable {pointer stackStart stackEnd mem : Nat}
variable {allocator : FrameAllocator} {heap : HeapMachine C}
variable {newPageTable : T} {root : PhysFrame .size4KiB}
variable {final : Machine T C}

/-- A run that jumps has loaded the kernel as if every copy were sent to its
frame. -/
theorem run_built {bootImage : BootImageFS}
    {bootImageAddress idIndex : Nat} {jump : KernelEntry}
    (fresh :
      Fresh (Machine.start newPageTable heap.table heap.allocator idIndex))
    (ready :
      ∀ index frame, heap.allocator.drawn ≤ index →
        heap.allocator.answers index = some frame →
          IdentityReady heap.table frame)
    (found : findKernel bootImage = .ok (some kernel))
    (summed : getMemSize (plainMap map) = .ok mem)
    (fits : ∀ header ∈ kernel.loadHeaders, FitsFrame header)
    (returned :
      (run map bootImage bootImageAddress stackStart stackEnd pointer).run
          (Machine.start newPageTable heap.table heap.allocator idIndex) =
        .ok jump final) :
    ∃ process loaded frame handed,
      (kernelFromElf (plainMap map) kernel stackStart stackEnd mem).run
          (Machine.start newPageTable heap.table heap.allocator idIndex) =
        .ok process loaded ∧
      (handOver map pointer).run loaded = .ok (frame, handed) final ∧
      jump = ⟨frame, process.stackBase, process.entry,
        ⟨handed, (bootImageAddress, bootImage.data.length),
          final.allocator⟩⟩ := by
  obtain ⟨other, size, process, loaded, frame, handed, otherFound, otherSummed,
    copied, given, rfl⟩ := run_run_ok.mp returned
  rw [found] at otherFound
  cases otherFound
  rw [summed] at otherSummed
  cases otherSummed
  obtain ⟨built, _⟩ :=
    (refines_kernelFromElf (plainMap map) stackStart stackEnd mem
      fits).of_run_ok (clear_start fresh ready) copied
  exact ⟨process, loaded, frame, handed, built, given, rfl⟩

/-- Wherever the loader jumps, it has handed over what the kernel needs. -/
theorem handedOver_of_run {bootImage : BootImageFS}
    {bootImageAddress idIndex : Nat} {firmware : C} {jump : KernelEntry}
    (once : NeverTwice allocator.answers)
    (firmwareSpent :
      ∀ frame ∈ tableFrames firmware,
        Spent allocator.answers allocator.drawn frame)
    (heapUnused :
      ∀ page ∈ heapPages 0, entry firmware .size4KiB page = .unused)
    (heapMade :
      (initHeapNew 0 false).run ⟨firmware, allocator, none⟩ =
        .ok (.ok ()) heap)
    (box : TableBox heap.table newPageTable pointer root)
    (ready :
      ∀ index frame, heap.allocator.drawn ≤ index →
        heap.allocator.answers index = some frame →
          IdentityReady heap.table frame)
    (found : findKernel bootImage = .ok (some kernel))
    (summed : getMemSize (plainMap map) = .ok mem)
    (apart :
      SegmentsApart kernel
        (kernelReserved (plainMap map) stackStart stackEnd mem))
    (returned :
      (run map bootImage bootImageAddress stackStart stackEnd pointer).run
          (Machine.start newPageTable heap.table heap.allocator idIndex) =
        .ok jump final)
    (neverOut : ¬ heap.allocator.Answered final.allocator none) :
    HandedOver map kernel
      (kernelReserved (plainMap map) stackStart stackEnd mem ++
        (kernelPages kernel).map smallPage)
      root (Machine.start newPageTable heap.table heap.allocator idIndex)
      final jump := by
  have heapBuilt := heapBuilt_initHeapNew once firmwareSpent heapUnused heapMade
  have fresh :
      Fresh
        (Machine.start newPageTable heap.table heap.allocator idIndex) :=
    fresh_start once heapBuilt box
  obtain ⟨process, loaded, frame, handed, built, given, rfl⟩ :=
    run_built fresh ready found summed apart.fits returned
  have toLoaded := confined_kernelFromElf apart.fits built
  have toFinal : HandsOver loaded final :=
    (handsOver_handOver map pointer).of_run_ok given
  have neverOutLoaded :
      ¬ heap.allocator.Answered loaded.allocator none :=
    fun out => neverOut (out.earlier toFinal.advances)
  have translations :
      KeepsTranslations
        (Machine.start newPageTable heap.table heap.allocator idIndex)
        loaded :=
    keepsTranslations_kernelFromElf.of_run_ok built
  obtain ⟨_, _, _, located, _, looped, _, _⟩ := handOver_run_ok.mp given
  have isRoot : frame = root := by
    rw [tableFrame_of_box box (translations _ _ box.translated)] at located
    exact (Except.ok.inj located).symm
  obtain ⟨stackBase, entryRead, stack⟩ := kernelFromElf_process built
  constructor
  case resident =>
    exact kernelResident_handedOver box.empty fresh apart built
      neverOutLoaded toFinal
  case cr3 => exact isRoot
  case entry => exact entryRead
  case stackBase => exact stackBase
  case stack =>
    intro page member
    obtain ⟨held, flags, leaf⟩ := stack page member
    exact ⟨held, flags, toFinal.smallLeaves page held flags leaf⟩
  case heap =>
    intro page inHeap held translated
    exact handOver_heap given inHeap (translations page held translated)
  case heapBytes =>
    intro page inHeap held translated different memory address inside
    have settled :
        Settled held
          (Machine.start newPageTable heap.table heap.allocator idIndex) :=
      settled_heap heapBuilt box inHeap translated different
    exact settled.kept (RunRelation.trans toLoaded toFinal.toConfinedTo)
      inside
  case runtime =>
    intro descriptor listed runtime index inside number numbered free
    apply handOver_runtime given _ _ (onPages_kernelFromElf box.empty built)
      listed runtime inside numbered free
    · rw [isRoot]
      exact box.physical
    · exact fun out => neverOut (out.later toLoaded.advances)
  case memoryMap =>
    apply mapM_values _ looped
    intro descriptor _ result state next turned
    exact handDescriptor_returns turned
  case frameAllocator => rfl
  case tables =>
    intro held stored
    rcases (toLoaded.toGrows.trans toFinal.toGrows).tables held stored with
      before | drawn
    · exact Or.inl (box.stored held before)
    · exact Or.inr drawn

end Handed

end RustKernel.Boot
