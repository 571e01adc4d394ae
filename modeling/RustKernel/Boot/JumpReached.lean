import RustKernel.Boot.BootFiles
import RustKernel.Boot.Jump
import RustKernel.Memory.Supply

/-!
# Runs of the loader that reach the jump

A run stops early when a page that it maps without looking away is taken, when
a descriptor is not physical, or when a frame is missing.  With the pages apart
and with frames throughout, it jumps.
-/

namespace RustKernel.Boot

open RustKernel.BootImage
open RustKernel.Foundations
open RustKernel.Kernel
open RustKernel.Loader
open RustKernel.Machine
open RustKernel.Memory
open RustKernel.Paging

/-- The pages of the runtime services. -/
def runtimePages (map : List FirmwareDescriptor) : List (Page .size4KiB) :=
  (map.filter FirmwareDescriptor.isRuntime).flatMap fun descriptor =>
    (List.range descriptor.size).map fun index =>
      ⟨(descriptor.physicalAddress + index * 4096) / 4096⟩

theorem mem_runtimePages {map : List FirmwareDescriptor}
    {descriptor : FirmwareDescriptor} {index : Nat} (listed : descriptor ∈ map)
    (runtime : descriptor.isRuntime = true) (inside : index < descriptor.size) :
    (⟨(descriptor.physicalAddress + index * 4096) / 4096⟩ : Page .size4KiB) ∈
      runtimePages map := by
  refine List.mem_flatMap.mpr ⟨descriptor, ?_, ?_⟩
  · exact List.mem_filter.mpr ⟨listed, runtime⟩
  · exact List.mem_map.mpr ⟨index, List.mem_range.mpr inside, rfl⟩

/-- Every page that is mapped before the heap is. -/
def pagesBesideHeap (map : List FirmwareDescriptor) (kernel : ElfFile)
    (stackStart stackEnd mem : Nat) (root : PhysFrame .size4KiB) :
    List AnyPage :=
  kernelReserved (plainMap map) stackStart stackEnd mem ++
    (kernelPages kernel).map smallPage ++
      (identityPage root :: runtimePages map).map smallPage

/-- The memory map, the kernel and the stack of the loader are such that no
mapping with an `expect` meets another one. -/
structure Bootable (map : List FirmwareDescriptor) (kernel : ElfFile)
    (stackStart stackEnd mem : Nat) (root : PhysFrame .size4KiB) : Prop where
  window : ValidWindow mem
  code :
    ∃ frames, kernelCodeFrames (plainMap map) = .ok frames ∧
      ∀ frame ∈ frames, frame.startAddress < 2 ^ 48
  stack :
    ∃ frames, kernelStackFrames stackStart stackEnd = .ok frames ∧
      ∀ frame ∈ frames, frame.startAddress < 2 ^ 48
  setup :
    (kernelReserved (plainMap map) stackStart stackEnd mem).Pairwise
      fun left right => Apart left.2 right.2
  loadable : Loadable kernel
  rootLow : root.startAddress < 2 ^ 48
  runtime :
    ∀ descriptor ∈ map, descriptor.isRuntime = true →
      descriptor.physicalAddress + descriptor.size * 4096 ≤ 2 ^ 48
  heap :
    ∀ page ∈ heapPages 0,
      ∀ mapped ∈ pagesBesideHeap map kernel stackStart stackEnd mem root,
        Apart mapped.2 page

section Loops

variable {T C : Type} [Mapper T] [Mapper C]
variable {map : List FirmwareDescriptor} {state final : Machine T C}

theorem heapRange_boot : heapRange 0 = .ok (heapPages 0) := rfl

theorem descriptorFrame_of_fits {descriptor : FirmwareDescriptor}
    {index : Nat} (inside : index < descriptor.size)
    (fits : descriptor.physicalAddress + descriptor.size * 4096 ≤ 2 ^ 48) :
    ∃ frame : PhysFrame .size4KiB,
      descriptorFrame descriptor index = .ok frame ∧
        frame.startAddress < 2 ^ 48 := by
  have below : descriptor.physicalAddress + index * 4096 < 2 ^ 48 := by omega
  have offset : checkedMul index 4096 = .ok (index * 4096) :=
    checkedMul_eq_ok.mpr ⟨by unfold wordSize; omega, rfl⟩
  have sum :
      checkedAdd descriptor.physicalAddress (index * 4096) =
        .ok (descriptor.physicalAddress + index * 4096) :=
    checkedAdd_eq_ok.mpr ⟨by unfold wordSize; omega, rfl⟩
  have created :
      PhysAddr.new (descriptor.physicalAddress + index * 4096) =
        .ok ⟨descriptor.physicalAddress + index * 4096, by omega⟩ :=
    PhysAddr.new_eq_ok.mpr rfl
  refine ⟨PhysFrame.containingAddress
    ⟨descriptor.physicalAddress + index * 4096, by omega⟩, ?_, ?_⟩
  · unfold descriptorFrame
    rw [offset]
    simp only [bind, Except.bind, sum, created]
    rfl
  · exact Nat.lt_of_le_of_lt (Nat.div_mul_le_self _ _) below

omit [Mapper C] in
theorem mapRuntimePages_returns {descriptor : FirmwareDescriptor}
    (fits : descriptor.physicalAddress + descriptor.size * 4096 ≤ 2 ^ 48)
    (state : Machine T C) :
    ∃ final,
      ((List.range descriptor.size).forM (mapRuntimePage descriptor)).run
        state = .ok () final := by
  have turn :
      ∀ index ∈ List.range descriptor.size, ∀ middle : Machine T C,
        ∃ next,
          (mapRuntimePage descriptor index).run middle = .ok () next := by
    intro index inside middle
    obtain ⟨frame, computed, below⟩ :=
      descriptorFrame_of_fits (List.mem_range.mp inside) fits
    refine ⟨middle.mapped (identityPage frame) frame presentOnly, ?_⟩
    unfold mapRuntimePage
    rw [computed, bind_run_of_ok _ (ofExcept_run (.ok frame) middle)]
    exact identityMapNew_run below middle
  generalize List.range descriptor.size = indices at turn
  induction indices generalizing state with
  | nil => exact ⟨state, rfl⟩
  | cons index rest inductionHypothesis =>
      obtain ⟨middle, begun⟩ := turn index List.mem_cons_self state
      obtain ⟨final, ended⟩ :=
        inductionHypothesis middle fun later member =>
          turn later (List.mem_cons_of_mem index member)
      exact ⟨final, forM_cons_run_ok.mpr ⟨middle, begun, ended⟩⟩

omit [Mapper C] in
theorem handMap_returns
    (fits :
      ∀ descriptor ∈ map, descriptor.isRuntime = true →
        descriptor.physicalAddress + descriptor.size * 4096 ≤ 2 ^ 48)
    (state : Machine T C) :
    ∃ handed final,
      (map.mapM handDescriptor).run state = .ok handed final := by
  induction map generalizing state with
  | nil => exact ⟨[], state, rfl⟩
  | cons descriptor rest inductionHypothesis =>
      have first :
          ∃ value middle,
            (handDescriptor descriptor).run state = .ok value middle := by
        unfold handDescriptor
        split
        · next runtime =>
            obtain ⟨middle, looped⟩ :=
              mapRuntimePages_returns
                (fits descriptor List.mem_cons_self runtime) state
            rw [bind_run_of_ok _ looped]
            exact ⟨_, middle, rfl⟩
        · exact ⟨descriptor, state, rfl⟩
      obtain ⟨value, middle, begun⟩ := first
      obtain ⟨later, final, looped⟩ :=
        inductionHypothesis
          (fun other member => fits other (List.mem_cons_of_mem _ member))
          middle
      exact ⟨value :: later, final,
        mapM_cons_run_ok.mpr ⟨value, later, middle, begun, looped, rfl⟩⟩

variable [LawfulMapper T]
variable {start : FrameAllocator} {pages : List AnyPage}

omit [Mapper C] in
theorem onPages_identityMapped {frame : PhysFrame .size4KiB}
    {flags : PageTableFlags} (present : flags.present = true)
    (leaves : LeavesIn (onPages pages) start state)
    (listed : smallPage (identityPage frame) ∈ pages) :
    LeavesIn (onPages pages) start
      (state.mapped (identityPage frame) frame flags) :=
  leaves.mapped present (fun _ => listed) fun _ _ _ _ _ _ _ held => held

omit [Mapper C] in
theorem onPages_handMap {handed : List FirmwareDescriptor}
    (listed : ∀ page ∈ runtimePages map, smallPage page ∈ pages)
    (returned : (map.mapM handDescriptor).run state = .ok handed final)
    (leaves : LeavesIn (onPages pages) start state) :
    LeavesIn (onPages pages) start final := by
  refine mapM_invariant (LeavesIn (onPages pages) start) ?_ leaves returned
  intro descriptor member value before after leaves turned
  unfold handDescriptor at turned
  split at turned
  · next runtime =>
      rw [bind_run_ok] at turned
      obtain ⟨_, middle, looped, closed⟩ := turned
      rw [pure_run_ok] at closed
      obtain ⟨_, rfl⟩ := closed
      refine forM_invariant (LeavesIn (onPages pages) start) ?_ leaves looped
      intro index inside earlier later leaves mapped
      obtain ⟨frame, isFrame, rfl⟩ := mapRuntimePage_run_ok mapped
      apply onPages_identityMapped rfl leaves
      apply listed
      unfold identityPage
      rw [isFrame]
      exact mem_runtimePages member runtime (List.mem_range.mp inside)
  · rw [pure_run_ok] at turned
    exact turned.2 ▸ leaves

theorem onPages_handOver {frame : PhysFrame .size4KiB}
    {handed : List FirmwareDescriptor} {pointer : Nat}
    (physical : frame.startAddress < 2 ^ 52)
    (root : smallPage (identityPage frame) ∈ pages)
    (runtimes : ∀ page ∈ runtimePages map, smallPage page ∈ pages)
    (heap : ∀ page ∈ heapPages 0, smallPage page ∈ pages)
    (returned :
      (handOver map pointer).run state = .ok (frame, handed) final)
    (leaves : LeavesIn (onPages pages) start state) :
    LeavesIn (onPages pages) start final := by
  obtain ⟨rooted, mapped, _, _, rooting, looped, formed, shared⟩ :=
    handOver_run_ok.mp returned
  obtain ⟨_, rfl⟩ := (identityMapNew_run_ok physical).mp rooting
  have leaves :=
    onPages_handMap runtimes looped (onPages_identityMapped rfl leaves root)
  rw [heapRange_boot] at formed
  cases formed
  refine forM_invariant (LeavesIn (onPages pages) start) ?_ leaves shared
  intro page member before after leaves turned
  rcases shareHeapPage_run_ok.mp turned with ⟨held, _, _, rfl⟩ | ⟨_, rfl⟩
  · exact leaves.mapped rfl (fun _ => heap page member)
      fun _ _ _ _ _ _ _ held => held
  · exact leaves

/-- Free pages of the heap are shared. -/
theorem completes_shareHeapPages {list : List (Page .size4KiB)}
    (free : Free state (list.map smallPage)) :
    Completes (list.forM shareHeapPage) state [] := by
  refine completes_forM smallPage ?_ ?_ (by simpa using free)
  · intro page _ before later free
    unfold shareHeapPage Completes
    rw [bind_run_of_ok _ (get_run before)]
    cases translatePage before.current page with
    | none =>
        exact Or.inl ⟨before, rfl, (List.pairwise_cons.mp free.apart).2,
          fun other member => free.unmapped other (by simp [member])⟩
    | some frame => exact completes_mapOrPanic free _ frame rfl
  · intro page state
    exact (handsOver_shareHeapPage page state).toGrows

end Loops

/-! ## What the loader draws -/

section Budget

variable {T C : Type} [Mapper T] [Mapper C] [LawfulMapper T]

/-- The frames that the tables for a descriptor need at most. -/
def runtimeBudget (descriptor : FirmwareDescriptor) : Nat :=
  if descriptor.isRuntime then descriptor.size * 3 else 0

/-- The frames that `run` needs behind `kernel_from_elf`. -/
def handOverBudget (map : List FirmwareDescriptor) : Nat :=
  3 + ((map.map runtimeBudget).sum + (heapPages 0).length * 3)

omit [Mapper C] in
theorem costs_identityMapNew (frame : PhysFrame .size4KiB)
    {flags : PageTableFlags} (present : flags.present = true) :
    CostsAtMost (Machine.drawn (T := T) (C := C)) 3
      (identityMapNew frame flags) := by
  apply CostsAtMost.ofExcept_bind
  intro address _
  exact CostsAtMost.bind_free (costs_mapNew _ frame present) fun _ =>
    CostsAtMost.pure ()

omit [Mapper C] in
theorem costs_handDescriptor (descriptor : FirmwareDescriptor) :
    CostsAtMost (Machine.drawn (T := T) (C := C)) (runtimeBudget descriptor)
      (handDescriptor descriptor) := by
  unfold handDescriptor runtimeBudget
  split
  · refine CostsAtMost.bind_free ?_ fun _ => CostsAtMost.pure _
    have turns :
        CostsAtMost (Machine.drawn (T := T) (C := C))
          ((List.range descriptor.size).length * 3)
          ((List.range descriptor.size).forM (mapRuntimePage descriptor)) := by
      apply CostsAtMost.forM
      intro index _
      apply CostsAtMost.ofExcept_bind
      intro frame _
      exact costs_identityMapNew frame rfl
    rwa [List.length_range] at turns
  · exact CostsAtMost.pure descriptor

theorem costs_shareHeapPage (page : Page .size4KiB) :
    CostsAtMost (Machine.drawn (T := T) (C := C)) 3 (shareHeapPage page) := by
  intro state
  rw [shareHeapPage, bind_run_of_ok _ (get_run state)]
  cases translatePage state.current page with
  | none => exact Nat.le_add_right _ _
  | some frame => exact costs_mapOrPanic _ page frame rfl state

theorem costs_handOver (map : List FirmwareDescriptor) (pointer : Nat) :
    CostsAtMost (Machine.drawn (T := T) (C := C)) (handOverBudget map)
      (handOver map pointer) := by
  intro state
  rw [handOver, bind_run_of_ok _ (get_run state)]
  refine CostsAtMost.ofExcept_bind ?_ state
  intro frame _
  apply CostsAtMost.bind (costs_identityMapNew frame rfl)
  intro _
  apply CostsAtMost.bind
    (CostsAtMost.mapM fun descriptor _ => costs_handDescriptor descriptor)
  intro handed
  rw [heapRange_boot]
  apply CostsAtMost.ofExcept_bind
  intro pages formed
  cases formed
  refine CostsAtMost.bind_free ?_ fun _ => CostsAtMost.pure _
  exact CostsAtMost.forM fun page _ => costs_shareHeapPage page

end Budget

/-! ## The jump -/

section Reached

variable {T C : Type} [Mapper T] [Mapper C] [LawfulMapper T] [LawfulMapper C]
variable {map : List FirmwareDescriptor} {kernel : ElfFile}
variable {pointer stackStart stackEnd mem : Nat}
variable {root : PhysFrame .size4KiB}
variable {start loaded : Machine T C} {process : Process T}

/-- Behind `kernel_from_elf` the run stops for want of a frame only. -/
theorem handOver_completes
    (bootable : Bootable map kernel stackStart stackEnd mem root)
    (empty : Empty start.table)
    (built :
      (kernelFromElf (plainMap map) kernel stackStart stackEnd mem).run
        start = .ok process loaded)
    (located : tableFrame loaded.current pointer = .ok root) :
    (∃ handed final, (handOver map pointer).run loaded = .ok handed final) ∨
      ∃ fault final, (handOver map pointer).run loaded = .error fault final ∧
        loaded.allocator.Answered final.allocator none := by
  have leaves :
      LeavesIn
        (onPages
          (pagesBesideHeap map kernel stackStart stackEnd mem root))
        start.allocator loaded :=
    (onPages_kernelFromElf empty built).mono
      fun _ _ _ _ _ listed => List.mem_append_left _ listed
  have behind (page : Page .size4KiB)
      (listed : page ∈ identityPage root :: runtimePages map) :
      smallPage page ∈
        pagesBesideHeap map kernel stackStart stackEnd mem root :=
    List.mem_append_right _ (List.mem_map_of_mem listed)
  have rooting :
      (identityMapNew root presentWritable).run loaded =
        .ok () (loaded.mapped (identityPage root) root presentWritable) :=
    identityMapNew_run bootable.rootLow loaded
  have rooted :
      LeavesIn
        (onPages
          (pagesBesideHeap map kernel stackStart stackEnd mem root))
        start.allocator
        (loaded.mapped (identityPage root) root presentWritable) :=
    onPages_identityMapped rfl leaves (behind _ List.mem_cons_self)
  obtain ⟨handed, mapped, looped⟩ :=
    handMap_returns bootable.runtime
      (loaded.mapped (identityPage root) root presentWritable)
  have leaves :=
    onPages_handMap (fun page member => behind page (by simp [member]))
      looped rooted
  have free : Free mapped ((heapPages 0).map smallPage) := by
    refine ⟨apart_of_nodup (Page.rangeInclusive_nodup _ _), ?_⟩
    intro page member
    obtain ⟨small, listed, rfl⟩ := List.mem_map.mp member
    exact unmapped_of_onPages leaves (bootable.heap small listed)
  have toRooted : HandsOver loaded
      (loaded.mapped (identityPage root) root presentWritable) :=
    handsOver_mapped _ root rfl loaded
  have toMapped :
      HandsOver (loaded.mapped (identityPage root) root presentWritable)
        mapped :=
    (Preserves.mapM fun descriptor _ =>
      handsOver_handDescriptor descriptor).of_run_ok looped
  rw [handOver, bind_run_of_ok _ (get_run loaded), located,
    bind_run_of_ok _ (ofExcept_run (.ok root) loaded),
    bind_run_of_ok _ rooting, bind_run_of_ok _ looped, heapRange_boot,
    bind_run_of_ok _ (ofExcept_run (.ok (heapPages 0)) mapped)]
  rcases completes_shareHeapPages free with
    ⟨final, shared, _⟩ | ⟨fault, final, stopped, out⟩
  · rw [bind_run_of_ok _ shared]
    exact Or.inl ⟨_, final, rfl⟩
  · rw [bind_run, stopped]
    exact Or.inr ⟨fault, final, rfl,
      out.later (toRooted.advances.trans toMapped.advances)⟩

/-- The frames that `run` needs at most. -/
def runBudget (map : List FirmwareDescriptor) (kernel : ElfFile)
    (stackStart stackEnd mem : Nat) : Nat :=
  kernelFromElfBudget (plainMap map) kernel stackStart stackEnd mem +
    handOverBudget map

end Reached

section Jumps

variable {T C : Type} [StoredMapper T] [StoredMapper C]
variable [LawfulMapper T] [LawfulMapper C]
variable [LawfulStoredMapper T] [LawfulStoredMapper C]
variable {map : List FirmwareDescriptor} {kernel : ElfFile}
variable {pointer stackStart stackEnd mem : Nat}
variable {root : PhysFrame .size4KiB}
variable {allocator : FrameAllocator} {heap : HeapMachine C}
variable {newPageTable : T}

/-- With the frames of its budget the loader jumps. -/
theorem run_returns {bootImage : BootImageFS}
    {bootImageAddress idIndex : Nat}
    (fresh :
      Fresh (Machine.start newPageTable heap.table heap.allocator idIndex))
    (ready :
      ∀ index frame, heap.allocator.drawn ≤ index →
        heap.allocator.answers index = some frame →
          IdentityReady heap.table frame)
    (box : TableBox heap.table newPageTable pointer root)
    (found : findKernel bootImage = .ok (some kernel))
    (summed : getMemSize (plainMap map) = .ok mem)
    (fits : ∀ header ∈ kernel.loadHeaders, FitsFrame header)
    (bootable : Bootable map kernel stackStart stackEnd mem root)
    (enough :
      (Machine.start newPageTable heap.table heap.allocator
        idIndex).Supplied (runBudget map kernel stackStart stackEnd mem)) :
    ∃ jump final,
      (run map bootImage bootImageAddress stackStart stackEnd pointer).run
          (Machine.start newPageTable heap.table heap.allocator idIndex) =
        .ok jump final ∧
      final.allocator.drawn ≤ heap.allocator.drawn +
        runBudget map kernel stackStart stackEnd mem := by
  obtain ⟨codeFrames, code, codeLow⟩ := bootable.code
  obtain ⟨stackFrames, stack, stackLow⟩ := bootable.stack
  have loading :
      (Machine.start newPageTable heap.table heap.allocator idIndex).Supplied
        (kernelFromElfBudget (plainMap map) kernel stackStart stackEnd
          mem) := by
    intro index lower upper
    exact enough index lower (by unfold runBudget; omega)
  have clear := clear_start fresh ready
  have completes :=
    completes_of_refines
      (refines_kernelFromElf (plainMap map) stackStart stackEnd mem fits)
      clear
      (kernelFromElf_completes bootable.window code stack codeLow stackLow
        bootable.loadable (free_of_empty box.empty bootable.setup))
  obtain ⟨process, loaded, copied, loadedWithin⟩ :=
    loading.returns (costs_throughActive.kernelFromElf bootable.loadable)
      completes
  obtain ⟨built, _⟩ :=
    (refines_kernelFromElf (plainMap map) stackStart stackEnd mem
      fits).of_run_ok clear copied
  have toLoaded := confined_kernelFromElf fits built
  have translations :
      KeepsTranslations
        (Machine.start newPageTable heap.table heap.allocator idIndex)
        loaded :=
    keepsTranslations_kernelFromElf.of_run_ok built
  have located : tableFrame loaded.current pointer = .ok root :=
    tableFrame_of_box box (translations _ _ box.translated)
  obtain ⟨⟨frame, handed⟩, final, given, finalWithin⟩ :=
    (enough.later toLoaded.advances loadedWithin).returns
      (costs_handOver map pointer)
      (lost_of_out (handOver_completes bootable box.empty built located))
  refine ⟨_, final, run_run_ok.mpr ⟨kernel, mem, process, loaded, frame,
    handed, found, summed, copied, given, rfl⟩, ?_⟩
  simp only [Machine.start] at loadedWithin
  unfold runBudget
  omega

/-- The loader maps nothing for the kernel but the pages of the setup, of the
kernel, of the runtime services and of the heap, and the one of the table. -/
theorem run_unmapped {bootImage : BootImageFS} {final : Machine T C}
    {bootImageAddress idIndex : Nat} {jump : KernelEntry}
    {page : Page .size4KiB}
    (fresh :
      Fresh (Machine.start newPageTable heap.table heap.allocator idIndex))
    (ready :
      ∀ index frame, heap.allocator.drawn ≤ index →
        heap.allocator.answers index = some frame →
          IdentityReady heap.table frame)
    (box : TableBox heap.table newPageTable pointer root)
    (found : findKernel bootImage = .ok (some kernel))
    (summed : getMemSize (plainMap map) = .ok mem)
    (fits : ∀ header ∈ kernel.loadHeaders, FitsFrame header)
    (returned :
      (run map bootImage bootImageAddress stackStart stackEnd pointer).run
          (Machine.start newPageTable heap.table heap.allocator idIndex) =
        .ok jump final)
    (beside :
      ∀ mapped ∈ pagesBesideHeap map kernel stackStart stackEnd mem root,
        Apart mapped.2 page)
    (offHeap : ∀ mapped ∈ heapPages 0, Apart mapped page) :
    Unmapped final.table page := by
  obtain ⟨process, loaded, frame, handed, built, given, _⟩ :=
    run_built fresh ready found summed fits returned
  have translations :
      KeepsTranslations
        (Machine.start newPageTable heap.table heap.allocator idIndex)
        loaded :=
    keepsTranslations_kernelFromElf.of_run_ok built
  obtain ⟨_, _, _, located, _⟩ := handOver_run_ok.mp given
  rw [tableFrame_of_box box (translations _ _ box.translated),
    Except.ok.injEq] at located
  subst located
  have leaves :
      LeavesIn
        (onPages
          (pagesBesideHeap map kernel stackStart stackEnd mem root ++
            (heapPages 0).map smallPage))
        heap.allocator loaded :=
    (onPages_kernelFromElf box.empty built).mono fun _ _ _ _ _ listed =>
      List.mem_append_left _ (List.mem_append_left _ listed)
  have behind (other : Page .size4KiB)
      (listed : other ∈ identityPage root :: runtimePages map) :
      smallPage other ∈
        pagesBesideHeap map kernel stackStart stackEnd mem root ++
          (heapPages 0).map smallPage :=
    List.mem_append_left _
      (List.mem_append_right _ (List.mem_map_of_mem listed))
  have leaves :=
    onPages_handOver box.physical (behind _ List.mem_cons_self)
      (fun other member => behind other (List.mem_cons_of_mem _ member))
      (fun other member =>
        List.mem_append_right _ (List.mem_map_of_mem member))
      given leaves
  apply unmapped_of_onPages leaves
  intro mapped listed
  rcases List.mem_append.mp listed with early | late
  · exact beside mapped early
  · obtain ⟨small, member, rfl⟩ := List.mem_map.mp late
    exact offHeap small member

end Jumps

/-! ## A kernel of one page -/

section Resident

/-- Two pages of runtime services, 128 MiB for the loader, and memory above
them for the processes. -/
def residentMap : List FirmwareDescriptor :=
  [⟨⟨.loaderCode, 0x100000, 0, 0⟩, 0⟩,
    ⟨⟨.runtimeServicesData, 0x300000, 0, 2⟩, 0x8000000000000000⟩,
    ⟨⟨.conventional, 0x1000000, 0, 0x8000⟩, 0⟩,
    ⟨⟨.conventional, 0x10000000, 0, 1⟩, 0⟩,
    ⟨⟨.conventional, 0x11000000, 0, 2048⟩, 0⟩]

def residentMemory : Nat := 0x8803000

theorem getMemSize_residentMap :
    getMemSize (plainMap residentMap) = .ok residentMemory := by
  decide

def residentSupply : FrameAllocator :=
  supply (usableFrames (plainMap residentMap))

theorem usableFrames_residentMap :
    usableFrames (plainMap residentMap) =
      (List.range' 0x1000 0x8000 ++
        (List.range' 0x10000 1 ++ List.range' 0x11000 2048)).map
          PhysFrame.mk := by
  have usable :
      usableDescriptors (plainMap residentMap) =
        [⟨.conventional, 0x1000000, 0, 0x8000⟩,
          ⟨.conventional, 0x10000000, 0, 1⟩,
          ⟨.conventional, 0x11000000, 0, 2048⟩] := rfl
  rw [usableFrames, usable, List.map_append, List.map_append]
  simp only [List.flatMap_cons, List.flatMap_nil, List.append_nil]
  rfl

theorem answers_residentSupply {index : Nat} (small : index < 0x8000) :
    residentSupply.answers index = some ⟨0x1000 + index⟩ := by
  change (usableFrames (plainMap residentMap))[index]? = _
  rw [usableFrames_residentMap, List.getElem?_map,
    List.getElem?_append_left (by rwa [List.length_range']),
    List.getElem?_range' small]
  simp

theorem number_residentSupply {index : Nat} {frame : PhysFrame .size4KiB}
    (given : residentSupply.answers index = some frame) :
    0x1000 ≤ frame.number ∧ frame.number < 0x11800 := by
  have listed := List.mem_of_getElem? given
  rw [usableFrames_residentMap] at listed
  obtain ⟨number, inRange, rfl⟩ := List.mem_map.mp listed
  simp only [List.mem_append, List.mem_range'_1] at inRange
  simp only
  omega

theorem residentSupply_once : NeverTwice residentSupply.answers := by
  apply neverTwice_supply
  apply usableFrames_nodup <;> decide

/-- The pages of the setup do not depend on the size of a small memory. -/
theorem kernelReserved_residentMap :
    kernelReserved (plainMap residentMap) 0x200000 0x200000 residentMemory =
      kernelReserved bootDescriptors 0x200000 0x200000 0 := by
  have pages : windowPages residentMemory = windowPages 0 := by
    rw [windowPages, windowFrames_small (by decide), windowPages]
  have code :
      kernelCodeFrames (plainMap residentMap) =
        kernelCodeFrames bootDescriptors := by
    decide
  rw [kernelReserved, kernelReserved, pages, kernelSmallPages, code,
    kernelSmallPages]

/-- Pages below the heap and above it are apart from it. -/
theorem apart_of_outside_heap {mapped : AnyPage} {page : Page .size4KiB}
    (inHeap : page ∈ heapPages 0)
    (outside :
      (mapped.2.number + 1) * mapped.1.bytes ≤ heapStart ∨
        heapStart + heapSize ≤ mapped.2.number * mapped.1.bytes) :
    Apart mapped.2 page := by
  obtain ⟨address, lower, upper, inPage⟩ := mem_heapPages.mp inHeap
  have startAligned : heapStart % 4096 = 0 := by decide
  have endAligned : (heapStart + heapSize) % 4096 = 0 := by decide
  have bytes : PageSize.size4KiB.bytes = 4096 := rfl
  unfold Apart
  rw [bytes]
  rcases outside with below | above
  · exact Or.inl (by omega)
  · exact Or.inr (by omega)

/-- The page of the table apart, what is mapped beside the heap. -/
def residentPages : List AnyPage :=
  kernelReserved bootDescriptors 0x200000 0x200000 0 ++
    [smallPage ⟨0x800⟩, smallPage ⟨0x300⟩, smallPage ⟨0x301⟩]

theorem mem_pagesBesideHeap_residentMap {root : PhysFrame .size4KiB}
    {mapped : AnyPage}
    (listed :
      mapped ∈ pagesBesideHeap residentMap residentElf 0x200000 0x200000
        residentMemory root) :
    mapped ∈ residentPages ∨ mapped = smallPage (identityPage root) := by
  have runtimes : runtimePages residentMap = [⟨0x300⟩, ⟨0x301⟩] := rfl
  rw [pagesBesideHeap, kernelReserved_residentMap, kernelPages_residentElf,
    runtimes] at listed
  simp only [List.map_cons, List.map_nil, List.append_assoc,
    List.mem_append, List.mem_cons, List.not_mem_nil, or_false] at listed
  simp only [residentPages, List.mem_append, List.mem_cons, List.not_mem_nil,
    or_false]
  tauto

theorem bootable_residentMap {root : PhysFrame .size4KiB}
    (inSupply : 0x1000 ≤ root.number ∧ root.number < 0x3800) :
    Bootable residentMap residentElf 0x200000 0x200000 residentMemory
      root where
  window := by
    constructor
    · rw [windowFrames_small (by decide)]
      exact bootWindow_valid.frames
    · rw [windowFrames_small (by decide)]
      exact bootWindow_valid.pages
  code := ⟨[⟨0x100⟩], by decide, by decide⟩
  stack := ⟨[⟨0x200⟩], by decide, by decide⟩
  setup := by
    have code : kernelCodeFrames bootDescriptors = .ok [⟨0x100⟩] := by decide
    have stack : kernelStackFrames 0x200000 0x200000 = .ok [⟨0x200⟩] := by
      decide
    rw [kernelReserved_residentMap, kernelReserved, kernelSmallPages, code,
      stack]
    apply bootPages_apart <;> decide
  loadable := loadable_layOut residentTable
  rootLow := by
    simp only [PhysFrame.startAddress, PageSize.bytes]
    omega
  runtime := by decide
  heap := by
    have setup :
        ∀ mapped ∈ residentPages,
          (mapped.2.number + 1) * mapped.1.bytes ≤ heapStart ∨
            heapStart + heapSize ≤ mapped.2.number * mapped.1.bytes := by
      decide +kernel
    intro page inHeap mapped listed
    apply apart_of_outside_heap inHeap
    rcases mem_pagesBesideHeap_residentMap listed with early | rfl
    · exact setup mapped early
    · have first : heapStart = 0x30000000000 := by decide
      simp only [smallPage, identityPage, PageSize.bytes]
      omega

/-- The last region of the map is apart from what is mapped beside the
heap. -/
theorem apart_of_lastRegion {root : PhysFrame .size4KiB} {mapped : AnyPage}
    {page : Page .size4KiB} (rootLow : root.number < 0x3800)
    (listed :
      mapped ∈ pagesBesideHeap residentMap residentElf 0x200000 0x200000
        residentMemory root)
    (inRegion : 0x11000 ≤ page.number ∧ page.number < 0x11800) :
    Apart mapped.2 page := by
  have setup :
      ∀ mapped ∈ residentPages,
        (mapped.2.number + 1) * mapped.1.bytes ≤ 0x11000000 ∨
          0x11800000 ≤ mapped.2.number * mapped.1.bytes := by
    decide +kernel
  have bytes : PageSize.size4KiB.bytes = 4096 := rfl
  have outside :
      (mapped.2.number + 1) * mapped.1.bytes ≤ 0x11000000 ∨
        0x11800000 ≤ mapped.2.number * mapped.1.bytes := by
    rcases mem_pagesBesideHeap_residentMap listed with early | rfl
    · exact setup mapped early
    · simp only [smallPage, identityPage, PageSize.bytes]
      omega
  unfold Apart
  rw [bytes]
  omega

theorem residentElf_apart :
    SegmentsApart residentElf
      (kernelReserved (plainMap residentMap) 0x200000 0x200000
        residentMemory) := by
  have headers : residentElf.loadHeaders = [residentHeader] :=
    ElfFile.loadHeaders_layOut residentTable
  constructor
  case short => decide
  case sizes => rw [headers]; decide
  case aligned => rw [headers]; decide
  case within => rw [headers]; decide
  case disjoint => rw [headers]; exact List.pairwise_singleton _ _
  case reserved =>
    rw [headers, kernelReserved_residentMap]
    decide +kernel

/-- The loader with the table of the firmware. -/
def residentLoader : HeapMachine RadixTable :=
  ⟨RadixTable.new ⟨0x801⟩, residentSupply, none⟩

/-- The state of the loader when the heap is mapped, with the new table in its
first page. -/
structure ResidentBoot (heap : HeapMachine RadixTable)
    (root : PhysFrame .size4KiB) : Prop where
  heapMade : (initHeapNew 0 false).run residentLoader = .ok (.ok ()) heap
  box : TableBox heap.table (RadixTable.new root) heapStart root
  begun : 0 < heap.allocator.drawn
  drawn : heap.allocator.drawn ≤ 0x2800
  answers : heap.allocator.answers = residentSupply.answers
  inSupply : 0x1000 ≤ root.number ∧ root.number < 0x3800
  low :
    ∀ page : Page .size4KiB, page.number < 0x11800 →
      Unmapped heap.table page

/-- The addresses of the memory lie below the heap. -/
theorem apart_of_low {mapped page : Page .size4KiB}
    (inHeap : mapped ∈ heapPages 0) (low : page.number < 0x11800) :
    Apart mapped page := by
  rw [apart_iff_ne]
  rintro rfl
  obtain ⟨address, lower, _, inPage⟩ := mem_heapPages.mp inHeap
  have first : heapStart = 0x30000000000 := by decide
  omega

theorem residentBoot_exists : ∃ heap root, ResidentBoot heap root := by
  have pages : (heapPages 0).length * (1 + 3) = 0x2800 := by decide +kernel
  have enough :
      residentLoader.Supplied ((heapPages 0).length * (1 + 3)) := by
    intro index _ upper
    rw [pages] at upper
    have small : index < 0x8000 := by
      change index < 0 + 0x2800 at upper
      omega
    change residentSupply.answers index ≠ none
    rw [answers_residentSupply small]
    simp
  have free : ∀ page ∈ heapPages 0, Unmapped residentLoader.table page :=
    fun page _ => unmapped_of_empty (RadixTable.new_empty _) page
  have returns :
      ∃ heap,
        (initHeapNew 0 false).run residentLoader = .ok (.ok ()) heap ∧
        residentLoader.allocator.Advances heap.allocator ∧
        heap.allocator.drawn ≤
          residentLoader.allocator.drawn + (heapPages 0).length * (1 + 3) ∧
        ∀ page ∈ heapPages 0, ∃ frame,
          residentLoader.allocator.Answered heap.allocator (some frame) ∧
            translatePage heap.table page = some frame :=
    initHeapNew_within heapRange_boot (by decide) free enough
  obtain ⟨heap, returned, advances, within, maps⟩ := returns
  have inHeap : firstHeapPage ∈ heapPages 0 :=
    mem_heapPages.mpr ⟨heapStart, by simp, by decide, rfl⟩
  obtain ⟨root, ⟨index, _, upper, given⟩, translated⟩ :=
    maps firstHeapPage inHeap
  rw [pages] at within
  have few : heap.allocator.drawn ≤ 0x2800 :=
    Nat.le_trans within (Nat.le_of_eq (Nat.zero_add _))
  have inSupply : 0x1000 ≤ root.number ∧ root.number < 0x3800 := by
    rw [residentLoader, answers_residentSupply (by omega),
      Option.some.injEq] at given
    subst given
    simp only
    omega
  refine ⟨heap, root, returned, ⟨RadixTable.new_empty _, ?_, ?_, by decide,
    inHeap, translated⟩, by omega, few, advances.answers_eq, inSupply, ?_⟩
  · exact fun frame stored => RadixTable.mem_tableFrames_new.mp stored
  · simp only [PhysFrame.startAddress, PageSize.bytes]
    omega
  · intro page low
    exact initHeapNew_unmapped_kept heapRange_boot
      (unmapped_of_empty (RadixTable.new_empty _) page)
      (fun mapped member => apart_of_low member low) returned

theorem runBudget_residentMap :
    runBudget residentMap residentElf 0x200000 0x200000 residentMemory =
      0x2220 := by
  have window : (listOf (windowFrames residentMemory)).length = 1 := by
    rw [windowFrames_small (by decide)]
    decide
  have stack : getStack.length = 257 := by decide +kernel
  have code :
      (listOf (kernelCodeFrames (plainMap residentMap))).length = 1 := by
    decide
  have kernelStack :
      (listOf (kernelStackFrames 0x200000 0x200000)).length = 1 := by
    decide
  have program : (turns residentElf).length = 1 := by
    unfold turns residentElf
    rw [ElfFile.loadHeaders_layOut residentTable]
    rfl
  have heap : (heapPages 0).length = 2560 := by decide +kernel
  have runtimes : (residentMap.map runtimeBudget).sum = 6 := by decide
  rw [runBudget, kernelFromElfBudget, handOverBudget, window, stack, code,
    kernelStack, program, heap, runtimes]

/-- The kernel and a driver, in one image. -/
def residentFiles : List (List Char × List UInt8) :=
  [("kernel".toList, residentElf.data), ("libpci.a".toList, guestElf.data)]

theorem residentImage_exists :
    ∃ output, generate (residentFiles.map inputFile) = .ok output ∧
      findKernel ⟨output.contents⟩ = .ok (some residentElf) ∧
      startFiles ⟨output.contents⟩ = .ok (residentElf, guestElf) := by
  have generates :
      ∃ output, generate (residentFiles.map inputFile) = .ok output ∧
        Lists ⟨output.contents⟩
          (plannedHeaders (residentFiles.map inputFile) contentStart)
          ((residentFiles.map inputFile).map InputFile.contents) :=
    lists_generate (by decide) (by decide +kernel) (by decide +kernel)
  obtain ⟨output, generated, lists⟩ := generates
  obtain ⟨texts, names⟩ :
      ∃ texts,
        (plannedHeaders (residentFiles.map inputFile) contentStart).mapM
          FileHeader.nameText = .ok texts :=
    plannedNames_iff.mpr (by decide)
  refine ⟨output, generated, ?_, ?_⟩
  · rw [lists.findKernel, names]
    rfl
  · rw [lists.startFiles, names]
    rfl

theorem ResidentBoot.supplied {heap : HeapMachine RadixTable}
    {root : PhysFrame .size4KiB} (boot : ResidentBoot heap root) :
    (Machine.start (RadixTable.new root) heap.table heap.allocator
      0).Supplied
      (runBudget residentMap residentElf 0x200000 0x200000
        residentMemory) := by
  have drawn := boot.drawn
  intro index _ upper
  rw [runBudget_residentMap] at upper
  simp only [Machine.start] at upper ⊢
  refine ⟨⟨0x1000 + index⟩, ?_, ?_⟩
  · rw [boot.answers, answers_residentSupply (by omega)]
  · simp only [PhysFrame.startAddress, PageSize.bytes]
    omega

theorem ResidentBoot.ready {heap : HeapMachine RadixTable}
    {root : PhysFrame .size4KiB} (boot : ResidentBoot heap root)
    (index : Nat) (frame : PhysFrame .size4KiB)
    (_ : heap.allocator.drawn ≤ index)
    (given : heap.allocator.answers index = some frame) :
    IdentityReady heap.table frame := by
  rw [boot.answers] at given
  exact Or.inl (boot.low _ (number_residentSupply given).2)

end Resident

end RustKernel.Boot
