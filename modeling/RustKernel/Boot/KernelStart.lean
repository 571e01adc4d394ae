import RustKernel.Boot.JumpReached
import RustKernel.Kernel.UsableMemory
import RustKernel.Memory.SortedHandoff

/-!
# The kernel behind the jump

The kernel goes on with the table of the loader and with a clone of its
allocator, which gets the map that the loader handed over.  What the loader
has drawn for the kernel stays the kernel's: none of the processes that are
made later gets any of it.
-/

namespace RustKernel.Boot

open RustKernel.BootImage
open RustKernel.Foundations
open RustKernel.Kernel
open RustKernel.Loader
open RustKernel.Machine
open RustKernel.Memory
open RustKernel.Paging
open PageTableFrameAllocator

/-- The map that the kernel gets lists the same regions. -/
theorem sameDescriptors_relocated (map : List FirmwareDescriptor) :
    SameDescriptors (plainMap map)
      (plainMap (map.map FirmwareDescriptor.relocated)) := by
  unfold SameDescriptors plainMap
  rw [List.map_map, List.map_map, List.map_map]
  apply List.map_congr_left
  intro descriptor _
  simp only [Function.comp_apply, FirmwareDescriptor.relocated]
  split <;> rfl

/-- What a supply has answered so far. -/
theorem mem_take_of_answered {frames : List (PhysFrame .size4KiB)}
    {final : FrameAllocator} {frame : PhysFrame .size4KiB}
    (answered : (supply frames).Answered final (some frame)) :
    frame ∈ frames.take final.drawn := by
  obtain ⟨index, _, upper, given⟩ := answered
  apply List.mem_of_getElem? (i := index)
  rw [List.getElem?_take_of_lt upper]
  exact given

/-- A supply that is not exhausted has answered with frames. -/
theorem supply_neverOut {frames : List (PhysFrame .size4KiB)}
    {final : FrameAllocator} (enough : final.drawn ≤ frames.length) :
    ¬ (supply frames).Answered final none := by
  rintro ⟨index, _, upper, out⟩
  have absent := List.getElem?_eq_none_iff.mp out
  omega

/-! ## The first state of the kernel -/

section Start

variable {T C : Type} [StoredMapper T] [Mapper C]
variable {kernel : ElfFile}

/-- The kernel with its table, an allocator and no process. -/
def kernelSpaces (table : T) (allocator : FrameAllocator) :
    AddressSpaces T T :=
  ⟨table, allocator, 0, [], []⟩

/-- A kernel that is resident has booted when its allocator gives none of the
frames that were drawn for it. -/
theorem booted_of_resident {start final : Machine T C}
    {allocator : FrameAllocator}
    (resident : KernelResident kernel start final)
    (tables :
      ∀ frame ∈ tableFrames final.table,
        Spent allocator.answers allocator.drawn frame)
    (drawn :
      ∀ frame, start.allocator.Answered final.allocator (some frame) →
        Spent allocator.answers allocator.drawn frame) :
    (kernelSpaces final.table allocator).Booted kernel where
  noProcess := rfl
  loaded := by
    intro page member
    obtain ⟨header, listed, inRange⟩ := List.mem_flatMap.mp member
    obtain ⟨frame, flags, leaf, _, _⟩ :=
      resident.settled header listed page inRange
    have translated : translatePage final.table page = some frame :=
      translatePage_eq_some.mpr ⟨flags, leaf⟩
    exact Option.isSome_of_eq_some translated
  tablesSpent := tables
  residentSpent := by
    rintro frame ⟨page, member, translated⟩
    obtain ⟨header, listed, inRange⟩ := List.mem_flatMap.mp member
    obtain ⟨held, flags, leaf, settled, answered⟩ :=
      resident.settled header listed page inRange
    have isFrame : translatePage final.table page = some held :=
      translatePage_eq_some.mpr ⟨flags, leaf⟩
    change translatePage final.table page = some frame at translated
    rw [isFrame, Option.some.injEq] at translated
    subst translated
    exact ⟨drawn held answered, settled.notTable⟩

end Start

/-! ## From the firmware to the processes -/

section Boot

variable {T C : Type} [StoredMapper T] [StoredMapper C]

/-- The memory map of the firmware, and the table that the loader starts
with. -/
structure FirmwareMemory (map : List FirmwareDescriptor) (firmware : C) :
    Prop where
  wellFormed : WellFormedMap (plainMap map)
  sorted : SortedMap (plainMap map)
  physical :
    ∀ descriptor ∈ usableDescriptors (plainMap map), descriptor.Physical
  tablesApart :
    ∀ frame ∈ tableFrames firmware, frame ∉ usableFrames (plainMap map)
  heapUnused :
    ∀ page ∈ heapPages 0, entry firmware .size4KiB page = .unused

variable {map : List FirmwareDescriptor} {firmware : C}

theorem FirmwareMemory.once (memory : FirmwareMemory map firmware) :
    NeverTwice (supply (usableFrames (plainMap map))).answers :=
  neverTwice_supply
    (usableFrames_nodup memory.wellFormed.aligned memory.wellFormed.apart)

theorem FirmwareMemory.firmwareSpent (memory : FirmwareMemory map firmware) :
    ∀ frame ∈ tableFrames firmware,
      Spent (supply (usableFrames (plainMap map))).answers
        (supply (usableFrames (plainMap map))).drawn frame := by
  intro frame stored index _ given
  exact memory.tablesApart frame stored (List.mem_of_getElem? given)

variable [LawfulMapper T] [LawfulMapper C]
variable [LawfulStoredMapper T] [LawfulStoredMapper C]
variable {kernel : ElfFile} {heap : HeapMachine C} {newPageTable : T}
variable {root : PhysFrame .size4KiB}

omit [LawfulMapper C] [LawfulStoredMapper C] in
/-- User code of the processes reaches frames of the supply. -/
theorem isolated_of_supply {frames : List (PhysFrame .size4KiB)} {table : T}
    {spaces : AddressSpaces T T}
    (booted : (kernelSpaces table (supply frames)).Booted kernel)
    (nodup : frames.Nodup)
    (run :
      Relation.ReflTransGen
        (CallStep kernel (AddressSpaces.residentFrames kernel table))
        (kernelSpaces table (supply frames)) spaces) :
    spaces.Isolated kernel ∧
      ∀ managed ∈ spaces.processes, ∀ (page : Page .size4KiB)
          (frame : PhysFrame .size4KiB),
        UserMapped managed.process.addressSpace page frame →
          frame ∈ frames := by
  have once :
      NeverTwice (kernelSpaces table (supply frames)).allocator.answers :=
    neverTwice_supply nodup
  have separate := booted.separate once
  obtain ⟨reached, steps, agrees⟩ := callSteps_steps run
  refine ⟨(separate.run steps).isolated.of_agrees agrees, ?_⟩
  intro managed member page frame user
  rw [← agrees.processes] at member
  obtain ⟨index, _, _, answer⟩ :=
    (AddressSpaces.DrawnSince.run separate booted.noProcess steps).user managed
      member page frame user
  exact List.mem_of_getElem? answer

theorem run_advances {bootImage : BootImageFS}
    {bootImageAddress stackStart stackEnd pointer mem idIndex : Nat}
    {final : Machine T C} {jump : KernelEntry}
    (fresh :
      Fresh (Machine.start newPageTable heap.table heap.allocator idIndex))
    (ready :
      ∀ index frame, heap.allocator.drawn ≤ index →
        heap.allocator.answers index = some frame →
          IdentityReady heap.table frame)
    (found : findKernel bootImage = .ok (some kernel))
    (summed : getMemSize (plainMap map) = .ok mem)
    (fits : ∀ header ∈ kernel.loadHeaders, FitsFrame header)
    (jumped :
      (run map bootImage bootImageAddress stackStart stackEnd pointer).run
          (Machine.start newPageTable heap.table heap.allocator idIndex) =
        .ok jump final) :
    heap.allocator.Advances final.allocator := by
  obtain ⟨process, loaded, frame, handed, built, given, _⟩ :=
    run_built fresh ready found summed fits jumped
  have toLoaded := confined_kernelFromElf fits built
  have toFinal : HandsOver loaded final :=
    (handsOver_handOver map pointer).of_run_ok given
  exact toLoaded.advances.trans toFinal.advances

/-- A boot, from the memory map of the firmware to `swap_map` in the kernel:
`init_heap_new`, the run up to the jump, and the kernel's use of its clone of
the allocator. -/
structure BootRun (T C : Type) [StoredMapper T] [StoredMapper C] where
  map : List FirmwareDescriptor
  firmware : C
  bootImage : BootImageFS
  kernel : ElfFile
  mem : Nat
  heap : HeapMachine C
  newPageTable : T
  pointer : Nat
  root : PhysFrame .size4KiB
  bootImageAddress : Nat
  stackStart : Nat
  stackEnd : Nat
  idIndex : Nat
  final : Machine T C
  jump : KernelEntry
  answers : List (Option (PhysFrame .size4KiB))
  walk : PageTableFrameAllocator
  swapped : PageTableFrameAllocator
  memory : FirmwareMemory map firmware
  heapMade :
    (initHeapNew 0 false).run
        ⟨firmware, supply (usableFrames (plainMap map)), none⟩ =
      .ok (.ok ()) heap
  box : TableBox heap.table newPageTable pointer root
  ready :
    ∀ index frame, heap.allocator.drawn ≤ index →
      heap.allocator.answers index = some frame →
        IdentityReady heap.table frame
  found : findKernel bootImage = .ok (some kernel)
  summed : getMemSize (plainMap map) = .ok mem
  apart :
    SegmentsApart kernel
      (kernelReserved (plainMap map) stackStart stackEnd mem)
  jumped :
    (run map bootImage bootImageAddress stackStart stackEnd pointer).run
        (Machine.start newPageTable heap.table heap.allocator idIndex) =
      .ok jump final
  within : final.allocator.drawn ≤ (usableFrames (plainMap map)).length
  walked :
    allocateFrames jump.parameters.frameAllocator.drawn
      (new (plainMap map)) = .ok (answers, walk)
  swap : walk.swapMap (plainMap jump.parameters.memoryMap) = .ok swapped

namespace BootRun

variable (boot : BootRun T C)

/-- The machine behind `init_heap_new`. -/
def start : Machine T C :=
  Machine.start boot.newPageTable boot.heap.table boot.heap.allocator
    boot.idIndex

omit [LawfulMapper T] [LawfulStoredMapper T] [LawfulStoredMapper C] in
theorem heapBuilt :
    HeapBuilt (heapPages 0) (supply (usableFrames (plainMap boot.map)))
      boot.heap :=
  heapBuilt_initHeapNew boot.memory.once boot.memory.firmwareSpent
    boot.memory.heapUnused boot.heapMade

omit [LawfulMapper T] [LawfulStoredMapper T] [LawfulStoredMapper C] in
theorem fresh : Fresh boot.start :=
  fresh_start boot.memory.once boot.heapBuilt boot.box

theorem advances : boot.heap.allocator.Advances boot.final.allocator :=
  run_advances boot.fresh boot.ready boot.found boot.summed boot.apart.fits
    boot.jumped

theorem handedOver :
    HandedOver boot.map boot.kernel
      (kernelReserved (plainMap boot.map) boot.stackStart boot.stackEnd
          boot.mem ++
        (kernelPages boot.kernel).map smallPage)
      boot.root boot.start boot.final boot.jump :=
  handedOver_of_run boot.memory.once boot.memory.firmwareSpent
    boot.memory.heapUnused boot.heapMade boot.box boot.ready boot.found
    boot.summed boot.apart boot.jumped fun out =>
      supply_neverOut boot.within (out.later boot.heapBuilt.advances)

/-- The kernel's allocator gives new frames only, and the kernel is resident
in frames that it does not give. -/
theorem booted :
    ∃ frames : List (PhysFrame .size4KiB),
      Represents boot.swapped (supply frames) ∧ frames.Nodup ∧
        frames ⊆ usableFrames (plainMap boot.map) ∧
        List.Disjoint (itemsOf boot.answers) frames ∧
        (kernelSpaces boot.final.table (supply frames)).Booted
          boot.kernel := by
  have handed := boot.handedOver
  have built := boot.heapBuilt
  have walked := boot.walked
  have swap := boot.swap
  rw [handed.frameAllocator] at walked
  rw [handed.memoryMap] at swap
  obtain ⟨frames, represents, nodup, usable, disjoint⟩ :=
    swap_gives_new_frames boot.memory.wellFormed boot.memory.sorted
      boot.memory.physical (sameDescriptors_relocated boot.map) walked swap
  have drawn (frame : PhysFrame .size4KiB)
      (answered :
        (supply (usableFrames (plainMap boot.map))).Answered
          boot.final.allocator (some frame)) :
      Spent (supply frames).answers (supply frames).drawn frame := by
    intro index _ again
    have handedOut : frame ∈ itemsOf boot.answers := by
      rw [itemsOf_allocateFrames walked]
      exact mem_take_of_answered answered
    exact disjoint handedOut (List.mem_of_getElem? again)
  refine ⟨frames, represents, nodup, usable, disjoint, ?_⟩
  apply booted_of_resident handed.resident
  · intro frame stored
    apply drawn
    rcases handed.tables frame stored with rfl | loaded
    · obtain ⟨flags, leaf⟩ := translatePage_eq_some.mp boot.box.translated
      exact (built.drawn _ boot.box.inHeap _ flags leaf).earlier boot.advances
    · exact loaded.later built.advances
  · intro frame loaded
    exact drawn frame (loaded.later built.advances)

end BootRun

end Boot

/-! ## The driver of the kernel of one page -/

section Resident

theorem residentMap_memory :
    FirmwareMemory residentMap (RadixTable.new ⟨0x801⟩) where
  wellFormed := ⟨by decide, by decide, by decide⟩
  sorted := by decide
  physical := by decide
  tablesApart := by
    intro frame stored listed
    obtain ⟨index, given⟩ := List.mem_iff_getElem?.mp listed
    have inSupply := (number_residentSupply given).1
    rw [RadixTable.mem_tableFrames_new.mp stored] at inSupply
    exact absurd inSupply (by decide)
  heapUnused := fun page _ => RadixTable.new_empty _ _ page

/-- The region whose frames the kernel gets. -/
def driverRegion : MemoryDescriptor :=
  ⟨.conventional, 0x11000000, 0, 2048⟩

theorem skipRegions_residentMap {count : Nat} (positive : 0 < count)
    (few : count < 0x8000) :
    skipRegions (some ⟨0x1000 + count⟩)
        (plainMap (residentMap.map FirmwareDescriptor.relocated)) =
      .ok [driverRegion] := by
  have split :
      plainMap (residentMap.map FirmwareDescriptor.relocated) =
        [⟨.loaderCode, 0x100000, 0, 0⟩,
            ⟨.runtimeServicesData, 0x300000, 0x300000, 2⟩,
            ⟨.conventional, 0x1000000, 0, 0x8000⟩] ++
          ⟨.conventional, 0x10000000, 0, 1⟩ :: [driverRegion] := by
    decide
  rw [split]
  apply skipRegions_of_split rfl
  · simp only [PhysFrame.startAddress, PageSize.bytes]
    omega
  · decide
  · intro descriptor usable
    rw [mem_usableDescriptors] at usable
    simp only [List.mem_cons, List.not_mem_nil, or_false] at usable
    rcases usable with ⟨rfl | rfl | rfl, isUsable⟩
    · cases isUsable
    · cases isUsable
    · constructor
      · simp only [PhysFrame.startAddress, PageSize.bytes]
        omega
      · decide

/-- Behind the swap, the kernel has the frames of the last region. -/
theorem residentSwap {count : Nat} (positive : 0 < count)
    (few : count < 0x8000) :
    ∃ answers walk swapped,
      allocateFrames count (new (plainMap residentMap)) =
          .ok (answers, walk) ∧
        walk.swapMap
            (plainMap (residentMap.map FirmwareDescriptor.relocated)) =
          .ok swapped ∧
        Represents swapped (supply (usableFrames [driverRegion])) := by
  obtain ⟨walk, walked, represents⟩ :=
    (represents_new residentMap_memory.physical).allocateFrames count
  have answer :
      residentSupply.answers (residentSupply.drawn + count) =
        some ⟨0x1000 + count⟩ := by
    rw [← answers_residentSupply few]
    exact congrArg _ (Nat.zero_add count)
  obtain ⟨swapped, swap, supplied⟩ :=
    represents.swapMap answer (skipRegions_residentMap positive few)
      (by decide)
  exact ⟨_, walk, swapped, walked, swap, supplied⟩

theorem usableFrames_driverRegion :
    usableFrames [driverRegion] =
      (List.range' 0x11000 2048).map PhysFrame.mk := by
  have usable : usableDescriptors [driverRegion] = [driverRegion] := rfl
  rw [usableFrames, usable, List.flatMap_singleton]
  rfl

theorem answers_driverRegion {index : Nat} (small : index < 2048) :
    (supply (usableFrames [driverRegion])).answers index =
      some ⟨0x11000 + index⟩ := by
  change (usableFrames [driverRegion])[index]? = _
  rw [usableFrames_driverRegion, List.getElem?_map,
    List.getElem?_range' small]
  simp

theorem number_driverRegion {index : Nat} {frame : PhysFrame .size4KiB}
    (given :
      (supply (usableFrames [driverRegion])).answers index = some frame) :
    0x11000 ≤ frame.number ∧ frame.number < 0x11800 := by
  have listed := List.mem_of_getElem? given
  rw [usableFrames_driverRegion] at listed
  obtain ⟨number, inRange, rfl⟩ := List.mem_map.mp listed
  rw [List.mem_range'_1] at inRange
  exact inRange

theorem ResidentBoot.fresh {heap : HeapMachine RadixTable}
    {root : PhysFrame .size4KiB} (boot : ResidentBoot heap root) :
    Fresh
      (Machine.start (RadixTable.new root) heap.table heap.allocator 0) :=
  fresh_start residentSupply_once
    (heapBuilt_initHeapNew residentSupply_once
      residentMap_memory.firmwareSpent residentMap_memory.heapUnused
      boot.heapMade)
    boot.box

/-- The kernel of one page is booted, and has the last region free. -/
theorem residentBoot_boots :
    ∃ boot : BootRun RadixTable RadixTable,
      boot.map = residentMap ∧ boot.kernel = residentElf ∧
        (∃ output, generate (residentFiles.map inputFile) = .ok output ∧
          boot.bootImage = ⟨output.contents⟩) ∧
        startFiles boot.bootImage = .ok (residentElf, guestElf) ∧
        Represents boot.swapped (supply (usableFrames [driverRegion])) ∧
        ∀ page : Page .size4KiB,
          0x11000 ≤ page.number → page.number < 0x11800 →
            Unmapped boot.final.table page := by
  obtain ⟨heap, root, loader⟩ := residentBoot_exists
  obtain ⟨output, generated, found, started⟩ := residentImage_exists
  have returns :
      ∃ jump final,
        (run residentMap ⟨output.contents⟩ 0x40000000 0x200000 0x200000
              heapStart).run
            (Machine.start (RadixTable.new root) heap.table heap.allocator
              0) = .ok jump final ∧
          final.allocator.drawn ≤ heap.allocator.drawn +
            runBudget residentMap residentElf 0x200000 0x200000
              residentMemory :=
    run_returns loader.fresh loader.ready loader.box found
      getMemSize_residentMap residentElf_apart.fits
      (bootable_residentMap loader.inSupply) loader.supplied
  obtain ⟨jump, final, jumped, budget⟩ := returns
  have toFinal : heap.allocator.Advances final.allocator :=
    run_advances loader.fresh loader.ready found getMemSize_residentMap
      residentElf_apart.fits jumped
  have begun := Nat.lt_of_lt_of_le loader.begun toFinal.drawn_le
  have drawn := loader.drawn
  rw [runBudget_residentMap] at budget
  have listed : (usableFrames (plainMap residentMap)).length = 0x8801 := by
    rw [usableFrames_residentMap]
    simp
  have within :
      final.allocator.drawn ≤
        (usableFrames (plainMap residentMap)).length := by
    omega
  have handed :=
    handedOver_of_run residentMap_memory.once residentMap_memory.firmwareSpent
      residentMap_memory.heapUnused loader.heapMade loader.box loader.ready
      found getMemSize_residentMap residentElf_apart jumped (by
        rintro ⟨index, _, upper, out⟩
        rw [loader.answers] at out
        exact supply_neverOut within ⟨index, Nat.zero_le _, upper, out⟩)
  obtain ⟨answers, walk, swapped, walked, swap, supplied⟩ :=
    residentSwap begun (by omega)
  rw [← handed.frameAllocator] at walked
  rw [← handed.memoryMap] at swap
  refine ⟨⟨residentMap, _, _, residentElf, _, heap, _, _, root, _, _, _, _,
    final, jump, answers, walk, swapped, residentMap_memory, loader.heapMade,
    loader.box, loader.ready, found, getMemSize_residentMap,
    residentElf_apart, jumped, within, walked, swap⟩, rfl, rfl,
    ⟨output, generated, rfl⟩, started, supplied, ?_⟩
  intro page lower upper
  exact run_unmapped loader.fresh loader.ready loader.box found
    getMemSize_residentMap residentElf_apart.fits jumped
    (fun mapped listed =>
      apart_of_lastRegion loader.inSupply.2 listed ⟨lower, upper⟩)
    (fun mapped member => apart_of_low member upper)

/-- The driver of the image is loaded behind the first frame of the last
region. -/
theorem residentDriver_created {boot : BootRun RadixTable RadixTable}
    {frames : List (PhysFrame .size4KiB)}
    (represents : Represents boot.swapped (supply frames))
    (supplied :
      Represents boot.swapped (supply (usableFrames [driverRegion])))
    (nodup : frames.Nodup)
    (booted :
      (kernelSpaces boot.final.table (supply frames)).Booted residentElf)
    (free :
      ∀ page : Page .size4KiB,
        0x11000 ≤ page.number → page.number < 0x11800 →
          Unmapped boot.final.table page) :
    ∃ managed machine,
      (newKernelProcess guestElf residentElf 0x200000 0x200000 0).run
          (Machine.start (RadixTable.new ⟨0x11000⟩)
            (kernelSpaces boot.final.table (supply frames)).drew.current
            (kernelSpaces boot.final.table (supply frames)).drew.allocator
            (kernelSpaces boot.final.table (supply frames)).drew.idIndex) =
        .ok managed machine ∧
      (kernelSpaces boot.final.table (supply frames)).drew.Boxed
        (AddressSpaces.residentFrames residentElf boot.final.table)
        (RadixTable.new ⟨0x11000⟩) ∧
      (kernelSpaces boot.final.table
        (supply frames)).drew.CopiesLand guestElf ∧
      ¬ (kernelSpaces boot.final.table
          (supply frames)).drew.allocator.Answered machine.allocator
            none := by
  have same :
      (supply frames).answers =
        (supply (usableFrames [driverRegion])).answers :=
    represents.answers_eq supplied rfl rfl
  have answered {index : Nat} (small : index < 2048) :
      (supply frames).answers index = some ⟨0x11000 + index⟩ := by
    rw [same]
    exact answers_driverRegion small
  have ready :
      ∀ index frame,
        (kernelSpaces boot.final.table (supply frames)).allocator.drawn ≤
          index →
        (kernelSpaces boot.final.table
          (supply frames)).allocator.answers index = some frame →
        IdentityReady boot.final.table frame := by
    intro index frame _ given
    change (supply frames).answers index = some frame at given
    rw [same] at given
    obtain ⟨lower, upper⟩ := number_driverRegion given
    exact Or.inl (free _ lower upper)
  have enough :
      (Machine.start (RadixTable.new ⟨0x11000⟩)
        (kernelSpaces boot.final.table (supply frames)).drew.current
        (kernelSpaces boot.final.table (supply frames)).drew.allocator
        (kernelSpaces boot.final.table
          (supply frames)).drew.idIndex).Supplied 1044 := by
    intro index _ upper
    change index < 1 + 1044 at upper
    refine ⟨⟨0x11000 + index⟩, answered (by omega), ?_⟩
    simp only [PhysFrame.startAddress, PageSize.bytes]
    omega
  have first : (supply frames).answers 0 = some ⟨0x11000⟩ :=
    answered (by decide)
  obtain ⟨managed, machine, made, boxed, land, within⟩ :=
    guest_created_of_supplied (booted.separate (neverTwice_supply nodup))
      ready first enough
  exact ⟨managed, machine, made, boxed, land, enough.neverOut within⟩

end Resident

end RustKernel.Boot
