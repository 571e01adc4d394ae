import RustKernel.BootImage.FileNames
import RustKernel.Kernel.HeapInit
import RustKernel.Loader.CopyTargets
import RustKernel.Loader.LoadedImage

/-!
# The run of the loader

`run` finds the kernel in the boot image, builds its address space with
`kernel_from_elf`, and adds what the kernel needs at once: its own page table,
the memory of the firmware's runtime services, and the heap of the loader.
Then it loads the table and jumps.

The calls of the firmware, the output and the heap's own bookkeeping are left
out.  What `init_heap_new` does before is a run of its own.
-/

namespace RustKernel.Boot

open RustKernel.BootImage
open RustKernel.Foundations
open RustKernel.Kernel
open RustKernel.Loader
open RustKernel.Machine
open RustKernel.Memory
open RustKernel.Paging

/-! ## The descriptors of the firmware -/

/-- `efi::MemoryDescriptor`, with its attributes. -/
structure FirmwareDescriptor extends MemoryDescriptor where
  attributes : BitVec 64
  deriving DecidableEq, Repr

/-- `MemoryDescriptor::is_runtime`. -/
def FirmwareDescriptor.isRuntime (descriptor : FirmwareDescriptor) : Bool :=
  decide (0 < descriptor.attributes &&& 0x8000000000000000#64)

/-- The map without the attributes. -/
def plainMap (map : List FirmwareDescriptor) : MemoryMap :=
  map.map FirmwareDescriptor.toMemoryDescriptor

/-- The descriptor that the kernel gets. -/
def FirmwareDescriptor.relocated (descriptor : FirmwareDescriptor) :
    FirmwareDescriptor :=
  if descriptor.isRuntime then
    { descriptor with virtualAddress := descriptor.physicalAddress }
  else
    descriptor

/-! ## The functions -/

/-- The loop over the files of the boot image, in as many turns as the
iterator has files; `get_or_insert` keeps the first file. -/
def findKernelFrom (image : BootImageFS) :
    Nat → FileIterator → Option ElfFile → Except Panic (Option ElfFile)
  | 0, _, kernel => .ok kernel
  | turns + 1, iterator, kernel => do
      let (next, iterator) ← image.next iterator
      match next with
      | none => return kernel
      | some file => do
          let _ ← file.nameText
          let data ← image.fileData file
          findKernelFrom image turns iterator (kernel.or (some ⟨data⟩))

def findKernel (image : BootImageFS) : Except Panic (Option ElfFile) := do
  let files ← image.files
  findKernelFrom image files.size files none

/-- `image.expect`. -/
def expectKernel : Option ElfFile → Except Panic ElfFile
  | some kernel => .ok kernel
  | none => .error (.message "Unable to find kernel image!")

/-- `KernelParameters`, without the pointers to firmware tables and to the
heap. -/
structure KernelParameters where
  memoryMap : List FirmwareDescriptor
  bootImage : Nat × Nat
  frameAllocator : FrameAllocator

/-- What the loader jumps with. -/
structure KernelEntry where
  cr3 : PhysFrame .size4KiB
  stackBase : Nat
  entry : Nat
  parameters : KernelParameters

section Functions

variable {T C : Type} [Mapper T] [Mapper C]

/-- The frame of the new table, from the pointer to its box. -/
def tableFrame (current : C) (pointer : Nat) :
    Except Panic (PhysFrame .size4KiB) := do
  let address ← VirtAddr.new pointer
  match translateAddr current address.low48 with
  | some physical =>
      if physical % 4096 = 0 then
        return ⟨physical / 4096⟩
      else
        throw (.message "Unable to get frame! (1)")
  | none => throw (.message "Unable to get frame! (2)")

/-- `identity_map` on the new table, whose result is not looked at. -/
def identityMapNew (frame : PhysFrame .size4KiB) (flags : PageTableFlags) :
    EStateM Panic (Machine T C) Unit := do
  let address ← MonadExcept.ofExcept (VirtAddr.new frame.startAddress)
  let _ ← mapNew (Page.containingAddress address) frame flags
  return ()

def presentOnly : PageTableFlags := ⟨true, false, false⟩

/-- The frame of a page of a descriptor. -/
def descriptorFrame (descriptor : FirmwareDescriptor) (index : Nat) :
    Except Panic (PhysFrame .size4KiB) := do
  let offset ← checkedMul index 4096
  let raw ← checkedAdd descriptor.physicalAddress offset
  let address ← PhysAddr.new raw
  return PhysFrame.containingAddress address

def mapRuntimePage (descriptor : FirmwareDescriptor) (index : Nat) :
    EStateM Panic (Machine T C) Unit := do
  let frame ← MonadExcept.ofExcept (descriptorFrame descriptor index)
  identityMapNew frame presentOnly

/-- One turn of the loop over the memory map. -/
def handDescriptor (descriptor : FirmwareDescriptor) :
    EStateM Panic (Machine T C) FirmwareDescriptor :=
  if descriptor.isRuntime then do
    (List.range descriptor.size).forM (mapRuntimePage descriptor)
    return { descriptor with virtualAddress := descriptor.physicalAddress }
  else
    return descriptor

/-- One turn of the loop over the pages of the heap. -/
def shareHeapPage (page : Page .size4KiB) :
    EStateM Panic (Machine T C) Unit := do
  let state ← get
  match translatePage state.current page with
  | some frame =>
      mapOrPanic (.message "unable to map heap!") page frame presentWritable
  | none => return ()

/-- `run` behind `kernel_from_elf`. -/
def handOver (map : List FirmwareDescriptor) (tablePointer : Nat) :
    EStateM Panic (Machine T C)
      (PhysFrame .size4KiB × List FirmwareDescriptor) := do
  let state ← get
  let frame ← MonadExcept.ofExcept (tableFrame state.current tablePointer)
  identityMapNew frame presentWritable
  let handed ← map.mapM handDescriptor
  let pages ← MonadExcept.ofExcept (heapRange 0)
  pages.forM shareHeapPage
  return (frame, handed)

end Functions

/-- `run` behind `init_heap_new`, up to the jump. -/
def run {T C : Type} [StoredMapper T] [StoredMapper C]
    (map : List FirmwareDescriptor) (bootImage : BootImageFS)
    (bootImageAddress stackStart stackEnd tablePointer : Nat) :
    EStateM Panic (Machine T C) KernelEntry := do
  let image ← MonadExcept.ofExcept (findKernel bootImage)
  let mem ← MonadExcept.ofExcept (getMemSize (plainMap map))
  let kernel ← MonadExcept.ofExcept (expectKernel image)
  let process ←
    throughActive.kernelFromElf (plainMap map) kernel stackStart stackEnd mem
  let (frame, handed) ← handOver map tablePointer
  let state ← get
  return ⟨frame, process.stackBase, process.entry,
    ⟨handed, (bootImageAddress, bootImage.data.length), state.allocator⟩⟩

/-! ## The turns of the loops -/

section Turns

variable {T C : Type} [Mapper T] {state final : Machine T C}

/-- A frame with a physical address is mapped at the page of its number. -/
theorem identityMapNew_run {frame : PhysFrame .size4KiB}
    {flags : PageTableFlags} (fits : frame.startAddress < 2 ^ 48)
    (state : Machine T C) :
    (identityMapNew frame flags).run state =
      .ok () (state.mapped (identityPage frame) frame flags) := by
  have created :
      VirtAddr.new frame.startAddress = .ok ⟨frame.startAddress, fits⟩ := by
    rw [VirtAddr.new, dif_pos fits]
  have page :
      (Page.containingAddress ⟨frame.startAddress, fits⟩ : Page .size4KiB) =
        identityPage frame := by
    simp only [Page.containingAddress, PhysFrame.startAddress, identityPage,
      Nat.mul_div_cancel _ (PageSize.bytes_pos _)]
  rw [identityMapNew, created,
    bind_run_of_ok _ (ofExcept_run (.ok _) state), page]
  rfl

theorem descriptorFrame_eq_ok {descriptor : FirmwareDescriptor} {index : Nat}
    {frame : PhysFrame .size4KiB}
    (computed : descriptorFrame descriptor index = .ok frame) :
    frame = ⟨(descriptor.physicalAddress + index * 4096) / 4096⟩ ∧
      frame.startAddress < 2 ^ 52 := by
  unfold descriptorFrame at computed
  simp only [except_bind_eq_ok, checkedMul_eq_ok, checkedAdd_eq_ok] at computed
  obtain ⟨_, ⟨_, rfl⟩, _, ⟨_, rfl⟩, address, created, computed⟩ := computed
  have value := PhysAddr.new_eq_ok.mp created
  have inRange := address.inRange
  cases computed
  constructor
  · simp only [PhysFrame.containingAddress, PageSize.bytes, value]
  · have whole := Nat.div_mul_le_self address.value PageSize.size4KiB.bytes
    exact Nat.lt_of_le_of_lt whole inRange

/-- Frames behind the addresses that are also virtual ones stop the run. -/
theorem identityMapNew_run_ok {frame : PhysFrame .size4KiB}
    {flags : PageTableFlags} {result : Unit}
    (physical : frame.startAddress < 2 ^ 52) :
    (identityMapNew frame flags).run state = .ok result final ↔
      frame.startAddress < 2 ^ 48 ∧
        final = state.mapped (identityPage frame) frame flags := by
  by_cases fits : frame.startAddress < 2 ^ 48
  · rw [identityMapNew_run fits]
    constructor
    · intro returned
      cases returned
      exact ⟨fits, rfl⟩
    · rintro ⟨_, rfl⟩
      rfl
  · have refused :
        VirtAddr.new frame.startAddress = .error .virtAddrInvalid := by
      rw [VirtAddr.new, dif_neg fits, if_neg (by omega)]
    rw [identityMapNew, refused, bind_run, ofExcept_run]
    constructor
    · intro returned
      cases returned
    · intro stated
      exact absurd stated.1 fits

theorem mapRuntimePage_run_ok {descriptor : FirmwareDescriptor} {index : Nat}
    {result : Unit}
    (returned :
      (mapRuntimePage descriptor index).run state = .ok result final) :
    ∃ frame : PhysFrame .size4KiB,
      frame.number = (descriptor.physicalAddress + index * 4096) / 4096 ∧
        final = state.mapped (identityPage frame) frame presentOnly := by
  unfold mapRuntimePage at returned
  rw [bind_run_ok] at returned
  obtain ⟨frame, _, computed, mapping⟩ := returned
  rw [ofExcept_run_ok] at computed
  obtain ⟨computed, rfl⟩ := computed
  obtain ⟨isFrame, physical⟩ := descriptorFrame_eq_ok computed
  obtain ⟨_, mapped⟩ := (identityMapNew_run_ok physical).mp mapping
  refine ⟨frame, ?_, mapped⟩
  rw [isFrame]

/-- The descriptors that the kernel gets. -/
theorem handDescriptor_returns {descriptor handed : FirmwareDescriptor}
    (returned :
      (handDescriptor descriptor).run state = .ok handed final) :
    handed = descriptor.relocated := by
  unfold handDescriptor at returned
  unfold FirmwareDescriptor.relocated
  split
  · next runtime =>
      rw [if_pos runtime, bind_run_ok] at returned
      obtain ⟨_, _, _, closed⟩ := returned
      exact (pure_run_ok.mp closed).1.symm
  · next ordinary =>
      rw [if_neg ordinary] at returned
      exact (pure_run_ok.mp returned).1.symm

end Turns

/-! ## The parts of a run that returns -/

section Whole

variable {T C : Type} [StoredMapper T] [StoredMapper C]
variable {map : List FirmwareDescriptor} {tablePointer : Nat}
variable {state final : Machine T C}

/-- A run is a search for the kernel, `kernel_from_elf` and the rest. -/
theorem run_run_ok {bootImage : BootImageFS}
    {bootImageAddress stackStart stackEnd : Nat} {entry : KernelEntry} :
    (run map bootImage bootImageAddress stackStart stackEnd
        tablePointer).run state = .ok entry final ↔
      ∃ kernel mem process loaded frame handed,
        findKernel bootImage = .ok (some kernel) ∧
          getMemSize (plainMap map) = .ok mem ∧
          (throughActive.kernelFromElf (plainMap map) kernel stackStart
              stackEnd mem).run state = .ok process loaded ∧
          (handOver map tablePointer).run loaded =
            .ok (frame, handed) final ∧
          entry = ⟨frame, process.stackBase, process.entry,
            ⟨handed, (bootImageAddress, bootImage.data.length),
              final.allocator⟩⟩ := by
  unfold run
  constructor
  · intro returned
    rw [bind_run_ok] at returned
    obtain ⟨image, _, found, returned⟩ := returned
    rw [ofExcept_run_ok] at found
    obtain ⟨found, rfl⟩ := found
    rw [bind_run_ok] at returned
    obtain ⟨mem, _, summed, returned⟩ := returned
    rw [ofExcept_run_ok] at summed
    obtain ⟨summed, rfl⟩ := summed
    rw [bind_run_ok] at returned
    obtain ⟨kernel, _, expected, returned⟩ := returned
    rw [ofExcept_run_ok] at expected
    obtain ⟨expected, rfl⟩ := expected
    rw [bind_run_ok] at returned
    obtain ⟨process, loaded, built, returned⟩ := returned
    rw [bind_run_ok] at returned
    obtain ⟨⟨frame, handed⟩, last, given, returned⟩ := returned
    have isKernel : image = some kernel := by
      cases image with
      | none => cases expected
      | some other =>
          cases expected
          rfl
    rw [isKernel] at found
    cases returned
    exact ⟨kernel, mem, process, loaded, frame, handed, found, summed, built,
      given, rfl⟩
  · rintro ⟨kernel, mem, process, loaded, frame, handed, found, summed, built,
      given, rfl⟩
    rw [found, bind_run_of_ok _ (ofExcept_run (.ok (some kernel)) state),
      summed, bind_run_of_ok _ (ofExcept_run (.ok mem) state), expectKernel,
      bind_run_of_ok _ (ofExcept_run (.ok kernel) state),
      bind_run_of_ok _ built, bind_run_of_ok _ given]
    rfl

end Whole

section Parts

variable {T C : Type} [Mapper T] [Mapper C]
variable {map : List FirmwareDescriptor} {tablePointer : Nat}
variable {state final : Machine T C}

/-- The rest of a run is four loops and mappings, one after the other. -/
theorem handOver_run_ok {frame : PhysFrame .size4KiB}
    {handed : List FirmwareDescriptor} :
    (handOver map tablePointer).run state = .ok (frame, handed) final ↔
      ∃ rooted mapped pages,
        tableFrame state.current tablePointer = .ok frame ∧
          (identityMapNew frame presentWritable).run state =
            .ok () rooted ∧
          (map.mapM handDescriptor).run rooted = .ok handed mapped ∧
          heapRange 0 = .ok pages ∧
          (pages.forM shareHeapPage).run mapped = .ok () final := by
  unfold handOver
  rw [bind_run_of_ok _ (get_run state)]
  constructor
  · intro returned
    rw [bind_run_ok] at returned
    obtain ⟨found, _, located, returned⟩ := returned
    rw [ofExcept_run_ok] at located
    obtain ⟨located, rfl⟩ := located
    rw [bind_run_ok] at returned
    obtain ⟨_, rooted, rooting, returned⟩ := returned
    rw [bind_run_ok] at returned
    obtain ⟨values, mapped, looped, returned⟩ := returned
    rw [bind_run_ok] at returned
    obtain ⟨pages, _, formed, returned⟩ := returned
    rw [ofExcept_run_ok] at formed
    obtain ⟨formed, rfl⟩ := formed
    rw [bind_run_ok] at returned
    obtain ⟨_, last, shared, returned⟩ := returned
    cases returned
    exact ⟨rooted, mapped, pages, located, rooting, looped, formed, shared⟩
  · rintro ⟨rooted, mapped, pages, located, rooting, looped, formed, shared⟩
    rw [located, bind_run_of_ok _ (ofExcept_run (.ok frame) state),
      bind_run_of_ok _ rooting, bind_run_of_ok _ looped, formed,
      bind_run_of_ok _ (ofExcept_run (.ok pages) mapped),
      bind_run_of_ok _ shared]
    rfl

theorem shareHeapPage_run_ok {page : Page .size4KiB} {result : Unit} :
    (shareHeapPage page).run state = .ok result final ↔
      (∃ frame, translatePage state.current page = some frame ∧
        (mapTo page frame presentWritable state.table
            state.allocator).result = .ok () ∧
        final = state.mapped page frame presentWritable) ∨
      translatePage state.current page = none ∧ final = state := by
  rw [shareHeapPage, bind_run_of_ok _ (get_run state)]
  cases translatePage state.current page with
  | none => simp [eq_comm]
  | some frame => simp [mapOrPanic_run_ok]

end Parts

end RustKernel.Boot
