import RustKernel.Foundations.Run
import RustKernel.Memory.MemoryMap
import RustKernel.Paging.Mapper
import RustKernel.Loader.ElfFile

/-!
# The process loaders

`kernel_from_elf` and `from_elf` build an address space pass by pass.  The two
functions repeat each other's passes with other flags and other reactions to a
failing `map_to`; each pass is one definition here, and what differs is a
parameter.

The machine is what the passes change: the new table, the table that is
active, the frame allocator, and the log of the writes to physical memory.
The bytes of the memory are read back from the log, so that no definition
depends on what the memory held before.
-/

namespace RustKernel.Loader

open RustKernel.Foundations
open RustKernel.Machine
open RustKernel.Memory
open RustKernel.Paging

/-- What a write to physical memory belongs to. -/
inductive Origin where
  | pageTable
  | segmentCopy (header : ProgramHeader) (page : Page .size4KiB)
      (frame : PhysFrame .size4KiB)
  deriving DecidableEq, Repr

structure Machine (T C : Type) where
  table : T
  current : C
  allocator : FrameAllocator
  stores : List (Store Origin)
  idIndex : Nat

/-- The machine when a loader has made its new table. -/
def Machine.start {T C : Type} (newPageTable : T) (current : C)
    (allocator : FrameAllocator) (idIndex : Nat) : Machine T C :=
  ⟨newPageTable, current, allocator, [], idIndex⟩

/-- Physical memory after the writes of the machine. -/
def Machine.contents {T C : Type} (state : Machine T C)
    (memory : Nat → UInt8) : Nat → UInt8 :=
  Store.applyAll memory state.stores

/-- `Process`. -/
structure Process (T : Type) where
  id : Nat
  addressSpace : T
  stackBase : Nat
  entry : Nat

def presentWritable : PageTableFlags := ⟨true, true, false⟩

def presentWritableUser : PageTableFlags := ⟨true, true, true⟩

/-- The page that `identity_map` maps to a frame, whose address is below
`2 ^ 48`. -/
def identityPage (frame : PhysFrame .size4KiB) : Page .size4KiB :=
  ⟨frame.number⟩

/-- `Process::get_stack`. -/
def getStack : List (Page .size4KiB) :=
  Page.rangeInclusive
    (Page.containingAddress ⟨processStackAddress - sizeMb 1, by decide⟩)
    (Page.containingAddress ⟨processStackAddress, by decide⟩)

def tableStore (store : Store Unit) : Store Origin :=
  ⟨.pageTable, store.address, store.bytes⟩

section Steps

variable {T C : Type} [Mapper T] [Mapper C]

namespace Machine

/-- A frame has been asked for. -/
def drawFrame (state : Machine T C) : Machine T C :=
  { state with allocator := state.allocator.allocateFrame.2 }

/-- `map_to` has been called on the new table. -/
def mapped {size : PageSize} (page : Page size) (frame : PhysFrame size)
    (flags : PageTableFlags) (state : Machine T C) : Machine T C :=
  let outcome := mapTo page frame flags state.table state.allocator
  { state with
    table := outcome.table
    allocator := outcome.allocator
    stores := state.stores ++ outcome.stores.map tableStore }

/-- `identity_map` has been called on the active table. -/
def identityMapped (frame : PhysFrame .size4KiB) (state : Machine T C) :
    Machine T C :=
  let outcome :=
    mapTo (identityPage frame) frame presentWritable state.current
      state.allocator
  { state with
    current := outcome.table
    allocator := outcome.allocator
    stores := state.stores ++ outcome.stores.map tableStore }

/-- What `copy_from_slice` comes to when the page at the address of the frame
maps the frame and the copy ends in it.  `written` is the write through the
active table. -/
def copied (header : ProgramHeader) (page : Page .size4KiB)
    (frame : PhysFrame .size4KiB) (bytes : List UInt8)
    (state : Machine T C) : Machine T C :=
  { state with
    stores := state.stores ++
      [⟨.segmentCopy header page frame,
        frame.startAddress + header.virtualAddress % 4096, bytes⟩] }

end Machine

/-- `frame_allocator.allocate_frame().expect(text)`. -/
def allocateFrame (text : String) :
    EStateM Panic (Machine T C) (PhysFrame .size4KiB) := do
  let answer ← modifyGet fun state =>
    (state.allocator.allocateFrame.1, state.drawFrame)
  match answer with
  | some frame => return frame
  | none => throw (.message text)

/-- `mapper.map_to` on the new table. -/
def mapNew {size : PageSize} (page : Page size) (frame : PhysFrame size)
    (flags : PageTableFlags) :
    EStateM Panic (Machine T C) (Except (MapToError size) Unit) :=
  modifyGet fun state =>
    ((mapTo page frame flags state.table state.allocator).result,
      state.mapped page frame flags)

/-- `current_mapper.identity_map`, whose result is not looked at. -/
def identityMapCurrent (frame : PhysFrame .size4KiB) :
    EStateM Panic (Machine T C) Unit :=
  modify (Machine.identityMapped frame)

/-- `Result::expect` on the answer of `map_to`. -/
def expectMapped {size : PageSize} (fault : Panic)
    (answer : Except (MapToError size) Unit) :
    EStateM Panic (Machine T C) Unit :=
  match answer with
  | .ok _ => return ()
  | .error _ => throw fault

def mapOrPanic {size : PageSize} (fault : Panic) (page : Page size)
    (frame : PhysFrame size) (flags : PageTableFlags) :
    EStateM Panic (Machine T C) Unit := do
  let answer ← mapNew page frame flags
  expectMapped fault answer

end Steps

section Setup

variable {T C : Type} [Mapper T] [Mapper C]

/-- The page at `PAGE_TABLE_OFFSET` through which the frame is seen. -/
def windowPage (frame : PhysFrame .size1GiB) :
    Except Panic (Page .size1GiB) := do
  let address ← VirtAddr.new (pageTableOffset + frame.startAddress)
  return Page.containingAddress address

/-- The frames of the window onto physical memory. -/
def windowFrames (mem : Nat) : Except Panic (List (PhysFrame .size1GiB)) := do
  let last ← PhysAddr.new mem
  return PhysFrame.rangeInclusive ⟨0⟩ (PhysFrame.containingAddress last)

def mapWindow (mem : Nat) : EStateM Panic (Machine T C) Unit := do
  let frames ← MonadExcept.ofExcept (windowFrames mem)
  frames.forM fun frame => do
    let page ← MonadExcept.ofExcept (windowPage frame)
    mapOrPanic (.message "Unable to identity map!") page frame presentWritable

def mapStack : EStateM Panic (Machine T C) Unit :=
  getStack.forM fun page => do
    let frame ← allocateFrame "Unable to allocate page for process stack!"
    mapOrPanic (.message "Unable to map page for process stack!") page frame
      presentWritableUser

/-- The frames of the first `LoaderCode` descriptor of `efi::DESCRIPTORS`. -/
def kernelCodeFrames (descriptors : List MemoryDescriptor) :
    Except Panic (List (PhysFrame .size4KiB)) :=
  match descriptors.find? fun descriptor =>
      descriptor.memoryType = .loaderCode with
  | none => throw (.message "Unable to find loader code!")
  | some descriptor => do
      let first ← PhysAddr.new descriptor.physicalAddress
      let bytes ← checkedMul descriptor.size 4096
      let stop ← checkedAdd descriptor.physicalAddress bytes
      let last ← PhysAddr.new stop
      return PhysFrame.rangeInclusive (PhysFrame.containingAddress first)
        (PhysFrame.containingAddress last)

/-- The stack grows downwards: the range begins at `kernel_stack_end`. -/
def kernelStackFrames (kernelStackStart kernelStackEnd : Nat) :
    Except Panic (List (PhysFrame .size4KiB)) := do
  let first ← PhysAddr.new kernelStackEnd
  let last ← PhysAddr.new kernelStackStart
  return PhysFrame.rangeInclusive (PhysFrame.containingAddress first)
    (PhysFrame.containingAddress last)

/-- `identity_map` and `expect`; a physical address from `2 ^ 48` on is no
virtual one. -/
def identityMapOrPanic (flags : PageTableFlags)
    (frame : PhysFrame .size4KiB) : EStateM Panic (Machine T C) Unit :=
  if frame.startAddress < 2 ^ 48 then
    mapOrPanic (.message "Unable to identity map!") (identityPage frame) frame
      flags
  else
    throw .virtAddrInvalid

def identityMapAll (flags : PageTableFlags)
    (frames : List (PhysFrame .size4KiB)) :
    EStateM Panic (Machine T C) Unit :=
  frames.forM (identityMapOrPanic flags)

/-- The frame of the APIC registers. -/
def apicFrame : PhysFrame .size4KiB :=
  PhysFrame.containingAddress ⟨0xFEE00000, by decide⟩

/-- `kernel_from_elf` up to its segment loop. -/
def kernelSetup (descriptors : List MemoryDescriptor)
    (kernelStackStart kernelStackEnd mem : Nat) :
    EStateM Panic (Machine T C) Unit := do
  mapWindow mem
  mapStack
  let codeFrames ← MonadExcept.ofExcept (kernelCodeFrames descriptors)
  let stackFrames ←
    MonadExcept.ofExcept (kernelStackFrames kernelStackStart kernelStackEnd)
  identityMapAll presentWritableUser codeFrames
  identityMapAll presentWritable stackFrames
  mapOrPanic (.message "Unable to map apic regs for process!")
    (identityPage apicFrame) apicFrame presentWritable

/-- `from_elf` up to its kernel pass. -/
def userSetup (kernelStackStart kernelStackEnd mem : Nat) :
    EStateM Panic (Machine T C) Unit := do
  mapWindow mem
  mapStack
  let stackFrames ←
    MonadExcept.ofExcept (kernelStackFrames kernelStackStart kernelStackEnd)
  identityMapAll presentWritable stackFrames

end Setup

section Segments

variable {T C : Type} [Mapper T] [Mapper C]

/-- What a segment loop does with the answer of `map_to`. -/
abbrev AfterMap := Except (MapToError .size4KiB) Unit → Except Panic Unit

/-- `kernel_from_elf` drops the answer. -/
def ignoreAnswer : AfterMap := fun _ => .ok ()

/-- `from_elf` goes on over a page that is mapped already. -/
def tolerateMapped : AfterMap
  | .ok _ => .ok ()
  | .error (.pageAlreadyMapped _) => .ok ()
  | .error .frameAllocationFailed =>
      .error (.message "Unable to map frame! FrameAllocationFailed")
  | .error .parentEntryHugePage =>
      .error (.message "Unable to map frame! ParentEntryHugePage")

/-- `file_size` for the next page: it stops shrinking on the last chunk. -/
def nextFileSize (fileSize : Nat) : Nat :=
  if fileSize > 4096 then fileSize - 4096 else fileSize

/-- How a segment loop reaches the frames that it draws. -/
structure FrameWriter (T C : Type) where
  identityMap : PhysFrame .size4KiB → EStateM Panic (Machine T C) Unit
  copy :
    ProgramHeader → Page .size4KiB → PhysFrame .size4KiB → List UInt8 →
      EStateM Panic (Machine T C) Unit

namespace FrameWriter

/-- A turn of the page loop once it has its frame. -/
def copyInto (writer : FrameWriter T C) (header : ProgramHeader)
    (data : List UInt8) (afterMap : AfterMap) (fileSize : Nat)
    (page : Page .size4KiB) (frame : PhysFrame .size4KiB) :
    EStateM Panic (Machine T C) Nat := do
  writer.identityMap frame
  let offset := header.segmentFileSize - fileSize
  let bytes ←
    MonadExcept.ofExcept (slice data offset (offset + min fileSize 4096))
  writer.copy header page frame bytes
  let answer ← mapNew page frame presentWritableUser
  MonadExcept.ofExcept (afterMap answer)
  return nextFileSize fileSize

/-- One turn of the page loop of a segment. -/
def copyPage (writer : FrameWriter T C) (header : ProgramHeader)
    (data : List UInt8) (afterMap : AfterMap) (fileSize : Nat)
    (page : Page .size4KiB) : EStateM Panic (Machine T C) Nat := do
  let frame ← allocateFrame "Unable to allocate physical frame for elf process!"
  writer.copyInto header data afterMap fileSize page frame

/-- The body of a segment loop for a `Load` segment. -/
def loadSegment (writer : FrameWriter T C) (elf : ElfFile)
    (afterMap : AfterMap) (header : ProgramHeader) :
    EStateM Panic (Machine T C) Unit := do
  let pages ← MonadExcept.ofExcept header.segmentPages
  let data ← MonadExcept.ofExcept (elf.segment header)
  match data with
  | none => return ()
  | some data =>
      let _ ←
        pages.foldlM (writer.copyPage header data afterMap)
          header.segmentFileSize
      return ()

end FrameWriter

/-- The writes of a loader whose copies land in their frames: the address of
the frame is mapped to it, and the copy ends in its page. -/
def toFrames : FrameWriter T C where
  identityMap := identityMapCurrent
  copy header page frame bytes :=
    modify (Machine.copied header page frame bytes)

def copyInto (header : ProgramHeader) (data : List UInt8)
    (afterMap : AfterMap) (fileSize : Nat) (page : Page .size4KiB)
    (frame : PhysFrame .size4KiB) : EStateM Panic (Machine T C) Nat :=
  toFrames.copyInto header data afterMap fileSize page frame

def copyPage (header : ProgramHeader) (data : List UInt8)
    (afterMap : AfterMap) (fileSize : Nat) (page : Page .size4KiB) :
    EStateM Panic (Machine T C) Nat :=
  toFrames.copyPage header data afterMap fileSize page

def loadSegment (elf : ElfFile) (afterMap : AfterMap)
    (header : ProgramHeader) : EStateM Panic (Machine T C) Unit :=
  toFrames.loadSegment elf afterMap header

/-- One turn of a loop over the program headers. -/
def onLoad (body : ProgramHeader → EStateM Panic (Machine T C) Unit)
    (read : Except Panic ProgramHeader) : EStateM Panic (Machine T C) Unit := do
  let header ← MonadExcept.ofExcept read
  match header.segementType with
  | .load => body header
  | _ => return ()

/-- A loop over the program headers that acts on the `Load` segments. -/
def forLoadSegments (elf : ElfFile)
    (body : ProgramHeader → EStateM Panic (Machine T C) Unit) :
    EStateM Panic (Machine T C) Unit := do
  let reads ← MonadExcept.ofExcept elf.progamHeaders
  reads.forM (onLoad body)

/-- The segment loop of both loaders. -/
def FrameWriter.loadSegments (writer : FrameWriter T C) (elf : ElfFile)
    (afterMap : AfterMap) : EStateM Panic (Machine T C) Unit :=
  forLoadSegments elf (writer.loadSegment elf afterMap)

def loadSegments (elf : ElfFile) (afterMap : AfterMap) :
    EStateM Panic (Machine T C) Unit :=
  toFrames.loadSegments elf afterMap

/-- One turn of the kernel pass of `from_elf`. -/
def mapKernelPage (page : Page .size4KiB) :
    EStateM Panic (Machine T C) Unit := do
  let state ← get
  match translatePage state.current page with
  | some frame => mapOrPanic .unwrap page frame presentWritable
  | none => throw (.message "Unable to map kernel pages!")

def mapKernelSegment (header : ProgramHeader) :
    EStateM Panic (Machine T C) Unit := do
  let pages ← MonadExcept.ofExcept header.segmentPages
  pages.forM mapKernelPage

/-- The kernel pass of `from_elf`. -/
def mapKernel (kernel : ElfFile) : EStateM Panic (Machine T C) Unit :=
  forLoadSegments kernel mapKernelSegment

/-- The end of both loaders; `IDINDEX` is stored back unchanged. -/
def makeProcess (header : Header) :
    EStateM Panic (Machine T C) (Process T) := do
  let state ← get
  let id := state.idIndex
  set { state with idIndex := id }
  return ⟨id, state.table, processStackAddress, header.entry⟩

/-- `Process::kernel_from_elf`. -/
def FrameWriter.kernelFromElf (writer : FrameWriter T C)
    (descriptors : List MemoryDescriptor) (elf : ElfFile)
    (kernelStackStart kernelStackEnd mem : Nat) :
    EStateM Panic (Machine T C) (Process T) := do
  kernelSetup descriptors kernelStackStart kernelStackEnd mem
  let header ← MonadExcept.ofExcept elf.header
  writer.loadSegments elf ignoreAnswer
  makeProcess header

/-- `Process::from_elf`. -/
def FrameWriter.fromElf (writer : FrameWriter T C) (elf kernel : ElfFile)
    (kernelStackStart kernelStackEnd mem : Nat) :
    EStateM Panic (Machine T C) (Process T) := do
  userSetup kernelStackStart kernelStackEnd mem
  let _ ← MonadExcept.ofExcept kernel.header
  mapKernel kernel
  let header ← MonadExcept.ofExcept elf.header
  writer.loadSegments elf tolerateMapped
  makeProcess header

def kernelFromElf (descriptors : List MemoryDescriptor) (elf : ElfFile)
    (kernelStackStart kernelStackEnd mem : Nat) :
    EStateM Panic (Machine T C) (Process T) :=
  toFrames.kernelFromElf descriptors elf kernelStackStart kernelStackEnd mem

def fromElf (elf kernel : ElfFile)
    (kernelStackStart kernelStackEnd mem : Nat) :
    EStateM Panic (Machine T C) (Process T) :=
  toFrames.fromElf elf kernel kernelStackStart kernelStackEnd mem

theorem kernelFromElf_eq (descriptors : List MemoryDescriptor)
    (elf : ElfFile) (kernelStackStart kernelStackEnd mem : Nat) :
    (kernelFromElf descriptors elf kernelStackStart kernelStackEnd mem :
      EStateM Panic (Machine T C) (Process T)) = (do
        kernelSetup descriptors kernelStackStart kernelStackEnd mem
        let header ← MonadExcept.ofExcept elf.header
        loadSegments elf ignoreAnswer
        makeProcess header) := rfl

theorem fromElf_eq (elf kernel : ElfFile)
    (kernelStackStart kernelStackEnd mem : Nat) :
    (fromElf elf kernel kernelStackStart kernelStackEnd mem :
      EStateM Panic (Machine T C) (Process T)) = (do
        userSetup kernelStackStart kernelStackEnd mem
        let _ ← MonadExcept.ofExcept kernel.header
        mapKernel kernel
        let header ← MonadExcept.ofExcept elf.header
        loadSegments elf tolerateMapped
        makeProcess header) := rfl

end Segments

end RustKernel.Loader
