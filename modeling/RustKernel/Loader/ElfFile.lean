import Mathlib.Data.List.Basic
import RustKernel.Foundations.Run
import RustKernel.Machine.Slice

/-!
# ELF files

`ElfFile` reads packed structs through pointers into the file.  The program
headers are read one at a time by an iterator that does not know the length of
the file, so `progamHeaders` is a list of reads and not of headers.
-/

namespace RustKernel.Loader

open RustKernel.Foundations
open RustKernel.Machine

/-- `elf::SegmentType`; other numbers are kept as they are. -/
inductive SegmentType where
  | null
  | load
  | dynamic
  | interpret
  | note
  | reserved
  | programHeader
  | other (raw : Nat)
  deriving DecidableEq, Repr

def SegmentType.ofRaw : Nat → SegmentType
  | 0 => .null
  | 1 => .load
  | 2 => .dynamic
  | 3 => .interpret
  | 4 => .note
  | 5 => .reserved
  | 6 => .programHeader
  | raw => .other raw

/-- The fields of `elf::Header` that the loaders read. -/
structure Header where
  entry : Nat
  prgHeaderTbl : Nat
  prgEntrySize : Nat
  prgEntryCount : Nat
  deriving DecidableEq, Repr

/-- `elf::ProgramHeader`, without the fields that nothing reads. -/
structure ProgramHeader where
  segementType : SegmentType
  offset : Nat
  virtualAddress : Nat
  segmentFileSize : Nat
  segmentMemSize : Nat
  deriving DecidableEq, Repr

/-- `size_of::<ProgramHeader>()`. -/
def programHeaderSize : Nat := 56

def Header.ofBytes (bytes : List UInt8) : Header where
  entry := leValue (bytesAt bytes 24 8)
  prgHeaderTbl := leValue (bytesAt bytes 32 8)
  prgEntrySize := leValue (bytesAt bytes 54 2)
  prgEntryCount := leValue (bytesAt bytes 56 2)

def ProgramHeader.ofBytes (bytes : List UInt8) : ProgramHeader where
  segementType := .ofRaw (leValue (bytesAt bytes 0 4))
  offset := leValue (bytesAt bytes 8 8)
  virtualAddress := leValue (bytesAt bytes 16 8)
  segmentFileSize := leValue (bytesAt bytes 32 8)
  segmentMemSize := leValue (bytesAt bytes 40 8)

structure ElfFile where
  data : List UInt8
  deriving DecidableEq, Repr

namespace ElfFile

/-- `ElfFile::header`. -/
def header (elf : ElfFile) : Except Panic Header := do
  let _ ← indexByte elf.data 0
  let bytes ← rawRead elf.data 0 64
  return Header.ofBytes bytes

/-- `ProgramHeaderIterator::next`, at one position of the table. -/
def progamHeader (elf : ElfFile) (base index : Nat) :
    Except Panic ProgramHeader := do
  let bytes ←
    rawRead elf.data (base + programHeaderSize * index) programHeaderSize
  return ProgramHeader.ofBytes bytes

/-- `ElfFile::progam_headers`. -/
def progamHeaders (elf : ElfFile) :
    Except Panic (List (Except Panic ProgramHeader)) := do
  let header ← elf.header
  let _ ← indexByte elf.data header.prgHeaderTbl
  if header.prgEntrySize = programHeaderSize ∨ header.prgEntryCount = 0 then
    return (List.range header.prgEntryCount).map
      (elf.progamHeader header.prgHeaderTbl)
  else
    throw (.message
      ("Sizes aren't equal " ++ toString header.prgEntrySize ++ " == " ++
        toString programHeaderSize))

/-- `ElfFile::segment`. -/
def segment (elf : ElfFile) (header : ProgramHeader) :
    Except Panic (Option (List UInt8)) :=
  if header.segmentFileSize > 0 then do
    let stop ← checkedAdd header.offset header.segmentFileSize
    let bytes ← slice elf.data header.offset stop
    return some bytes
  else
    return none

/-- The headers that the table holds. -/
def readHeaders (elf : ElfFile) : List ProgramHeader :=
  match elf.progamHeaders with
  | .error _ => []
  | .ok reads => reads.filterMap Except.toOption

/-- The headers of the `Load` segments, in file order. -/
def loadHeaders (elf : ElfFile) : List ProgramHeader :=
  elf.readHeaders.filter fun header => header.segementType = .load

theorem mem_loadHeaders {elf : ElfFile} {header : ProgramHeader} :
    header ∈ elf.loadHeaders ↔
      header ∈ elf.readHeaders ∧ header.segementType = .load := by
  simp [loadHeaders]

end ElfFile

/-! ## The pages of a segment -/

namespace ProgramHeader

/-- The page in which the segment begins. -/
def firstPage (header : ProgramHeader) : Page .size4KiB :=
  ⟨header.virtualAddress % 2 ^ 48 / 4096⟩

/-- The page that holds the address behind the segment. -/
def lastPage (header : ProgramHeader) : Page .size4KiB :=
  ⟨(header.virtualAddress + header.segmentMemSize) % 2 ^ 48 / 4096⟩

/-- The inclusive page range of the segment. -/
def pages (header : ProgramHeader) : List (Page .size4KiB) :=
  Page.rangeInclusive header.firstPage header.lastPage

/-- The range as the loaders compute it, from canonical addresses. -/
def segmentPages (header : ProgramHeader) :
    Except Panic (List (Page .size4KiB)) := do
  let first ← VirtAddr.new header.virtualAddress
  let stop ← checkedAdd header.virtualAddress header.segmentMemSize
  let last ← VirtAddr.new stop
  return Page.rangeInclusive (Page.containingAddress first)
    (Page.containingAddress last)

theorem segmentPages_eq_ok
    {header : ProgramHeader} {pages : List (Page .size4KiB)}
    (computed : header.segmentPages = .ok pages) :
    pages = header.pages := by
  unfold segmentPages at computed
  obtain ⟨first, firstNew, computed⟩ := except_bind_eq_ok.mp computed
  obtain ⟨stop, added, computed⟩ := except_bind_eq_ok.mp computed
  obtain ⟨last, lastNew, computed⟩ := except_bind_eq_ok.mp computed
  cases computed
  unfold ProgramHeader.pages firstPage lastPage Page.containingAddress
  rw [VirtAddr.new_low48 firstNew, VirtAddr.new_low48 lastNew,
    (checkedAdd_eq_ok.mp added).2]
  rfl

theorem segmentPages_bounds
    {header : ProgramHeader} {pages : List (Page .size4KiB)}
    (computed : header.segmentPages = .ok pages) :
    header.virtualAddress + header.segmentMemSize < 2 ^ 64 ∧
      (header.virtualAddress < 2 ^ 48 ∨
        2 ^ 64 - 2 ^ 47 ≤ header.virtualAddress) ∧
      (header.virtualAddress + header.segmentMemSize < 2 ^ 48 ∨
        2 ^ 64 - 2 ^ 47 ≤ header.virtualAddress + header.segmentMemSize) := by
  unfold segmentPages at computed
  obtain ⟨first, firstNew, computed⟩ := except_bind_eq_ok.mp computed
  obtain ⟨stop, added, computed⟩ := except_bind_eq_ok.mp computed
  obtain ⟨last, lastNew, _⟩ := except_bind_eq_ok.mp computed
  obtain ⟨fits, rfl⟩ := checkedAdd_eq_ok.mp added
  unfold wordSize at fits
  have firstBounds := VirtAddr.new_bounds firstNew
  have lastBounds := VirtAddr.new_bounds lastNew
  omega

/-- A range that cannot be computed is not a slice out of range. -/
theorem segmentPages_ne_sliceIndex (header : ProgramHeader) :
    header.segmentPages ≠ .error .sliceIndex := by
  intro stopped
  unfold segmentPages at stopped
  rcases except_bind_eq_error.mp stopped with first | ⟨_, _, stopped⟩
  · cases VirtAddr.new_eq_error first
  rcases except_bind_eq_error.mp stopped with added | ⟨_, _, stopped⟩
  · cases checkedAdd_eq_error added
  rcases except_bind_eq_error.mp stopped with last | ⟨_, _, stopped⟩
  · cases VirtAddr.new_eq_error last
  cases stopped

theorem mem_pages {header : ProgramHeader} {page : Page .size4KiB} :
    page ∈ header.pages ↔
      header.firstPage.number ≤ page.number ∧
        page.number ≤ header.lastPage.number :=
  Page.mem_rangeInclusive

end ProgramHeader

/-! ## The bytes of a segment -/

theorem ElfFile.segment_eq_some
    {elf : ElfFile} {header : ProgramHeader} {data : List UInt8}
    (found : elf.segment header = .ok (some data)) :
    0 < header.segmentFileSize ∧
      header.offset + header.segmentFileSize ≤ elf.data.length ∧
      data = bytesAt elf.data header.offset header.segmentFileSize := by
  unfold ElfFile.segment at found
  split at found
  · next positive =>
      obtain ⟨stop, added, found⟩ := except_bind_eq_ok.mp found
      obtain ⟨bytes, sliced, found⟩ := except_bind_eq_ok.mp found
      cases found
      rw [(checkedAdd_eq_ok.mp added).2, slice_eq_ok] at sliced
      obtain ⟨⟨_, within⟩, rfl⟩ := sliced
      refine ⟨positive, within, ?_⟩
      rw [Nat.add_sub_cancel_left]
  · cases found

theorem ElfFile.segment_of_within
    {elf : ElfFile} {header : ProgramHeader}
    (positive : 0 < header.segmentFileSize)
    (within : header.offset + header.segmentFileSize ≤ elf.data.length)
    (short : elf.data.length < 2 ^ 64) :
    elf.segment header =
      .ok (some (bytesAt elf.data header.offset header.segmentFileSize)) := by
  have added :
      checkedAdd header.offset header.segmentFileSize =
        .ok (header.offset + header.segmentFileSize) :=
    checkedAdd_eq_ok.mpr ⟨by unfold wordSize; omega, rfl⟩
  have sliced :
      slice elf.data header.offset (header.offset + header.segmentFileSize) =
        .ok (bytesAt elf.data header.offset header.segmentFileSize) :=
    slice_eq_ok.mpr
      ⟨⟨Nat.le_add_right _ _, within⟩, by rw [Nat.add_sub_cancel_left]⟩
  unfold ElfFile.segment
  rw [if_pos positive, added]
  simp only [bind, Except.bind, sliced, pure, Except.pure]

theorem ElfFile.segment_eq_none
    {elf : ElfFile} {header : ProgramHeader}
    (found : elf.segment header = .ok none) :
    header.segmentFileSize = 0 := by
  unfold ElfFile.segment at found
  split at found
  · obtain ⟨stop, _, found⟩ := except_bind_eq_ok.mp found
    obtain ⟨bytes, _, found⟩ := except_bind_eq_ok.mp found
    cases found
  · omega

end RustKernel.Loader
