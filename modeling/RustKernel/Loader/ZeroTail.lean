import RustKernel.Loader.CopyTargets
import RustKernel.Loader.LoadedImage

/-!
# The bytes of a segment behind its file bytes

Nothing in the segment loop clears memory.  The rest of the last file page
keeps what its frame held before, and every page behind it is filled with a
second copy of the last chunk.  The bytes behind the file bytes are therefore
zero only when there are none, or when the file ends with its page and that
page begins with as many zeros as are needed.
-/

namespace RustKernel.Loader

open RustKernel.Foundations
open RustKernel.Machine
open RustKernel.Memory
open RustKernel.Paging

/-- Every byte of the tail has a virtual address. -/
def ProgramHeader.TailAddressable (header : ProgramHeader) : Prop :=
  ∀ index, header.segmentFileSize ≤ index → index < header.segmentMemSize →
    IsCanonical (header.virtualAddress + index)

/-- A tail of virtual addresses does not reach from one half to the other. -/
theorem ProgramHeader.TailAddressable.lt {header : ProgramHeader}
    {index : Nat} (addressable : header.TailAddressable)
    (ranges : header.segmentPages = .ok header.pages)
    (short : header.segmentFileSize < 2 ^ 63)
    (behind : header.segmentFileSize ≤ index)
    (inSegment : index < header.segmentMemSize) :
    index < 2 ^ 63 := by
  have bounds := ProgramHeader.segmentPages_bounds ranges
  have own := addressable index behind inSegment
  unfold IsCanonical at own
  by_contra long
  have gap := addressable (2 ^ 63 - 1) (by omega) (by omega)
  unfold IsCanonical at gap
  omega

/-- The segment has no tail, or the copies of the last chunk that fill it leave
zeros there and nothing else. -/
def ZeroTail (elf : ElfFile) (header : ProgramHeader) : Prop :=
  header.segmentMemSize = header.segmentFileSize ∨
    header.TailAddressable ∧ header.segmentFileSize % 4096 = 0 ∧
      ∀ offset < min (header.segmentMemSize - header.segmentFileSize) 4096,
        elf.data[header.offset + (header.segmentFileSize - 4096) + offset]? =
          some 0

/-- The byte that the table maps at every address of the tail is zero,
whatever the memory held before the call. -/
def TailZeroed {T C : Type} [Mapper T] (table : T) (final : Machine T C)
    (header : ProgramHeader) : Prop :=
  ∀ memory index, header.segmentFileSize ≤ index →
    index < header.segmentMemSize →
      ∃ physical,
        translatePointer table (header.virtualAddress + index) =
          some physical ∧
        final.contents memory physical = 0

/-- Between the two states every copy was made in its frame, and no frame was
refused. -/
structure Orderly {T C : Type} [Mapper C] (elf : ElfFile)
    (start final : Machine T C) : Prop where
  fits : ∀ header ∈ elf.loadHeaders, FitsFrame header
  ready :
    ∀ index frame, start.allocator.drawn ≤ index →
      start.allocator.answers index = some frame →
        IdentityReady start.current frame
  neverOut : ¬ start.allocator.Answered final.allocator none

/-! ## The chunk of a page of the tail -/

section Chunks

variable {header : ProgramHeader} {page : Page .size4KiB} {index : Nat}

/-- Behind a file that ends with its page, the last file page is repeated. -/
theorem chunk_behind_file (elf : ElfFile)
    (positive : 0 < header.segmentFileSize)
    (whole : header.segmentFileSize % 4096 = 0)
    (behind : header.segmentFileSize ≤ index)
    (numbered : page.number = header.firstPage.number + index / 4096) :
    ((Turn.mk header page).chunk elf)[index % 4096]? =
      elf.data[header.offset + (header.segmentFileSize - 4096) +
        index % 4096]? := by
  have turnIndex : (Turn.mk header page).index = index / 4096 := by
    simp only [Turn.index]
    omega
  have start :
      (Turn.mk header page).start = header.segmentFileSize - 4096 := by
    simp only [Turn.start, chunkStart, turnIndex]
    omega
  have inChunk : index % 4096 < (Turn.mk header page).length := by
    simp only [Turn.length, Turn.fileSize, start]
    omega
  unfold Turn.chunk
  rw [bytesAt_getElem? inChunk]
  simp only [start]

/-- The chunk of a file that ends inside a page stops at its last byte. -/
theorem chunk_length_of_remainder
    (ends : header.segmentFileSize % 4096 ≠ 0)
    (numbered :
      page.number =
        header.firstPage.number + header.segmentFileSize / 4096) :
    (Turn.mk header page).length = header.segmentFileSize % 4096 := by
  have turnIndex :
      (Turn.mk header page).index = header.segmentFileSize / 4096 := by
    simp only [Turn.index]
    omega
  have start :
      (Turn.mk header page).start =
        4096 * (header.segmentFileSize / 4096) := by
    simp only [Turn.start, chunkStart, turnIndex]
    omega
  simp only [Turn.length, Turn.fileSize, start]
  omega

end Chunks

/-! ## Loaded segments -/

section Loaded

variable {T C : Type} [Mapper T] [LawfulMapper T]
variable {elf : ElfFile} {header : ProgramHeader} {table : T}
variable {start final : Machine T C}

/-- A file that ends inside a page leaves the memory behind it as it was. -/
theorem stale_byte
    (loaded : SegmentLoaded elf header table start final)
    (ranges : header.segmentPages = .ok header.pages)
    (aligned : header.virtualAddress % 4096 = 0)
    (short : header.segmentFileSize < 2 ^ 63)
    (canonical :
      IsCanonical (header.virtualAddress + header.segmentFileSize))
    (ends : header.segmentFileSize % 4096 ≠ 0)
    (longer : header.segmentFileSize < header.segmentMemSize) :
    ∃ physical,
      translatePointer table
          (header.virtualAddress + header.segmentFileSize) =
        some physical ∧
      ∀ memory,
        final.contents memory physical = start.contents memory physical := by
  obtain ⟨page, frame, numbered, translated, image⟩ :=
    loaded.byte ranges aligned (Nat.le_of_lt longer) short canonical
  rw [translatePointer, if_pos canonical]
  refine ⟨_, translated, ?_⟩
  intro memory
  apply image.stale
  · simp only [PhysFrame.Holds, PageSize.bytes]
    omega
  · rw [chunk_length_of_remainder ends numbered]
    simp only
    omega

/-- A file that ends with its page is followed by its last page again. -/
theorem repeated_byte
    (loaded : SegmentLoaded elf header table start final)
    (ranges : header.segmentPages = .ok header.pages)
    (positive : 0 < header.segmentFileSize)
    (within : header.offset + header.segmentFileSize ≤ elf.data.length)
    (aligned : header.virtualAddress % 4096 = 0)
    (whole : header.segmentFileSize % 4096 = 0)
    {index : Nat} (behind : header.segmentFileSize ≤ index)
    (inSegment : index < header.segmentMemSize) (short : index < 2 ^ 63)
    (canonical : IsCanonical (header.virtualAddress + index)) :
    ∃ physical,
      translatePointer table (header.virtualAddress + index) =
        some physical ∧
      ∀ memory,
        elf.data[header.offset + (header.segmentFileSize - 4096) +
            index % 4096]? =
          some (final.contents memory physical) := by
  obtain ⟨page, frame, numbered, translated, image⟩ :=
    loaded.byte ranges aligned (Nat.le_of_lt inSegment) short canonical
  rw [translatePointer, if_pos canonical]
  refine ⟨_, translated, ?_⟩
  intro memory
  exact image.getElem?_eq aligned
    (chunk_behind_file elf positive whole behind numbered) (by omega) memory

omit [LawfulMapper T] in
theorem tailZeroed_of_no_tail
    (empty : header.segmentMemSize = header.segmentFileSize) :
    TailZeroed table final header := by
  intro memory index behind inSegment
  omega

theorem tailZeroed_iff_of_loaded
    (loaded : SegmentLoaded elf header table start final)
    (unwritten : start.stores = [])
    (ranges : header.segmentPages = .ok header.pages)
    (positive : 0 < header.segmentFileSize)
    (ordered : header.segmentFileSize ≤ header.segmentMemSize)
    (within : header.offset + header.segmentFileSize ≤ elf.data.length)
    (short : header.segmentFileSize < 2 ^ 63)
    (aligned : header.virtualAddress % 4096 = 0) :
    TailZeroed table final header ↔ ZeroTail elf header := by
  constructor
  · intro zeroed
    by_cases empty : header.segmentMemSize = header.segmentFileSize
    · exact Or.inl empty
    have longer : header.segmentFileSize < header.segmentMemSize := by omega
    have addressable : header.TailAddressable := by
      intro index behind inSegment
      obtain ⟨_, translated, _⟩ := zeroed (fun _ => 0) index behind inSegment
      exact canonical_of_translatePointer translated
    refine Or.inr ⟨addressable, ?_⟩
    by_cases whole : header.segmentFileSize % 4096 = 0
    · refine ⟨whole, ?_⟩
      intro offset bound
      have behind :
          header.segmentFileSize ≤ header.segmentFileSize + offset := by
        omega
      have inSegment :
          header.segmentFileSize + offset < header.segmentMemSize := by
        omega
      obtain ⟨physical, translated, bytes⟩ :=
        repeated_byte loaded ranges positive within aligned whole behind
          inSegment (addressable.lt ranges short behind inSegment)
          (addressable _ behind inSegment)
      obtain ⟨other, translatedToo, zero⟩ :=
        zeroed (fun _ => 0) _ behind inSegment
      rw [translated] at translatedToo
      cases translatedToo
      have position : (header.segmentFileSize + offset) % 4096 = offset := by
        omega
      rw [← zero, ← bytes, position]
    · exfalso
      obtain ⟨physical, translated, stale⟩ :=
        stale_byte loaded ranges aligned short
          (addressable _ (Nat.le_refl _) longer) whole longer
      obtain ⟨other, translatedToo, zero⟩ :=
        zeroed (fun _ => 1) _ (Nat.le_refl _) longer
      rw [translated] at translatedToo
      cases translatedToo
      rw [stale, Machine.contents, unwritten] at zero
      change (1 : UInt8) = 0 at zero
      exact absurd zero (by decide)
  · rintro (empty | ⟨addressable, whole, zeros⟩)
    · exact tailZeroed_of_no_tail empty
    intro memory index behind inSegment
    obtain ⟨physical, translated, bytes⟩ :=
      repeated_byte loaded ranges positive within aligned whole behind
        inSegment (addressable.lt ranges short behind inSegment)
        (addressable _ behind inSegment)
    refine ⟨physical, translated, ?_⟩
    have byte := bytes memory
    rw [zeros (index % 4096) (by omega)] at byte
    exact (Option.some.inj byte).symm

end Loaded

/-! ## The loaders -/

section Loaders

variable {T C : Type} [StoredMapper T] [StoredMapper C]
variable [LawfulMapper T] [LawfulMapper C]
variable [LawfulStoredMapper T] [LawfulStoredMapper C]
variable {elf : ElfFile} {header : ProgramHeader}
variable {front back : List ProgramHeader}

end Loaders

/-! ## Two files -/

def clearedHeader : ProgramHeader :=
  ⟨.load, 120, 0x400000, 4096, 4100⟩

/-- A page of zeros with four bytes of tail behind it. -/
def clearedElf : ElfFile :=
  ElfFile.layOut 0x400000 [clearedHeader] (List.replicate 4096 0)

theorem clearedTable :
    LoadTable 0x400000 [clearedHeader] (List.replicate 4096 0) := by
  decide +kernel

def dirtyHeader : ProgramHeader :=
  ⟨.load, 0, 0x400000, 1, 2⟩

/-- One byte of file and one byte of tail. -/
def dirtyElf : ElfFile :=
  ElfFile.layOut 0x400000 [dirtyHeader] []

theorem dirtyTable : LoadTable 0x400000 [dirtyHeader] [] := by
  decide

end RustKernel.Loader
