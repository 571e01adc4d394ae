import RustKernel.Loader.LoadedImage

/-!
# Segments on pages of their own

When no page of a segment is mapped before, every page of it gets a frame that
is drawn for it, that no table is stored in and that is not given out again.
The bytes of the file are then in the frames for as long as writes keep to
tables and to frames that are drawn later.
-/

namespace RustKernel.Loader

open RustKernel.Foundations
open RustKernel.Machine
open RustKernel.Memory
open RustKernel.Paging

/-- A program whose segments begin on pages of their own, apart from what is
mapped beside them. -/
structure SegmentsApart (elf : ElfFile) (reserved : List AnyPage) : Prop where
  short : elf.data.length < 2 ^ 63
  sizes :
    ∀ header ∈ elf.loadHeaders,
      0 < header.segmentFileSize ∧
        header.segmentFileSize ≤ header.segmentMemSize
  aligned : ∀ header ∈ elf.loadHeaders, header.virtualAddress % 4096 = 0
  within :
    ∀ header ∈ elf.loadHeaders,
      header.offset + header.segmentFileSize ≤ elf.data.length
  disjoint :
    elf.loadHeaders.Pairwise fun left right =>
      List.Disjoint left.pages right.pages
  reserved :
    ∀ header ∈ elf.loadHeaders, ∀ page ∈ header.pages,
      ∀ mapped ∈ reserved, Apart mapped.2 page

theorem SegmentsApart.fits {elf : ElfFile} {reserved : List AnyPage}
    (apart : SegmentsApart elf reserved) :
    ∀ header ∈ elf.loadHeaders, FitsFrame header :=
  fun header member => fitsFrame_of_aligned (apart.aligned header member)

/-- The segments in front of one have other pages. -/
theorem SegmentsApart.alone {elf : ElfFile} {reserved : List AnyPage}
    {front back : List ProgramHeader} {header : ProgramHeader}
    (apart : SegmentsApart elf reserved)
    (listed : elf.loadHeaders = front ++ header :: back) :
    ∀ other ∈ front, List.Disjoint other.pages header.pages := by
  intro other ofFront
  have disjoint := apart.disjoint
  rw [listed, List.pairwise_append] at disjoint
  exact disjoint.2.2 other ofFront header (by simp)

section Turns

variable {T C : Type} [Mapper T] [Mapper C] [LawfulMapper T] [LawfulMapper C]
variable {elf : ElfFile} {afterMap : AfterMap} {turn : Turn}
variable {start ready final : Machine T C}

/-- The first turn of a page leaves its frame to the page. -/
theorem turn_settled {front back : List Turn}
    (fresh : Fresh start) (confined : ConfinedTo ∅ start ready)
    (fits : ∀ header ∈ elf.loadHeaders, FitsFrame header)
    (returned : (loadSegments elf afterMap).run ready = .ok () final)
    (neverOut : ¬ ready.allocator.Answered final.allocator none)
    (listed : turns elf = front ++ turn :: back)
    (first : ∀ earlier ∈ front, earlier.page ≠ turn.page)
    (unmapped : Unmapped ready.table turn.page) :
    ∃ frame flags,
      entry final.table .size4KiB turn.page = .leaf frame flags ∧
        Settled frame final ∧
        start.allocator.Answered final.allocator (some frame) := by
  have loadable := loadable_of_run_ok returned
  have member : turn ∈ turns elf := by simp [listed]
  have frontListed : front ⊆ turns elf := by simp [listed]
  have backListed : back ⊆ turns elf := by
    rw [listed]
    exact fun later laterMember => by simp [laterMember]
  obtain ⟨before, frame, flags, begun, answer, ended, leaf⟩ :=
    first_turn_maps returned neverOut listed first unmapped
  have toBefore : ConfinedTo ∅ start before :=
    RunRelation.trans confined
      ((confined_turns loadable fits frontListed).of_run_ok begun)
  have toFinal : ConfinedTo ∅ (turn.taken elf frame before) final :=
    (confined_turns loadable fits backListed).of_run_ok ended
  obtain ⟨_, settled⟩ :=
    frameImage_turn (loadable.inFile member) (turn_fits fits member)
      (fresh.grows toBefore.toGrows) answer
  have drawn :=
    (answered_drawFrame answer).earlier
      (turn.grows_taken elf frame before).advances
  exact ⟨frame, flags, leaf, settled.grows toFinal.toGrows,
    (drawn.earlier toFinal.advances).later toBefore.advances⟩

/-- Every page of the segment has a frame that is drawn for it alone. -/
def SegmentSettled (header : ProgramHeader) (start final : Machine T C) :
    Prop :=
  ∀ page ∈ header.pages, ∃ frame flags,
    entry final.table .size4KiB page = .leaf frame flags ∧
      Settled frame final ∧
      start.allocator.Answered final.allocator (some frame)

/-- The frames of a segment whose pages are free when the loop begins. -/
theorem SegmentsApart.settled {reserved : List AnyPage}
    {header : ProgramHeader} (apart : SegmentsApart elf reserved)
    (fresh : Fresh start) (confined : ConfinedTo ∅ start ready)
    (returned : (loadSegments elf afterMap).run ready = .ok () final)
    (neverOut : ¬ ready.allocator.Answered final.allocator none)
    (member : header ∈ elf.loadHeaders)
    (unmapped : ∀ page ∈ header.pages, Unmapped ready.table page) :
    SegmentSettled header start final := by
  obtain ⟨front, back, listed⟩ := List.append_of_mem member
  intro page inRange
  obtain ⟨earlier, later, split, before⟩ :=
    turns_split listed (apart.sizes header member).1 inRange
  apply turn_settled fresh confined apart.fits returned neverOut split _
    (unmapped page inRange)
  intro turn listedBefore
  rcases before turn listedBefore with ⟨ofFront, _, covered⟩ | different
  · rintro rfl
    exact apart.alone listed turn.header ofFront covered inRange
  · exact different

omit [LawfulMapper T] [LawfulMapper C] in
/-- Settled frames keep the image while nothing else is written to. -/
theorem SegmentLoaded.later {header : ProgramHeader} {loaded : Machine T C}
    (image : SegmentLoaded elf header loaded.table start loaded)
    (settled : SegmentSettled header start loaded)
    (confined : ConfinedTo ∅ loaded final)
    (leaves :
      ∀ (page : Page .size4KiB) frame flags,
        entry loaded.table .size4KiB page = .leaf frame flags →
          entry final.table .size4KiB page = .leaf frame flags)
    (fits : FitsFrame header)
    (inFile :
      ∀ page ∈ header.pages, (Turn.mk header page).InFile elf) :
    SegmentLoaded elf header final.table start final := by
  intro page inRange
  obtain ⟨frame, flags, leaf, held⟩ := image page inRange
  obtain ⟨own, _, ownLeaf, alone, _⟩ := settled page inRange
  rw [leaf] at ownLeaf
  cases ownLeaf
  have turnFits : (Turn.mk header page).Fits := by
    rcases fits with empty | fitting
    · rw [empty] at inRange
      cases inRange
    · simp only [Turn.Fits, Turn.length, Turn.fileSize]
      omega
  refine ⟨frame, flags, leaves page frame flags leaf,
    held.of_kept (inFile page inRange) turnFits (fun _ _ _ => rfl) ?_⟩
  intro memory address inside
  exact alone.kept confined inside

end Turns

section Bytes

variable {T C : Type} [Mapper T]
variable {elf : ElfFile} {reserved : List AnyPage} {header : ProgramHeader}
variable {table : T} {start final : Machine T C} {index : Nat}

/-- The table shows the byte of the file at the address of the segment. -/
theorem SegmentLoaded.file_byte
    (loaded : SegmentLoaded elf header table start final)
    (apart : SegmentsApart elf reserved)
    (ranges : header.segmentPages = .ok header.pages)
    (member : header ∈ elf.loadHeaders)
    (inFile : index < header.segmentFileSize)
    (canonical : IsCanonical (header.virtualAddress + index)) :
    ∃ page ∈ header.pages, ∃ frame flags,
      entry table .size4KiB page = .leaf frame flags ∧
        (header.virtualAddress + index) % 2 ^ 48 / 4096 = page.number ∧
        ∀ memory,
          elf.data[header.offset + index]? =
            some (final.contents memory
              (frame.startAddress +
                (header.virtualAddress + index) % 2 ^ 48 % 4096)) := by
  have short := apart.short
  have inData := apart.within header member
  have inSegment := (apart.sizes header member).2
  have aligned := apart.aligned header member
  obtain ⟨numbered, position, inRange⟩ :=
    page_of_byte ranges aligned (by omega : index ≤ header.segmentMemSize)
      (by omega) canonical
  obtain ⟨frame, flags, leaf, image⟩ := loaded _ inRange
  refine ⟨_, inRange, frame, flags, leaf, rfl, ?_⟩
  intro memory
  rw [position]
  exact image.getElem?_eq aligned (chunk_at_byte elf inFile numbered)
    (by omega) memory

end Bytes

end RustKernel.Loader
