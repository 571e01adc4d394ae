import RustKernel.Loader.ZeroTail

/-!
# The pages that the segment loop maps

The page range of a segment includes the page of the address behind it, and a
segment without file bytes is passed over.  The loop therefore maps one page
too many for a segment that ends with a page, and none for a segment that is
all zeros.  Where two segments meet on a page, the first one in the table gets
it, because the answer of the second `map_to` is dropped.
-/

namespace RustKernel.Loader

open RustKernel.Foundations
open RustKernel.Machine
open RustKernel.Memory
open RustKernel.Paging

/-! ## The pages of a segment -/

/-- The page holds a byte of the segment. -/
def ProgramHeader.Touches (header : ProgramHeader) (page : Page .size4KiB) :
    Prop :=
  ∃ index < header.segmentMemSize,
    IsCanonical (header.virtualAddress + index) ∧
      page.number = (header.virtualAddress + index) % 2 ^ 48 / 4096

/-- The page holds the last byte of the segment, or the address behind it. -/
def ProgramHeader.EndsOn (header : ProgramHeader) (page : Page .size4KiB) :
    Prop :=
  header.lastPage = page ∨
    0 < header.segmentMemSize ∧
      page.number =
        (header.virtualAddress + (header.segmentMemSize - 1)) % 2 ^ 48 / 4096

/-- `VirtAddr::new` moves the begin or the end of the segment to the upper
half, by extending bit 47. -/
def ProgramHeader.SignExtended (header : ProgramHeader) : Prop :=
  2 ^ 47 ≤ header.virtualAddress ∧ header.virtualAddress < 2 ^ 48 ∨
    2 ^ 47 < header.virtualAddress + header.segmentMemSize ∧
      header.virtualAddress + header.segmentMemSize < 2 ^ 48

instance (header : ProgramHeader) : Decidable header.SignExtended :=
  inferInstanceAs (Decidable (_ ∨ _))

section Ranges

variable {header : ProgramHeader} {page : Page .size4KiB}

theorem touches_iff
    (ranges : header.segmentPages = .ok header.pages)
    (nonempty : 0 < header.segmentMemSize)
    (canonical : ¬ header.SignExtended) :
    header.Touches page ↔
      header.firstPage.number ≤ page.number ∧
        page.number ≤
          (header.virtualAddress + header.segmentMemSize - 1) % 2 ^ 48 /
            4096 := by
  have bounds := ProgramHeader.segmentPages_bounds ranges
  unfold ProgramHeader.SignExtended at canonical
  unfold ProgramHeader.Touches ProgramHeader.firstPage IsCanonical
  simp only
  constructor
  · rintro ⟨index, inSegment, hasAddress, numbered⟩
    omega
  · rintro ⟨lower, upper⟩
    let base :=
      if page.number < 2 ^ 35 then page.number * 4096
      else 2 ^ 64 - 2 ^ 48 + page.number * 4096
    refine ⟨base - header.virtualAddress, ?_⟩
    unfold base
    split <;> omega

/-- The range of a segment is the pages that it touches, and the page behind
it when it ends with a page. -/
theorem mem_pages_iff_touches
    (ranges : header.segmentPages = .ok header.pages)
    (nonempty : 0 < header.segmentMemSize)
    (canonical : ¬ header.SignExtended) :
    page ∈ header.pages ↔
      header.Touches page ∨
        (header.virtualAddress + header.segmentMemSize) % 4096 = 0 ∧
          page = header.lastPage := by
  have bounds := ProgramHeader.segmentPages_bounds ranges
  have samePage : page = header.lastPage ↔
      page.number = header.lastPage.number := by
    cases page
    exact Page.mk.injEq _ _ ▸ Iff.rfl
  rw [touches_iff ranges nonempty canonical, ProgramHeader.mem_pages,
    samePage]
  unfold ProgramHeader.SignExtended at canonical
  unfold ProgramHeader.firstPage ProgramHeader.lastPage
  simp only
  omega

end Ranges

/-! ## The pages of a run -/

section Pages

variable {T C : Type} [Mapper T] [Mapper C] [LawfulMapper T] [LawfulMapper C]
variable {elf : ElfFile} {ready final : Machine T C}

/-- The run from the first machine to the second has mapped the page. -/
def NewlyMapped (before after : Machine T C) (page : Page .size4KiB) : Prop :=
  translatePage before.table page = none ∧
    ∃ frame, translatePage after.table page = some frame

/-- The mapped pages are the pages of turns. -/
theorem newlyMapped_iff
    (unmapped : ∀ turn ∈ turns elf, Unmapped ready.table turn.page)
    (looped : (loadSegments elf ignoreAnswer).run ready = .ok () final)
    (neverOut : ¬ ready.allocator.Answered final.allocator none)
    {page : Page .size4KiB} :
    NewlyMapped ready final page ↔ ∃ turn ∈ turns elf, turn.page = page := by
  constructor
  · rintro ⟨absent, frame, present⟩
    by_contra elsewhere
    have different : ∀ turn ∈ turns elf, turn.page ≠ page :=
      fun turn member same => elsewhere ⟨turn, member, same⟩
    have same :=
      entry_turns (loadable_of_run_ok looped) (List.Subset.refl _) different
        (turns_run_ok looped)
    unfold translatePage at absent present
    rw [same, absent] at present
    cases present
  · rintro ⟨turn, member, rfl⟩
    refine ⟨?_, ?_⟩
    · unfold translatePage
      rw [(unmapped turn member).unused]
    · obtain ⟨frame, flags, leaf⟩ :=
        leaf_of_mem_turns (unmapped turn member).noHugeParent neverOut
          member looped
      exact ⟨frame, translatePage_eq_some.mpr ⟨flags, leaf⟩⟩

/-- The loop has mapped the pages that hold a byte of a segment. -/
def ExactCoverage (elf : ElfFile) (ready final : Machine T C) : Prop :=
  ∀ page, NewlyMapped ready final page ↔
    ∃ header ∈ elf.loadHeaders, header.Touches page

/-- The page behind a segment that ends with a page holds a byte of a segment.
Segments without file bytes lie in the ranges of segments with file bytes.  A
segment that the extension of bit 47 moves has to meet both: its range holds
bytes of segments, and its bytes are in ranges. -/
structure RangesExact (elf : ElfFile) : Prop where
  ends :
    ∀ header ∈ elf.loadHeaders, 0 < header.segmentFileSize →
      ¬ header.SignExtended →
        (header.virtualAddress + header.segmentMemSize) % 4096 = 0 →
          ∃ other ∈ elf.loadHeaders, other.Touches header.lastPage
  extended :
    ∀ header ∈ elf.loadHeaders, 0 < header.segmentFileSize →
      header.SignExtended →
        ∀ page ∈ header.pages, ∃ other ∈ elf.loadHeaders, other.Touches page
  skipped :
    ∀ header ∈ elf.loadHeaders,
      header.segmentFileSize = 0 ∨ header.SignExtended →
        ∀ page, header.Touches page →
          ∃ other ∈ elf.loadHeaders,
            0 < other.segmentFileSize ∧ page ∈ other.pages

theorem exactCoverage_iff
    (sizes :
      ∀ header ∈ elf.loadHeaders,
        header.segmentFileSize ≤ header.segmentMemSize)
    (unmapped : ∀ turn ∈ turns elf, Unmapped ready.table turn.page)
    (looped : (loadSegments elf ignoreAnswer).run ready = .ok () final)
    (neverOut : ¬ ready.allocator.Answered final.allocator none) :
    ExactCoverage elf ready final ↔ RangesExact elf := by
  have loadable := loadable_of_run_ok looped
  have ofPages :
      ∀ header ∈ elf.loadHeaders, 0 < header.segmentFileSize →
        ¬ header.SignExtended →
          ∀ page, page ∈ header.pages ↔
            header.Touches page ∨
              (header.virtualAddress + header.segmentMemSize) % 4096 = 0 ∧
                page = header.lastPage := by
    intro header member positive canonical page
    exact mem_pages_iff_touches (loadable.ranges header member)
      (Nat.lt_of_lt_of_le positive (sizes header member)) canonical
  unfold ExactCoverage
  simp only [newlyMapped_iff unmapped looped neverOut]
  constructor
  · intro covers
    have touched :
        ∀ header ∈ elf.loadHeaders, 0 < header.segmentFileSize →
          ∀ page ∈ header.pages,
            ∃ other ∈ elf.loadHeaders, other.Touches page := by
      intro header member positive page inRange
      exact (covers page).mp
        ⟨⟨header, page⟩, mem_turns.mpr ⟨member, positive, inRange⟩, rfl⟩
    refine ⟨?_, fun header member positive _ => touched header member positive,
      ?_⟩
    · intro header member positive canonical ends
      exact touched header member positive header.lastPage
        ((ofPages header member positive canonical header.lastPage).mpr
          (Or.inr ⟨ends, rfl⟩))
    · intro header member _ page touched
      obtain ⟨turn, taken, rfl⟩ := (covers page).mpr ⟨header, member, touched⟩
      exact ⟨turn.header, mem_turns.mp taken⟩
  · intro ranges page
    constructor
    · rintro ⟨turn, taken, rfl⟩
      obtain ⟨member, positive, inRange⟩ := mem_turns.mp taken
      by_cases canonical : turn.header.SignExtended
      · exact ranges.extended turn.header member positive canonical turn.page
          inRange
      rcases (ofPages turn.header member positive canonical turn.page).mp
          inRange with
        touched | ⟨ends, last⟩
      · exact ⟨turn.header, member, touched⟩
      · rw [last]
        exact ranges.ends turn.header member positive canonical ends
    · rintro ⟨header, member, touched⟩
      by_cases passed : header.segmentFileSize = 0 ∨ header.SignExtended
      · obtain ⟨other, listed, copied, inRange⟩ :=
          ranges.skipped header member passed page touched
        exact ⟨⟨other, page⟩, mem_turns.mpr ⟨listed, copied, inRange⟩, rfl⟩
      · rw [not_or] at passed
        have positive := Nat.pos_of_ne_zero passed.1
        have inRange :=
          (ofPages header member positive passed.2 page).mpr (Or.inl touched)
        exact ⟨⟨header, page⟩, mem_turns.mpr ⟨member, positive, inRange⟩,
          rfl⟩

end Pages

/-! ## The owner of a page -/

section Owners

variable {T C : Type} [Mapper T] [Mapper C] [LawfulMapper T] [LawfulMapper C]
variable {elf : ElfFile} {afterMap : AfterMap} {turn : Turn}
variable {start ready final : Machine T C}

/-- The first segment with file bytes whose range has the page. -/
def ElfFile.owner (elf : ElfFile) (page : Page .size4KiB) :
    Option ProgramHeader :=
  elf.loadHeaders.find? fun header =>
    0 < header.segmentFileSize ∧ page ∈ header.pages

theorem exists_owner (member : turn ∈ turns elf) :
    ∃ header, elf.owner turn.page = some header := by
  obtain ⟨listed, positive, inRange⟩ := mem_turns.mp member
  rw [← Option.isSome_iff_exists, ElfFile.owner, List.find?_isSome]
  exact ⟨turn.header, listed, decide_eq_true ⟨positive, inRange⟩⟩

theorem first_turn_of_owner {header : ProgramHeader} {page : Page .size4KiB}
    (owned : elf.owner page = some header) :
    ∃ front back,
      turns elf = front ++ ⟨header, page⟩ :: back ∧
        ∀ earlier ∈ front, earlier.page ≠ page := by
  obtain ⟨owns, headersBefore, headersAfter, listed, passed⟩ :=
    List.find?_eq_some_iff_append.mp owned
  have ⟨positive, inRange⟩ := of_decide_eq_true owns
  obtain ⟨front, back, split, before⟩ := turns_split listed positive inRange
  refine ⟨front, back, split, ?_⟩
  intro earlier member
  rcases before earlier member with ⟨listedBefore, copied, covered⟩ | different
  · rintro rfl
    have notOwner := passed earlier.header listedBefore
    simp [copied, covered] at notOwner
  · exact different

/-- A page maps a frame with the image of the turn of its owner. -/
theorem owner_image {header : ProgramHeader} {page : Page .size4KiB}
    (fresh : Fresh start) (confined : ConfinedTo ∅ start ready)
    (fits : ∀ header ∈ elf.loadHeaders, FitsFrame header)
    (looped : (loadSegments elf afterMap).run ready = .ok () final)
    (neverOut : ¬ ready.allocator.Answered final.allocator none)
    (unmapped : Unmapped ready.table page)
    (owned : elf.owner page = some header) :
    ∃ frame flags,
      entry final.table .size4KiB page = .leaf frame flags ∧
        FrameImage elf ⟨header, page⟩ frame start final := by
  obtain ⟨front, back, listed, first⟩ := first_turn_of_owner owned
  exact turn_image fresh confined fits looped neverOut listed first unmapped

/-- The segment has file bytes and begins on a page on which another one
ends. -/
def ElfFile.Meets (elf : ElfFile) (header : ProgramHeader) : Prop :=
  header ∈ elf.loadHeaders ∧ 0 < header.segmentFileSize ∧
    ∃ other ∈ elf.loadHeaders, other ≠ header ∧
      other.EndsOn header.firstPage

/-- Segments that begin where another one ends have their own bytes on that
page. -/
def MeetingsOwned (elf : ElfFile) (table : T) (final : Machine T C) : Prop :=
  ∀ header, elf.Meets header →
    ∀ index < header.segmentFileSize,
      header.virtualAddress % 4096 + index < 4096 →
        ∃ physical,
          translatePointer table (header.virtualAddress + index) =
            some physical ∧
          ∀ memory,
            elf.data[header.offset + index]? =
              some (final.contents memory physical)

/-- What the owner of the page copies there puts the bytes of the segment in
their places. -/
def ProgramHeader.ShownBy (elf : ElfFile)
    (header owner : ProgramHeader) : Prop :=
  ∀ index < header.segmentFileSize,
    header.virtualAddress % 4096 + index < 4096 →
      owner.virtualAddress % 4096 ≤ header.virtualAddress % 4096 + index ∧
        ((Turn.mk owner header.firstPage).chunk elf)[
            header.virtualAddress % 4096 + index -
              owner.virtualAddress % 4096]? =
          elf.data[header.offset + index]?

/-- A segment that begins where another one ends does so at a virtual address,
and is the owner of that page, or the owner copies the same bytes there. -/
def MeetingsFirst (elf : ElfFile) : Prop :=
  ∀ header, elf.Meets header →
    IsCanonical header.virtualAddress ∧
      ∃ owner, elf.owner header.firstPage = some owner ∧
        (owner = header ∨ header.ShownBy elf owner)

theorem ProgramHeader.firstPage_mem_of_canonical {header : ProgramHeader}
    (ranges : header.segmentPages = .ok header.pages)
    (canonical : IsCanonical header.virtualAddress) :
    header.firstPage ∈ header.pages := by
  have bounds := ProgramHeader.segmentPages_bounds ranges
  unfold IsCanonical at canonical
  rw [ProgramHeader.mem_pages]
  unfold ProgramHeader.firstPage ProgramHeader.lastPage
  simp only
  omega

/-- The addresses of the first page of the segment. -/
theorem firstPage_address {header : ProgramHeader} {index : Nat}
    (ranges : header.segmentPages = .ok header.pages)
    (canonical : IsCanonical header.virtualAddress)
    (inPage : header.virtualAddress % 4096 + index < 4096) :
    IsCanonical (header.virtualAddress + index) ∧
      (header.virtualAddress + index) % 2 ^ 48 / 4096 =
        header.firstPage.number ∧
      (header.virtualAddress + index) % 2 ^ 48 % 4096 =
        header.virtualAddress % 4096 + index := by
  have bounds := ProgramHeader.segmentPages_bounds ranges
  unfold IsCanonical at canonical ⊢
  unfold ProgramHeader.firstPage
  simp only
  omega

theorem shownBy_self (elf : ElfFile) (header : ProgramHeader) :
    header.ShownBy elf header := by
  intro index inFile inPage
  refine ⟨by omega, ?_⟩
  rw [Nat.add_sub_cancel_left]
  have start : (Turn.mk header header.firstPage).start = 0 := by
    simp [Turn.start, Turn.index, chunkStart]
  unfold Turn.chunk
  rw [bytesAt_getElem?, start]
  · rfl
  · simp only [Turn.length, Turn.fileSize, start]
    omega

omit [Mapper T] [Mapper C] [LawfulMapper T] [LawfulMapper C] in
/-- The bytes that the page of a segment begins with are the file's when the
owner of the page copies them there. -/
theorem owned_byte {header owner : ProgramHeader}
    {frame : PhysFrame .size4KiB} {index : Nat}
    (image : FrameImage elf ⟨owner, header.firstPage⟩ frame start final)
    (begun :
      owner.virtualAddress % 4096 ≤ header.virtualAddress % 4096 + index)
    (chunk :
      ((Turn.mk owner header.firstPage).chunk elf)[
          header.virtualAddress % 4096 + index -
            owner.virtualAddress % 4096]? =
        elf.data[header.offset + index]?)
    (inData : header.offset + index < elf.data.length)
    (memory : Nat → UInt8) :
    elf.data[header.offset + index]? =
      some (final.contents memory
        (frame.startAddress + (header.virtualAddress % 4096 + index))) := by
  rw [List.getElem?_eq_getElem inData] at chunk ⊢
  have copied := image.copied memory _ _ chunk
  have position :
      frame.startAddress + owner.virtualAddress % 4096 +
          (header.virtualAddress % 4096 + index -
            owner.virtualAddress % 4096) =
        frame.startAddress + (header.virtualAddress % 4096 + index) := by
    omega
  rw [position] at copied
  rw [copied]

omit [Mapper T] [Mapper C] [LawfulMapper T] [LawfulMapper C] in
/-- A byte that is the same whatever the memory held before has been
copied. -/
theorem chunk_of_byte {header owner : ProgramHeader}
    {frame : PhysFrame .size4KiB} {index : Nat}
    (clean : start.stores = [])
    (inFile : (Turn.mk owner header.firstPage).InFile elf)
    (image : FrameImage elf ⟨owner, header.firstPage⟩ frame start final)
    (inPage : header.virtualAddress % 4096 + index < 4096)
    (bytes :
      ∀ memory,
        elf.data[header.offset + index]? =
          some (final.contents memory
            (frame.startAddress +
              (header.virtualAddress % 4096 + index)))) :
    owner.virtualAddress % 4096 ≤ header.virtualAddress % 4096 + index ∧
      ((Turn.mk owner header.firstPage).chunk elf)[
          header.virtualAddress % 4096 + index -
            owner.virtualAddress % 4096]? =
        elf.data[header.offset + index]? := by
  have held :
      frame.Holds
        (frame.startAddress + (header.virtualAddress % 4096 + index)) := by
    simp only [PhysFrame.Holds, PageSize.bytes]
    omega
  have covered :
      frame.startAddress + owner.virtualAddress % 4096 ≤
          frame.startAddress + (header.virtualAddress % 4096 + index) ∧
        frame.startAddress + (header.virtualAddress % 4096 + index) <
          frame.startAddress + owner.virtualAddress % 4096 +
            (Turn.mk owner header.firstPage).length := by
    by_contra outside
    have zero := bytes fun _ => 0
    have one := bytes fun _ => 1
    rw [image.stale _ _ held outside, Machine.contents, clean] at zero one
    rw [zero] at one
    have same : (0 : UInt8) = 1 := Option.some.inj one
    exact absurd same (by decide)
  have inChunk :
      header.virtualAddress % 4096 + index - owner.virtualAddress % 4096 <
        ((Turn.mk owner header.firstPage).chunk elf).length := by
    rw [inFile.chunk_length]
    omega
  refine ⟨by omega, ?_⟩
  have found := List.getElem?_eq_getElem inChunk
  have copied := image.copied (fun _ => 0) _ _ found
  have position :
      frame.startAddress + owner.virtualAddress % 4096 +
          (header.virtualAddress % 4096 + index -
            owner.virtualAddress % 4096) =
        frame.startAddress + (header.virtualAddress % 4096 + index) := by
    omega
  rw [position] at copied
  rw [found, bytes fun _ => 0, copied]

theorem meetingsOwned_iff
    (fresh : Fresh start) (clean : start.stores = [])
    (confined : ConfinedTo ∅ start ready)
    (fits : ∀ header ∈ elf.loadHeaders, FitsFrame header)
    (unmapped : ∀ turn ∈ turns elf, Unmapped ready.table turn.page)
    (looped : (loadSegments elf ignoreAnswer).run ready = .ok () final)
    (neverOut : ¬ ready.allocator.Answered final.allocator none) :
    MeetingsOwned elf final.table final ↔ MeetingsFirst elf := by
  have loadable := loadable_of_run_ok looped
  have ofOwner :
      ∀ header, elf.Meets header → IsCanonical header.virtualAddress →
        ∃ owner frame flags,
          elf.owner header.firstPage = some owner ∧
            (Turn.mk owner header.firstPage).InFile elf ∧
            entry final.table .size4KiB header.firstPage =
              .leaf frame flags ∧
            FrameImage elf ⟨owner, header.firstPage⟩ frame start final := by
    intro header meets canonical
    have member : Turn.mk header header.firstPage ∈ turns elf :=
      mem_turns.mpr ⟨meets.1, meets.2.1,
        ProgramHeader.firstPage_mem_of_canonical
          (loadable.ranges header meets.1) canonical⟩
    obtain ⟨owner, isOwner⟩ := exists_owner member
    obtain ⟨frame, flags, leaf, image⟩ :=
      owner_image fresh confined fits looped neverOut (unmapped _ member)
        isOwner
    refine ⟨owner, frame, flags, isOwner, ?_, leaf, image⟩
    obtain ⟨front, back, split, _⟩ := first_turn_of_owner isOwner
    exact loadable.inFile (by simp [split])
  constructor
  · intro owned header meets
    obtain ⟨_, translated, _⟩ :=
      owned header meets 0 meets.2.1 (by omega)
    have canonical : IsCanonical header.virtualAddress :=
      canonical_of_translatePointer translated
    obtain ⟨owner, frame, flags, isOwner, ownerInFile, leaf, image⟩ :=
      ofOwner header meets canonical
    refine ⟨canonical, owner, isOwner, Or.inr ?_⟩
    intro index inFile inPage
    obtain ⟨hasAddress, numbered, position⟩ :=
      firstPage_address (loadable.ranges header meets.1) canonical inPage
    obtain ⟨physical, translated, bytes⟩ :=
      owned header meets index inFile inPage
    rw [translatePointer, if_pos hasAddress,
      translateAddr_of_leaf leaf numbered, position, Option.some.injEq]
      at translated
    subst translated
    exact chunk_of_byte clean ownerInFile image inPage bytes
  · intro first header meets index inFile inPage
    obtain ⟨canonical, owner, isOwner, own⟩ := first header meets
    obtain ⟨other, frame, flags, isOther, _, leaf, image⟩ :=
      ofOwner header meets canonical
    rw [isOwner, Option.some.injEq] at isOther
    subst isOther
    have shown : header.ShownBy elf owner := by
      rcases own with rfl | shown
      · exact shownBy_self elf owner
      · exact shown
    obtain ⟨begun, chunk⟩ := shown index inFile inPage
    obtain ⟨hasAddress, numbered, position⟩ :=
      firstPage_address (loadable.ranges header meets.1) canonical inPage
    have within := loadable.bytes_within meets.1 meets.2.1
    refine ⟨frame.startAddress + (header.virtualAddress % 4096 + index), ?_,
      owned_byte image begun chunk (by omega)⟩
    rw [translatePointer, if_pos hasAddress,
      translateAddr_of_leaf leaf numbered, position]

end Owners

/-! ## The segment loop of `kernel_from_elf` -/

section Setup

variable {T C : Type} [Mapper T] [Mapper C] [LawfulMapper T] [LawfulMapper C]

omit [Mapper C] [LawfulMapper C] in
/-- Pages apart from those that are reserved are unmapped at the loop. -/
theorem unmapped_of_kernelSetup
    {descriptors : List MemoryDescriptor} {elf : ElfFile}
    {kernelStackStart kernelStackEnd mem : Nat} {state ready : Machine T C}
    (empty : Empty state.table)
    (reserved :
      ∀ header ∈ elf.loadHeaders, ∀ page ∈ header.pages,
        ∀ mapped ∈
            kernelReserved descriptors kernelStackStart kernelStackEnd mem,
          Apart mapped.2 page)
    (setup :
      (kernelSetup descriptors kernelStackStart kernelStackEnd mem).run state =
        .ok () ready) :
    ∀ turn ∈ turns elf, Unmapped ready.table turn.page := by
  intro turn member
  obtain ⟨listed, _, inRange⟩ := mem_turns.mp member
  exact unmapped_of_onPages (onPages_kernelSetup empty setup)
    (reserved turn.header listed turn.page inRange)

end Setup

section Loop

variable {T C : Type} [StoredMapper T] [StoredMapper C]
variable [LawfulMapper T] [LawfulMapper C]
variable [LawfulStoredMapper T] [LawfulStoredMapper C]

/-- Behind the setup of a loader, segments that fit are loaded as if every copy
were sent to its frame. -/
theorem loadSegments_run_of_ready
    {descriptors : List MemoryDescriptor} {elf : ElfFile}
    {kernelStackStart kernelStackEnd mem : Nat}
    {newPageTable : T} {current : C} {allocator : FrameAllocator}
    {idIndex : Nat} {ready final : Machine T C}
    (fresh : Fresh (Machine.start newPageTable current allocator idIndex))
    (identityReady :
      ∀ index frame, allocator.drawn ≤ index →
        allocator.answers index = some frame → IdentityReady current frame)
    (fits : ∀ header ∈ elf.loadHeaders, FitsFrame header)
    (setup :
      (kernelSetup descriptors kernelStackStart kernelStackEnd mem).run
        (Machine.start newPageTable current allocator idIndex) =
          .ok () ready)
    (looped :
      (throughActive.loadSegments elf ignoreAnswer).run ready =
        .ok () final) :
    (loadSegments elf ignoreAnswer).run ready = .ok () final := by
  have clear : Clear allocator ready :=
    (preserves_kernelSetup (R := KeepsClear allocator) _ _ _ _).of_run_ok setup
      (clear_start fresh identityReady)
  exact ((refines_loadSegments fits).of_run_ok clear looped).1

end Loop

/-- A segment that begins on the page where the other one ends, and stands
first. -/
def meetingHeaders : List ProgramHeader :=
  [⟨.load, 0, 0x400800, 1, 1⟩, ⟨.load, 0, 0x3FF800, 1, 0x900⟩]

def meetingElf : ElfFile :=
  ElfFile.layOut 0x400800 meetingHeaders []

theorem meetingTable : LoadTable 0x400800 meetingHeaders [] := by
  decide

theorem meetingElf_loadHeaders : meetingElf.loadHeaders = meetingHeaders :=
  ElfFile.loadHeaders_layOut meetingTable

theorem meetingElf_rangesExact : RangesExact meetingElf := by
  have inner :
      ∀ header ∈ meetingHeaders,
        (header.virtualAddress + header.segmentMemSize) % 4096 ≠ 0 := by
    decide
  have canonical : ∀ header ∈ meetingHeaders, ¬ header.SignExtended := by
    decide
  have copied : ∀ header ∈ meetingHeaders, header.segmentFileSize ≠ 0 := by
    decide
  rw [← meetingElf_loadHeaders] at inner canonical copied
  constructor
  · intro header member _ _ ends
    exact absurd ends (inner header member)
  · intro header member _ extended
    exact absurd extended (canonical header member)
  · rintro header member (zero | extended)
    · exact absurd zero (copied header member)
    · exact absurd extended (canonical header member)

theorem meetingElf_meetingsFirst : MeetingsFirst meetingElf := by
  have owned :
      ∀ header ∈ meetingHeaders, ∀ other ∈ meetingHeaders, other ≠ header →
        other.EndsOn header.firstPage →
          IsCanonical header.virtualAddress ∧
            meetingElf.owner header.firstPage = some header := by
    unfold ProgramHeader.EndsOn ElfFile.owner
    rw [meetingElf_loadHeaders]
    decide
  rintro header ⟨member, _, other, otherMember, different, ends⟩
  rw [meetingElf_loadHeaders] at member otherMember
  obtain ⟨canonical, isOwner⟩ :=
    owned header member other otherMember different ends
  exact ⟨canonical, header, isOwner, Or.inl rfl⟩

/-- A segment that fills one page. -/
def fullPageHeader : ProgramHeader :=
  ⟨.load, 0, 0x400000, 1, 0x1000⟩

def fullPageElf : ElfFile :=
  ElfFile.layOut 0x400000 [fullPageHeader] []

theorem fullPageTable : LoadTable 0x400000 [fullPageHeader] [] := by
  decide

end RustKernel.Loader
