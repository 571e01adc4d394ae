import RustKernel.Loader.CopyConfinement

/-!
# The image that the segment loop leaves in memory

A frame that a turn draws belongs to that turn alone: the allocator gives it
once and it is part of no table.  What the turn copies into it therefore stays
until the loader returns, and what the turn does not overwrite is what the
memory held before the call.  Page-table frames are drawn between the frames of
the segments, and both tables are written to throughout.
-/

namespace RustKernel.Loader

open RustKernel.Foundations
open RustKernel.Machine
open RustKernel.Memory
open RustKernel.Paging

section Ownership

variable {T C : Type} [Mapper T] [Mapper C]

/-- The frames still to be drawn are distinct and in no table. -/
def Fresh (state : Machine T C) : Prop :=
  ∀ index frame, state.allocator.drawn ≤ index →
    state.allocator.answers index = some frame →
      frame ∉ tableFrames state.table ∧ frame ∉ tableFrames state.current ∧
        ∀ later, index < later → state.allocator.answers later ≠ some frame

/-- The frame is in no table and will not be drawn again. -/
structure Settled (frame : PhysFrame .size4KiB) (state : Machine T C) :
    Prop where
  notTable : frame ∉ tableFrames state.table
  notCurrent : frame ∉ tableFrames state.current
  notDrawn :
    ∀ index, state.allocator.drawn ≤ index →
      state.allocator.answers index ≠ some frame

theorem Settled.notAnswered {frame : PhysFrame .size4KiB}
    {before after : Machine T C} (settled : Settled frame before) :
    ¬ before.allocator.Answered after.allocator (some frame) := by
  rintro ⟨index, lower, _, given⟩
  exact settled.notDrawn index lower given

theorem Settled.grows {frame : PhysFrame .size4KiB}
    {before after : Machine T C} (settled : Settled frame before)
    (grown : Grows before after) :
    Settled frame after where
  notTable := by
    intro member
    rcases grown.tables frame member with old | answered
    · exact settled.notTable old
    · exact settled.notAnswered answered
  notCurrent := by
    intro member
    rcases grown.currentTables frame member with old | answered
    · exact settled.notCurrent old
    · exact settled.notAnswered answered
  notDrawn := by
    intro index lower
    rw [grown.advances.answers_eq]
    exact settled.notDrawn index
      (Nat.le_trans grown.advances.drawn_le lower)

theorem Settled.kept {frame : PhysFrame .size4KiB}
    {before after : Machine T C} (settled : Settled frame before)
    (confined : ConfinedTo ∅ before after)
    {memory : Nat → UInt8} {address : Nat} (held : frame.Holds address) :
    after.contents memory address = before.contents memory address :=
  confined.kept frame (Set.notMem_empty frame) settled.notTable
    settled.notCurrent settled.notAnswered memory address held

theorem Fresh.settled {state : Machine T C} (fresh : Fresh state)
    {frame : PhysFrame .size4KiB}
    (answer : state.allocator.answers state.allocator.drawn = some frame) :
    Settled frame state.drawFrame := by
  obtain ⟨notTable, notCurrent, notLater⟩ :=
    fresh _ frame (Nat.le_refl _) answer
  exact ⟨notTable, notCurrent, notLater⟩

theorem Fresh.grows {before after : Machine T C} (fresh : Fresh before)
    (grown : Grows before after) :
    Fresh after := by
  intro index frame lower given
  rw [grown.advances.answers_eq] at given ⊢
  have lowerBefore := Nat.le_trans grown.advances.drawn_le lower
  obtain ⟨notTable, notCurrent, notLater⟩ := fresh index frame lowerBefore given
  have notAnswered :
      ¬ before.allocator.Answered after.allocator (some frame) := by
    rintro ⟨earlier, earlierLower, earlierUpper, earlierGiven⟩
    obtain ⟨_, _, distinct⟩ := fresh earlier frame earlierLower earlierGiven
    exact distinct index (Nat.lt_of_lt_of_le earlierUpper lower) given
  refine ⟨?_, ?_, notLater⟩
  · intro member
    rcases grown.tables frame member with old | answered
    · exact notTable old
    · exact notAnswered answered
  · intro member
    rcases grown.currentTables frame member with old | answered
    · exact notCurrent old
    · exact notAnswered answered

/-- A frame about to be drawn still holds what it held before. -/
theorem Fresh.kept {before after : Machine T C} (fresh : Fresh before)
    (confined : ConfinedTo ∅ before after)
    {frame : PhysFrame .size4KiB}
    (answer : after.allocator.answers after.allocator.drawn = some frame)
    {memory : Nat → UInt8} {address : Nat} (held : frame.Holds address) :
    after.contents memory address = before.contents memory address := by
  rw [confined.advances.answers_eq] at answer
  obtain ⟨notTable, notCurrent, _⟩ :=
    fresh _ frame confined.advances.drawn_le answer
  apply confined.kept frame (Set.notMem_empty frame) notTable notCurrent _
    memory address held
  rintro ⟨earlier, lower, upper, given⟩
  obtain ⟨_, _, distinct⟩ := fresh earlier frame lower given
  exact distinct after.allocator.drawn upper answer

end Ownership

theorem bootMachine_fresh : Fresh bootMachine := by
  intro index frame _ given
  simp only [bootMachine, Machine.start, Option.some.injEq] at given
  subst given
  refine ⟨?_, ?_, ?_⟩
  · intro member
    have isRoot := RadixTable.mem_tableFrames_new.mp member
    simp only [PhysFrame.mk.injEq] at isRoot
    omega
  · intro member
    have isRoot := RadixTable.mem_tableFrames_new.mp member
    simp only [PhysFrame.mk.injEq] at isRoot
    omega
  · intro later after given
    simp only [bootMachine, Machine.start, Option.some.injEq,
      PhysFrame.mk.injEq] at given
    omega

/-! ## One turn -/

section Turns

variable {T C : Type} [Mapper T] [Mapper C] [LawfulMapper T] [LawfulMapper C]
variable {elf : ElfFile} {afterMap : AfterMap} {turn : Turn}
variable {before after : Machine T C} {frame : PhysFrame .size4KiB}

/-- The copy of the turn ends in its page. -/
def Turn.Fits (turn : Turn) : Prop :=
  turn.header.virtualAddress % 4096 + turn.length ≤ 4096

theorem turn_fits {elf : ElfFile} {turn : Turn}
    (fits : ∀ header ∈ elf.loadHeaders, FitsFrame header)
    (member : turn ∈ turns elf) :
    turn.Fits := by
  obtain ⟨listed, _, inRange⟩ := mem_turns.mp member
  rcases fits turn.header listed with empty | fitting
  · rw [empty] at inRange
    cases inRange
  · unfold Turn.Fits Turn.length Turn.fileSize
    omega

/-- The steps of a turn write to the frame that it draws and to tables. -/
theorem confined_taken
    (inFile : turn.InFile elf) (fits : turn.Fits) (state : Machine T C)
    (answer : state.allocator.answers state.allocator.drawn = some frame) :
    ConfinedTo ∅ state (turn.taken elf frame state) := by
  have inside :
      turn.header.virtualAddress % 4096 + (turn.chunk elf).length ≤ 4096 := by
    rw [inFile.chunk_length]
    exact fits
  have steps : ConfinedTo {frame} state (turn.taken elf frame state) := by
    apply RunRelation.trans (confinedTo_drawFrame {frame} state)
    apply RunRelation.trans (confinedTo_identityMapped {frame} frame _)
    apply RunRelation.trans (confinedTo_copied inside _)
    exact confinedTo_mapped {frame} turn.page frame rfl _
  refine { steps.toGrows with kept := ?_ }
  intro other _ notTable notCurrent notDrawn
  apply steps.kept other _ notTable notCurrent notDrawn
  rintro rfl
  exact notDrawn ((answered_drawFrame answer).earlier
    (turn.grows_taken elf other state).advances)

theorem confined_copyTurn (inFile : turn.InFile elf) (fits : turn.Fits) :
    Preserves (ConfinedTo (T := T) (C := C) ∅)
      (copyTurn elf afterMap turn) := by
  intro state
  cases answer : state.allocator.answers state.allocator.drawn with
  | none =>
      rw [copyTurn_out elf afterMap turn answer]
      exact confinedTo_drawFrame ∅ state
  | some frame =>
      have steps := confined_taken inFile fits state answer
      rw [copyTurn_run inFile answer]
      cases afterMap (turn.outcome elf frame state).result with
      | ok value => exact steps
      | error fault => exact steps

/-- The contents of the frame that a turn draws, when the turn returns. -/
structure FrameImage (elf : ElfFile) (turn : Turn)
    (frame : PhysFrame .size4KiB) (before after : Machine T C) : Prop where
  copied :
    ∀ memory index byte, (turn.chunk elf)[index]? = some byte →
      after.contents memory
        (frame.startAddress + turn.header.virtualAddress % 4096 + index) =
          byte
  stale :
    ∀ memory address, frame.Holds address →
      ¬ (frame.startAddress + turn.header.virtualAddress % 4096 ≤ address ∧
        address < frame.startAddress + turn.header.virtualAddress % 4096 +
          turn.length) →
      after.contents memory address = before.contents memory address

omit [Mapper T] [Mapper C] [LawfulMapper T] [LawfulMapper C] in
theorem FrameImage.of_kept {first last : Machine T C}
    (inFile : turn.InFile elf) (fits : turn.Fits)
    (image : FrameImage elf turn frame before after)
    (earlier :
      ∀ memory address, frame.Holds address →
        before.contents memory address = first.contents memory address)
    (later :
      ∀ memory address, frame.Holds address →
        last.contents memory address = after.contents memory address) :
    FrameImage elf turn frame first last where
  copied := by
    intro memory index byte found
    have bound : index < turn.length := by
      rw [← inFile.chunk_length]
      exact (List.getElem?_eq_some_iff.mp found).1
    rw [later]
    · exact image.copied memory index byte found
    · unfold Turn.Fits at fits
      simp only [PhysFrame.Holds, PageSize.bytes]
      omega
  stale := by
    intro memory address held outside
    rw [later memory address held, image.stale memory address held outside,
      earlier memory address held]

/-- The contents of the frame right behind its turn. -/
theorem frameImage_turn
    (inFile : turn.InFile elf) (fits : turn.Fits) (fresh : Fresh before)
    (answer : before.allocator.answers before.allocator.drawn = some frame) :
    FrameImage elf turn frame before (turn.taken elf frame before) ∧
      Settled frame (turn.taken elf frame before) := by
  let drawn := before.drawFrame
  let reachable := drawn.identityMapped frame
  let ready := reachable.copied turn.header turn.page frame (turn.chunk elf)
  have settledDrawn : Settled frame drawn := fresh.settled answer
  have toReachable : ConfinedTo ∅ drawn reachable :=
    confinedTo_identityMapped ∅ frame drawn
  have settledReachable := settledDrawn.grows toReachable.toGrows
  have settledReady : Settled frame ready :=
    settledReachable.grows (grows_copied _ _ _ _ reachable)
  have toMapped :
      ConfinedTo ∅ ready (ready.mapped turn.page frame presentWritableUser) :=
    confinedTo_mapped ∅ turn.page frame rfl ready
  have length : (turn.chunk elf).length = turn.length :=
    inFile.chunk_length
  have readyContents :
      ∀ memory, ready.contents memory =
        Store.apply (reachable.contents memory)
          ⟨Origin.segmentCopy turn.header turn.page frame,
            frame.startAddress + turn.header.virtualAddress % 4096,
            turn.chunk elf⟩ := by
    intro memory
    exact contents_append reachable _ memory
  have copy : FrameImage elf turn frame reachable ready := by
    constructor
    · intro memory index byte found
      rw [readyContents]
      exact Store.apply_at_index found
    · intro memory address held outside
      rw [readyContents]
      apply Store.apply_of_not_covers
      simp only [Store.Covers, length]
      exact outside
  refine ⟨copy.of_kept inFile fits ?_ ?_,
    settledReady.grows toMapped.toGrows⟩
  · intro memory address held
    exact settledDrawn.kept toReachable held
  · intro memory address held
    exact settledReady.kept toMapped held

end Turns

/-! ## The segment loop -/

section Loop

variable {T C : Type} [Mapper T] [Mapper C] [LawfulMapper T] [LawfulMapper C]
variable {elf : ElfFile} {afterMap : AfterMap} {turn : Turn}
variable {start ready final : Machine T C}

theorem confined_turns {list : List Turn}
    (loadable : Loadable elf)
    (fits : ∀ header ∈ elf.loadHeaders, FitsFrame header)
    (listed : list ⊆ turns elf) :
    Preserves (ConfinedTo (T := T) (C := C) ∅)
      (list.forM (copyTurn elf afterMap)) := by
  apply Preserves.forM
  intro turn member
  exact confined_copyTurn (loadable.inFile (listed member))
    (turn_fits fits (listed member))

/-- The frame of the first turn of a page keeps the image of that turn. -/
theorem turn_image {front back : List Turn}
    (fresh : Fresh start) (confined : ConfinedTo ∅ start ready)
    (fits : ∀ header ∈ elf.loadHeaders, FitsFrame header)
    (returned : (loadSegments elf afterMap).run ready = .ok () final)
    (neverOut : ¬ ready.allocator.Answered final.allocator none)
    (listed : turns elf = front ++ turn :: back)
    (first : ∀ earlier ∈ front, earlier.page ≠ turn.page)
    (unmapped : Unmapped ready.table turn.page) :
    ∃ frame flags,
      entry final.table .size4KiB turn.page = .leaf frame flags ∧
        FrameImage elf turn frame start final := by
  have loadable := loadable_of_run_ok returned
  have member : turn ∈ turns elf := by simp [listed]
  have inFile := loadable.inFile member
  have turnFits := turn_fits fits member
  have frontListed : front ⊆ turns elf := by simp [listed]
  have backListed : back ⊆ turns elf := by
    rw [listed]
    exact fun later laterMember => by simp [laterMember]
  obtain ⟨before, frame, flags, begun, answer, ended, leaf⟩ :=
    first_turn_maps returned neverOut listed first unmapped
  have toBefore : ConfinedTo ∅ start before :=
    RunRelation.trans confined
      ((confined_turns loadable fits frontListed).of_run_ok begun)
  have toFinal : ConfinedTo ∅ (turn.taken elf frame before) final :=
    (confined_turns loadable fits backListed).of_run_ok ended
  obtain ⟨image, settled⟩ :=
    frameImage_turn inFile turnFits
      (fresh.grows toBefore.toGrows) answer
  refine ⟨frame, flags, leaf, image.of_kept inFile turnFits ?_ ?_⟩
  · intro memory address held
    exact fresh.kept toBefore answer held
  · intro memory address held
    exact settled.kept toFinal held

/-- Every page of the segment maps a frame with the image of its turn. -/
def SegmentLoaded (elf : ElfFile) (header : ProgramHeader) (table : T)
    (start final : Machine T C) : Prop :=
  ∀ page ∈ header.pages, ∃ frame flags,
    entry table .size4KiB page = .leaf frame flags ∧
      FrameImage elf ⟨header, page⟩ frame start final

/-- The image of a segment whose pages no earlier segment covers. -/
theorem segment_image {front back : List ProgramHeader}
    {header : ProgramHeader}
    (fresh : Fresh start) (confined : ConfinedTo ∅ start ready)
    (fits : ∀ header ∈ elf.loadHeaders, FitsFrame header)
    (returned : (loadSegments elf afterMap).run ready = .ok () final)
    (neverOut : ¬ ready.allocator.Answered final.allocator none)
    (listed : elf.loadHeaders = front ++ header :: back)
    (positive : 0 < header.segmentFileSize)
    (alone :
      ∀ other ∈ front, 0 < other.segmentFileSize →
        List.Disjoint other.pages header.pages)
    (unmapped : ∀ page ∈ header.pages, Unmapped ready.table page) :
    SegmentLoaded elf header final.table start final := by
  intro page inRange
  obtain ⟨earlier, later, split, before⟩ := turns_split listed positive inRange
  apply turn_image fresh confined fits returned neverOut split _
    (unmapped page inRange)
  intro turn member
  rcases before turn member with ⟨ofFront, otherPositive, covered⟩ | different
  · rintro rfl
    exact alone turn.header ofFront otherPositive covered inRange
  · exact different

end Loop

end RustKernel.Loader
