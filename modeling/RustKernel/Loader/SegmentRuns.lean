import RustKernel.Loader.Growth

/-!
# Runs of the segment loop

A segment loop that returns is a run over the `Load` segments, and the run of
one segment is a run over the pages of its inclusive range.  The file size that
the page loop carries is a function of the position in the range.
-/

namespace RustKernel.Loader

open RustKernel.Foundations
open RustKernel.Machine
open RustKernel.Memory
open RustKernel.Paging

/-! ## The carried file size -/

/-- Where the chunk for the page at an index begins: the last chunk of the
file is copied again to every page behind it. -/
def chunkStart (fileSize index : Nat) : Nat :=
  4096 * min index ((fileSize - 1) / 4096)

theorem chunkStart_lt {fileSize : Nat} (positive : 0 < fileSize)
    (index : Nat) :
    chunkStart fileSize index < fileSize := by
  unfold chunkStart
  omega

theorem nextFileSize_chunk {fileSize : Nat} (positive : 0 < fileSize)
    (index : Nat) :
    nextFileSize (fileSize - chunkStart fileSize index) =
      fileSize - chunkStart fileSize (index + 1) := by
  unfold nextFileSize chunkStart
  split <;> omega

/-! ## Turns -/

/-- A turn of the page loop: a segment and a page of its range. -/
structure Turn where
  header : ProgramHeader
  page : Page .size4KiB
  deriving DecidableEq

namespace Turn

def index (turn : Turn) : Nat :=
  turn.page.number - turn.header.firstPage.number

/-- The first byte of the file that the turn copies, in the segment. -/
def start (turn : Turn) : Nat :=
  chunkStart turn.header.segmentFileSize turn.index

/-- The file size that the loop carries into the turn. -/
def fileSize (turn : Turn) : Nat :=
  turn.header.segmentFileSize - turn.start

/-- The number of bytes that the turn copies. -/
def length (turn : Turn) : Nat :=
  min turn.fileSize 4096

end Turn

/-- The turns of a segment; without file bytes there are none. -/
def headerTurns (header : ProgramHeader) : List Turn :=
  if 0 < header.segmentFileSize then header.pages.map (Turn.mk header) else []

/-- The turns of the segment loop, in order. -/
def turns (elf : ElfFile) : List Turn :=
  elf.loadHeaders.flatMap headerTurns

theorem mem_turns {elf : ElfFile} {turn : Turn} :
    turn ∈ turns elf ↔
      turn.header ∈ elf.loadHeaders ∧ 0 < turn.header.segmentFileSize ∧
        turn.page ∈ turn.header.pages := by
  simp only [turns, headerTurns, List.mem_flatMap]
  constructor
  · rintro ⟨header, listed, member⟩
    split at member
    · next positive =>
        obtain ⟨page, inRange, rfl⟩ := List.mem_map.mp member
        exact ⟨listed, positive, inRange⟩
    · cases member
  · rintro ⟨listed, positive, inRange⟩
    refine ⟨turn.header, listed, ?_⟩
    rw [if_pos positive]
    exact List.mem_map.mpr ⟨turn.page, inRange, rfl⟩

/-- The turns before a turn of a segment: turns of earlier segments, and of
the segment itself on other pages. -/
theorem turns_split {elf : ElfFile} {front back : List ProgramHeader}
    {header : ProgramHeader} {page : Page .size4KiB}
    (listed : elf.loadHeaders = front ++ header :: back)
    (positive : 0 < header.segmentFileSize) (inRange : page ∈ header.pages) :
    ∃ earlier later,
      turns elf = earlier ++ ⟨header, page⟩ :: later ∧
        ∀ turn ∈ earlier,
          turn.header ∈ front ∧ 0 < turn.header.segmentFileSize ∧
              turn.page ∈ turn.header.pages ∨
            turn.page ≠ page := by
  obtain ⟨pagesBefore, pagesAfter, split⟩ := List.append_of_mem inRange
  have nodup : header.pages.Nodup := Page.rangeInclusive_nodup _ _
  rw [split, List.nodup_middle, List.nodup_cons, List.mem_append, not_or]
    at nodup
  refine ⟨front.flatMap headerTurns ++ pagesBefore.map (Turn.mk header),
    pagesAfter.map (Turn.mk header) ++ back.flatMap headerTurns, ?_, ?_⟩
  · have own :
        headerTurns header =
          pagesBefore.map (Turn.mk header) ++
            ⟨header, page⟩ :: pagesAfter.map (Turn.mk header) := by
      rw [headerTurns, if_pos positive, split, List.map_append,
        List.map_cons]
    simp [turns, listed, own]
  · intro turn member
    rcases List.mem_append.mp member with ofFront | ofHeader
    · left
      obtain ⟨other, otherListed, ofOther⟩ := List.mem_flatMap.mp ofFront
      unfold headerTurns at ofOther
      split at ofOther
      · next otherPositive =>
          obtain ⟨otherPage, otherRange, rfl⟩ := List.mem_map.mp ofOther
          exact ⟨otherListed, otherPositive, otherRange⟩
      · cases ofOther
    · right
      obtain ⟨otherPage, otherRange, rfl⟩ := List.mem_map.mp ofHeader
      rintro rfl
      exact nodup.1.1 otherRange

/-- The segment loop gets through: every header can be read, and the ranges
and file bytes of the `Load` segments exist. -/
structure Loadable (elf : ElfFile) : Prop where
  readable : elf.Readable
  ranges :
    ∀ header ∈ elf.loadHeaders, header.segmentPages = .ok header.pages
  bytes :
    ∀ header ∈ elf.loadHeaders, 0 < header.segmentFileSize →
      elf.segment header =
        .ok (some (bytesAt elf.data header.offset header.segmentFileSize))

section Runs

variable {T C : Type} [Mapper T] [Mapper C]
variable {elf : ElfFile} {afterMap : AfterMap} {header : ProgramHeader}
variable {data : List UInt8} {state final : Machine T C}

def copyTurn (elf : ElfFile) (afterMap : AfterMap) (turn : Turn) :
    EStateM Panic (Machine T C) Unit := do
  let _ ← copyPage turn.header
    (bytesAt elf.data turn.header.offset turn.header.segmentFileSize)
    afterMap turn.fileSize turn.page
  return ()

/-- The page loop, from any of its turns on. -/
theorem foldlM_copyPage_run
    (elf : ElfFile) (afterMap : AfterMap)
    (positive : 0 < header.segmentFileSize) (count index : Nat)
    (state : Machine T C) :
    let pages :=
      (List.range' (header.firstPage.number + index) count).map
        (@Page.mk .size4KiB)
    let data := bytesAt elf.data header.offset header.segmentFileSize
    EStateM.run (do
      let _ ← pages.foldlM (copyPage header data afterMap)
        (header.segmentFileSize -
          chunkStart header.segmentFileSize index)
      return ()) state =
      ((pages.map (Turn.mk header)).forM (copyTurn elf afterMap)).run
        state := by
  induction count generalizing index state with
  | zero => rfl
  | succ count inductionHypothesis =>
      have carried :
          (Turn.mk header ⟨header.firstPage.number + index⟩).fileSize =
            header.segmentFileSize -
              chunkStart header.segmentFileSize index := by
        simp [Turn.fileSize, Turn.start, Turn.index]
      simp only [List.range'_succ, List.map_cons, List.foldlM_cons,
        List.forM_eq_forM, List.forM_cons, copyTurn, bind_assoc, pure_bind,
        carried]
      rw [bind_run, bind_run]
      cases turned :
          (copyPage header
            (bytesAt elf.data header.offset header.segmentFileSize) afterMap
            (header.segmentFileSize -
              chunkStart header.segmentFileSize index)
            ⟨header.firstPage.number + index⟩).run state with
      | error fault middle => rfl
      | ok next middle =>
          rw [copyPage_returns_nextFileSize turned,
            nextFileSize_chunk positive]
          exact inductionHypothesis (index + 1) middle

theorem loadSegment_run
    (afterMap : AfterMap)
    (ranges : header.segmentPages = .ok header.pages)
    (bytes :
      0 < header.segmentFileSize →
        elf.segment header =
          .ok (some (bytesAt elf.data header.offset header.segmentFileSize)))
    (state : Machine T C) :
    (loadSegment elf afterMap header).run state =
      ((headerTurns header).forM (copyTurn elf afterMap)).run state := by
  unfold loadSegment FrameWriter.loadSegment
  have taken :
      (MonadExcept.ofExcept header.segmentPages :
        EStateM Panic (Machine T C) _).run state =
        .ok header.pages state := by
    rw [ranges, ofExcept_run]
  rw [bind_run_of_ok _ taken]
  by_cases positive : 0 < header.segmentFileSize
  · have found :
        (MonadExcept.ofExcept (elf.segment header) :
          EStateM Panic (Machine T C) _).run state =
          .ok (some
            (bytesAt elf.data header.offset header.segmentFileSize)) state := by
      rw [bytes positive, ofExcept_run]
    have looped :=
      foldlM_copyPage_run elf afterMap positive
        (header.lastPage.number + 1 - header.firstPage.number) 0 state
    rw [bind_run_of_ok _ found, headerTurns, if_pos positive]
    exact looped
  · have found :
        (MonadExcept.ofExcept (elf.segment header) :
          EStateM Panic (Machine T C) _).run state = .ok none state := by
      rw [ElfFile.segment, if_neg positive]
      rfl
    rw [bind_run_of_ok _ found, headerTurns, if_neg positive]
    rfl

/-- The segment loop is a run over its turns. -/
theorem loadSegments_run_of_loadable
    (afterMap : AfterMap) (loadable : Loadable elf) (state : Machine T C) :
    (loadSegments elf afterMap).run state =
      ((turns elf).forM (copyTurn elf afterMap)).run state := by
  unfold loadSegments FrameWriter.loadSegments turns
  rw [forLoadSegments_run_of_readable loadable.readable, ← forM_flatMap_run]
  apply forM_run_congr
  intro header member
  exact loadSegment_run afterMap (loadable.ranges header member)
    (loadable.bytes header member)

theorem loadable_of_forM_loadSegment
    {headers : List ProgramHeader} {result : Unit}
    (returned :
      (headers.forM (loadSegment elf afterMap)).run state =
        .ok result final) :
    ∀ header ∈ headers,
      header.segmentPages = .ok header.pages ∧
        (0 < header.segmentFileSize →
          elf.segment header =
            .ok (some
              (bytesAt elf.data header.offset header.segmentFileSize))) := by
  intro header member
  obtain ⟨front, back, rfl⟩ := List.append_of_mem member
  rw [forM_append_run_ok] at returned
  obtain ⟨before, _, returned⟩ := returned
  rw [forM_cons_run_ok] at returned
  obtain ⟨after, taken, _⟩ := returned
  unfold loadSegment FrameWriter.loadSegment at taken
  rw [bind_run_ok] at taken
  obtain ⟨pages, middle, computed, taken⟩ := taken
  rw [ofExcept_run_ok] at computed
  rw [bind_run_ok] at taken
  obtain ⟨found, next, segment, _⟩ := taken
  rw [ofExcept_run_ok] at segment
  refine ⟨?_, ?_⟩
  · rw [computed.1, ProgramHeader.segmentPages_eq_ok computed.1]
  · intro positive
    cases found with
    | none =>
        have zero := ElfFile.segment_eq_none segment.1
        omega
    | some data =>
        rw [segment.1, (ElfFile.segment_eq_some segment.1).2.2]

theorem loadable_of_run_ok {result : Unit}
    (returned : (loadSegments elf afterMap).run state = .ok result final) :
    Loadable elf := by
  obtain ⟨readable, looped⟩ := forLoadSegments_run_ok returned
  have each := loadable_of_forM_loadSegment looped
  exact ⟨readable, fun header member => (each header member).1,
    fun header member => (each header member).2⟩

theorem turns_run_ok {result : Unit}
    (returned : (loadSegments elf afterMap).run state = .ok result final) :
    ((turns elf).forM (copyTurn elf afterMap)).run state =
      .ok result final := by
  rw [← loadSegments_run_of_loadable afterMap (loadable_of_run_ok returned)]
  exact returned

/-! ## One turn -/

theorem Loadable.bytes_within (loadable : Loadable elf)
    (member : header ∈ elf.loadHeaders)
    (positive : 0 < header.segmentFileSize) :
    header.offset + header.segmentFileSize ≤ elf.data.length :=
  (ElfFile.segment_eq_some (loadable.bytes header member positive)).2.1

/-- The bytes that a turn copies. -/
def Turn.chunk (elf : ElfFile) (turn : Turn) : List UInt8 :=
  bytesAt elf.data (turn.header.offset + turn.start) turn.length

/-- The machine when a turn calls `map_to` for its page. -/
def Turn.ready (elf : ElfFile) (turn : Turn) (frame : PhysFrame .size4KiB)
    (state : Machine T C) : Machine T C :=
  (state.drawFrame.identityMapped frame).copied turn.header turn.page frame
    (turn.chunk elf)

/-- What `map_to` does in a turn. -/
def Turn.outcome (elf : ElfFile) (turn : Turn) (frame : PhysFrame .size4KiB)
    (state : Machine T C) : MapOutcome T .size4KiB :=
  mapTo turn.page frame presentWritableUser (turn.ready elf frame state).table
    (turn.ready elf frame state).allocator

/-- The machine behind a turn. -/
def Turn.taken (elf : ElfFile) (turn : Turn) (frame : PhysFrame .size4KiB)
    (state : Machine T C) : Machine T C :=
  (turn.ready elf frame state).mapped turn.page frame presentWritableUser

/-- The file has the bytes of the segment of the turn. -/
structure Turn.InFile (elf : ElfFile) (turn : Turn) : Prop where
  positive : 0 < turn.header.segmentFileSize
  within :
    turn.header.offset + turn.header.segmentFileSize ≤ elf.data.length

theorem Loadable.inFile {turn : Turn} (loadable : Loadable elf)
    (member : turn ∈ turns elf) : turn.InFile elf := by
  obtain ⟨listed, positive, _⟩ := mem_turns.mp member
  exact ⟨positive, loadable.bytes_within listed positive⟩

theorem Turn.start_add_length_le {turn : Turn}
    (positive : 0 < turn.header.segmentFileSize) :
    turn.start + turn.length ≤ turn.header.segmentFileSize := by
  have below := chunkStart_lt positive turn.index
  unfold Turn.length Turn.fileSize Turn.start
  omega

/-- The slice that a turn takes is always in range. -/
theorem Turn.InFile.slice_chunk {turn : Turn} (inFile : turn.InFile elf) :
    slice (bytesAt elf.data turn.header.offset turn.header.segmentFileSize)
        (turn.header.segmentFileSize - turn.fileSize)
        (turn.header.segmentFileSize - turn.fileSize +
          min turn.fileSize 4096) =
      .ok (turn.chunk elf) := by
  have bound := Turn.start_add_length_le inFile.positive
  have below := chunkStart_lt inFile.positive turn.index
  have start :
      turn.header.segmentFileSize - turn.fileSize = turn.start := by
    unfold Turn.fileSize Turn.start
    omega
  rw [slice_eq_ok, bytesAt_length inFile.within, start]
  refine ⟨⟨Nat.le_add_right _ _, bound⟩, ?_⟩
  rw [Nat.add_sub_cancel_left]
  unfold Turn.chunk bytesAt
  rw [List.drop_take, List.drop_drop, List.take_take]
  congr 1
  unfold Turn.length at bound ⊢
  omega

theorem Turn.InFile.chunk_length {turn : Turn} (inFile : turn.InFile elf) :
    (turn.chunk elf).length = turn.length := by
  have bound := Turn.start_add_length_le inFile.positive
  have within := inFile.within
  apply bytesAt_length
  omega

/-- A turn that finds no frame stops, with nothing else done. -/
theorem copyTurn_out (elf : ElfFile) (afterMap : AfterMap) (turn : Turn)
    (out : state.allocator.answers state.allocator.drawn = none) :
    (copyTurn elf afterMap turn).run state =
      .error (.message "Unable to allocate physical frame for elf process!")
        state.drawFrame := by
  unfold copyTurn copyPage FrameWriter.copyPage allocateFrame
  rw [bind_run, bind_run, bind_run, modifyGet_run]
  simp only [FrameAllocator.allocateFrame, out]
  rfl

/-- A turn that finds a frame ends with the reaction to `map_to`. -/
theorem copyTurn_run {turn : Turn} {frame : PhysFrame .size4KiB}
    (inFile : turn.InFile elf)
    (answer : state.allocator.answers state.allocator.drawn = some frame) :
    (copyTurn elf afterMap turn).run state =
      match afterMap (turn.outcome elf frame state).result with
      | .ok _ => .ok () (turn.taken elf frame state)
      | .error fault => .error fault (turn.taken elf frame state) := by
  have ready :
      turn.ready elf frame state =
        (state.drawFrame.identityMapped frame).copied turn.header turn.page
          frame (turn.chunk elf) := rfl
  unfold copyTurn copyPage FrameWriter.copyPage FrameWriter.copyInto toFrames
  rw [bind_run, bind_run_of_ok _ (allocateFrame_run_ok.mpr ⟨answer, rfl⟩)]
  simp only [inFile.slice_chunk]
  rw [identityMapCurrent, bind_run_of_ok _ (modify_run _ _),
    bind_run_of_ok _ (ofExcept_run (.ok _) _),
    bind_run_of_ok _ (modify_run _ _), mapNew,
    bind_run_of_ok _ (modifyGet_run _ _), bind_run, ofExcept_run, ← ready]
  unfold Turn.outcome Turn.taken
  dsimp only
  cases afterMap
      (mapTo turn.page frame presentWritableUser
        (turn.ready elf frame state).table
        (turn.ready elf frame state).allocator).result with
  | ok value => rfl
  | error fault => rfl

/-- A turn that returns, taken apart. -/
theorem copyTurn_run_ok {turn : Turn} {result : Unit}
    (inFile : turn.InFile elf) :
    (copyTurn elf afterMap turn).run state = .ok result final ↔
      ∃ frame,
        state.allocator.answers state.allocator.drawn = some frame ∧
        afterMap (turn.outcome elf frame state).result = .ok () ∧
        final = turn.taken elf frame state := by
  cases answer : state.allocator.answers state.allocator.drawn with
  | none =>
      rw [copyTurn_out elf afterMap turn answer]
      simp
  | some frame =>
      rw [copyTurn_run inFile answer]
      cases accepted : afterMap (turn.outcome elf frame state).result with
      | ok value => simp [accepted, eq_comm]
      | error fault => simp [accepted]

/-! ## The loaders -/

variable {descriptors : List MemoryDescriptor} {kernel : ElfFile}
variable {kernelStackStart kernelStackEnd mem : Nat} {process : Process T}

omit [Mapper T] [Mapper C] in
theorem makeProcess_run (header : Header) (state : Machine T C) :
    (makeProcess header).run state =
      .ok ⟨state.idIndex, state.table, processStackAddress, header.entry⟩
        state := rfl

omit [Mapper C] in
theorem FrameWriter.kernelFromElf_run_ok {writer : FrameWriter T C}
    (returned :
      (writer.kernelFromElf descriptors elf kernelStackStart kernelStackEnd
        mem).run state = .ok process final) :
    ∃ ready,
      (kernelSetup descriptors kernelStackStart kernelStackEnd mem).run state =
        .ok () ready ∧
      (writer.loadSegments elf ignoreAnswer).run ready = .ok () final ∧
      process.addressSpace = final.table := by
  unfold FrameWriter.kernelFromElf at returned
  rw [bind_run_ok] at returned
  obtain ⟨_, ready, setup, returned⟩ := returned
  rw [bind_run_ok] at returned
  obtain ⟨header, _, taken, returned⟩ := returned
  rw [ofExcept_run_ok] at taken
  obtain ⟨_, rfl⟩ := taken
  rw [bind_run_ok] at returned
  obtain ⟨_, last, looped, made⟩ := returned
  cases made
  exact ⟨ready, setup, looped, rfl⟩

theorem FrameWriter.fromElf_run_ok {writer : FrameWriter T C}
    (returned :
      (writer.fromElf elf kernel kernelStackStart kernelStackEnd mem).run
        state = .ok process final) :
    ∃ ready loaded,
      (userSetup kernelStackStart kernelStackEnd mem).run state =
        .ok () ready ∧
      (mapKernel kernel).run ready = .ok () loaded ∧
      (writer.loadSegments elf tolerateMapped).run loaded = .ok () final ∧
      process.addressSpace = final.table := by
  unfold FrameWriter.fromElf at returned
  rw [bind_run_ok] at returned
  obtain ⟨_, ready, setup, returned⟩ := returned
  rw [bind_run_ok] at returned
  obtain ⟨_, _, taken, returned⟩ := returned
  rw [ofExcept_run_ok] at taken
  obtain ⟨_, rfl⟩ := taken
  rw [bind_run_ok] at returned
  obtain ⟨_, loaded, mapped, returned⟩ := returned
  rw [bind_run_ok] at returned
  obtain ⟨header, _, taken, returned⟩ := returned
  rw [ofExcept_run_ok] at taken
  obtain ⟨_, rfl⟩ := taken
  rw [bind_run_ok] at returned
  obtain ⟨_, last, looped, made⟩ := returned
  cases made
  exact ⟨ready, loaded, setup, mapped, looped, rfl⟩

theorem kernelFromElf_run_ok
    (returned :
      (kernelFromElf descriptors elf kernelStackStart kernelStackEnd mem).run
        state = .ok process final) :
    ∃ ready,
      (kernelSetup descriptors kernelStackStart kernelStackEnd mem).run state =
        .ok () ready ∧
      (loadSegments elf ignoreAnswer).run ready = .ok () final ∧
      process.addressSpace = final.table :=
  FrameWriter.kernelFromElf_run_ok returned

theorem fromElf_run_ok
    (returned :
      (fromElf elf kernel kernelStackStart kernelStackEnd mem).run state =
        .ok process final) :
    ∃ ready loaded,
      (userSetup kernelStackStart kernelStackEnd mem).run state =
        .ok () ready ∧
      (mapKernel kernel).run ready = .ok () loaded ∧
      (loadSegments elf tolerateMapped).run loaded = .ok () final ∧
      process.addressSpace = final.table :=
  FrameWriter.fromElf_run_ok returned

variable {R : Machine T C → Machine T C → Prop} [LoaderRelation R]

theorem preserves_kernelFromElf
    (looped : Preserves R (loadSegments elf ignoreAnswer)) :
    Preserves R
      (kernelFromElf descriptors elf kernelStackStart kernelStackEnd mem) := by
  refine Preserves.bind (preserves_kernelSetup _ _ _ _) ?_
  intro _
  apply Preserves.ofExcept_bind
  intro header _
  refine Preserves.bind looped ?_
  intro _
  exact preserves_makeProcess header

theorem preserves_fromElf
    (looped : Preserves R (loadSegments elf tolerateMapped)) :
    Preserves R
      (fromElf elf kernel kernelStackStart kernelStackEnd mem) := by
  refine Preserves.bind (preserves_userSetup _ _ _) ?_
  intro _
  apply Preserves.ofExcept_bind
  intro _ _
  refine Preserves.bind (preserves_mapKernel kernel) ?_
  intro _
  apply Preserves.ofExcept_bind
  intro header _
  refine Preserves.bind looped ?_
  intro _
  exact preserves_makeProcess header

end Runs

end RustKernel.Loader
