import RustKernel.Loader.Process

/-!
# What every pass of a loader leaves in place

Two relations between states of a machine hold of every run, whether it
returns or panics.  `Grows` is about the tables: mappings keep their frames,
and the tables spread only over frames that the allocator gave.  `ConfinedTo`
adds that the bytes of all other frames stay as they are.
-/

namespace RustKernel.Loader

open RustKernel.Foundations
open RustKernel.Machine
open RustKernel.Memory
open RustKernel.Paging

/-! ## Loops over the program headers -/

/-- Every program header lies in the file. -/
def ElfFile.Readable (elf : ElfFile) : Prop :=
  elf.progamHeaders = .ok (elf.readHeaders.map .ok)

instance (elf : ElfFile) : Decidable elf.Readable :=
  inferInstanceAs (Decidable (_ = _))

section HeaderLoops

variable {T C : Type}

theorem onLoad_run_load
    {body : ProgramHeader → EStateM Panic (Machine T C) Unit}
    {header : ProgramHeader} (isLoad : header.segementType = .load)
    (state : Machine T C) :
    (onLoad body (.ok header)).run state = (body header).run state := by
  unfold onLoad
  rw [bind_run_of_ok _ (ofExcept_run (.ok header) state), isLoad]

theorem onLoad_run_other
    {body : ProgramHeader → EStateM Panic (Machine T C) Unit}
    {header : ProgramHeader} (notLoad : header.segementType ≠ .load)
    (state : Machine T C) :
    (onLoad body (.ok header)).run state = .ok () state := by
  unfold onLoad
  rw [bind_run_of_ok _ (ofExcept_run (.ok header) state)]
  cases kind : header.segementType <;> first | rfl | exact absurd kind notLoad

theorem forM_onLoad
    (body : ProgramHeader → EStateM Panic (Machine T C) Unit)
    (headers : List ProgramHeader) (state : Machine T C) :
    ((headers.map .ok).forM (onLoad body)).run state =
      ((headers.filter fun header => header.segementType = .load).forM
        body).run state := by
  induction headers generalizing state with
  | nil => rfl
  | cons header rest inductionHypothesis =>
      by_cases isLoad : header.segementType = .load
      · simp only [List.map_cons, isLoad, decide_true, List.filter_cons_of_pos,
          List.forM_eq_forM, List.forM_cons, bind_run, onLoad_run_load]
        cases (body header).run state with
        | ok value middle => exact inductionHypothesis middle
        | error fault middle => rfl
      · simp only [List.map_cons, isLoad, decide_false, Bool.false_eq_true,
          not_false_eq_true, List.filter_cons_of_neg, List.forM_eq_forM,
          List.forM_cons]
        rw [bind_run_of_ok _ (onLoad_run_other isLoad state)]
        exact inductionHypothesis state

theorem reads_of_forM_onLoad
    {body : ProgramHeader → EStateM Panic (Machine T C) Unit}
    {reads : List (Except Panic ProgramHeader)}
    {state final : Machine T C} {result : Unit}
    (returned : (reads.forM (onLoad body)).run state = .ok result final) :
    reads = (reads.filterMap Except.toOption).map .ok := by
  induction reads generalizing state with
  | nil => rfl
  | cons read rest inductionHypothesis =>
      rw [forM_cons_run_ok] at returned
      obtain ⟨middle, begun, ended⟩ := returned
      have tail := inductionHypothesis ended
      unfold onLoad at begun
      rw [bind_run_ok] at begun
      obtain ⟨header, reached, taken, _⟩ := begun
      rw [ofExcept_run_ok] at taken
      obtain ⟨rfl, _⟩ := taken
      simpa [Except.toOption] using tail

theorem forLoadSegments_run_of_readable
    {elf : ElfFile} (readable : elf.Readable)
    (body : ProgramHeader → EStateM Panic (Machine T C) Unit)
    (state : Machine T C) :
    (forLoadSegments elf body).run state =
      (elf.loadHeaders.forM body).run state := by
  have taken :
      (MonadExcept.ofExcept elf.progamHeaders :
        EStateM Panic (Machine T C) _).run state =
        .ok (elf.readHeaders.map .ok) state := by
    rw [readable, ofExcept_run]
  exact (bind_run_of_ok _ taken).trans
    (forM_onLoad body elf.readHeaders state)

/-- A loop that returns has run over the `Load` segments. -/
theorem forLoadSegments_run_ok
    {elf : ElfFile} {body : ProgramHeader → EStateM Panic (Machine T C) Unit}
    {state final : Machine T C} {result : Unit}
    (returned : (forLoadSegments elf body).run state = .ok result final) :
    elf.Readable ∧
      (elf.loadHeaders.forM body).run state = .ok result final := by
  have readable : elf.Readable := by
    unfold forLoadSegments at returned
    rw [bind_run_ok] at returned
    obtain ⟨reads, middle, taken, looped⟩ := returned
    rw [ofExcept_run_ok] at taken
    have listed := reads_of_forM_onLoad looped
    unfold ElfFile.Readable ElfFile.readHeaders
    rw [taken.1]
    exact congrArg Except.ok listed
  refine ⟨readable, ?_⟩
  rw [← forLoadSegments_run_of_readable readable]
  exact returned

theorem preserves_forLoadSegments
    {R : Machine T C → Machine T C → Prop} [RunRelation R]
    {elf : ElfFile} {body : ProgramHeader → EStateM Panic (Machine T C) Unit}
    (each : ∀ header ∈ elf.loadHeaders, Preserves R (body header)) :
    Preserves R (forLoadSegments elf body) := by
  unfold forLoadSegments
  apply Preserves.ofExcept_bind
  intro reads listed
  apply Preserves.forM
  intro read member
  unfold onLoad
  apply Preserves.ofExcept_bind
  intro header found
  split
  · next isLoad =>
      apply each
      rw [ElfFile.mem_loadHeaders]
      refine ⟨?_, isLoad⟩
      simp only [ElfFile.readHeaders, listed, List.mem_filterMap]
      exact ⟨read, member, by simp [found, Except.toOption]⟩
  · exact Preserves.pure ()

end HeaderLoops

/-! ## Growth of the tables -/

section Relations

variable {T C : Type} [Mapper T] [Mapper C]

structure Grows (before after : Machine T C) : Prop where
  advances : before.allocator.Advances after.allocator
  tables :
    ∀ frame ∈ tableFrames after.table,
      frame ∈ tableFrames before.table ∨
        before.allocator.Answered after.allocator (some frame)
  currentTables :
    ∀ frame ∈ tableFrames after.current,
      frame ∈ tableFrames before.current ∨
        before.allocator.Answered after.allocator (some frame)
  leaves :
    ∀ size (page : Page size) frame flags,
      entry before.table size page = .leaf frame flags →
        ∃ flags', entry after.table size page = .leaf frame flags'

/-- The tables grow, and a frame that belongs to neither table, is not drawn
and is not one of `own` keeps its bytes. -/
structure ConfinedTo (own : Set (PhysFrame .size4KiB))
    (before after : Machine T C) : Prop extends Grows before after where
  kept :
    ∀ frame, frame ∉ own → frame ∉ tableFrames before.table →
      frame ∉ tableFrames before.current →
      ¬ before.allocator.Answered after.allocator (some frame) →
      ∀ memory address, frame.Holds address →
        after.contents memory address = before.contents memory address

theorem Grows.refl (state : Machine T C) : Grows state state where
  advances := FrameAllocator.Advances.refl _
  tables := fun _ member => Or.inl member
  currentTables := fun _ member => Or.inl member
  leaves := fun _ _ _ flags leaf => ⟨flags, leaf⟩

theorem Grows.trans {first middle last : Machine T C}
    (earlier : Grows first middle) (later : Grows middle last) :
    Grows first last where
  advances := earlier.advances.trans later.advances
  tables := by
    intro frame member
    rcases later.tables frame member with before | answered
    · rcases earlier.tables frame before with before | answered
      · exact Or.inl before
      · exact Or.inr (answered.earlier later.advances)
    · exact Or.inr (answered.later earlier.advances)
  currentTables := by
    intro frame member
    rcases later.currentTables frame member with before | answered
    · rcases earlier.currentTables frame before with before | answered
      · exact Or.inl before
      · exact Or.inr (answered.earlier later.advances)
    · exact Or.inr (answered.later earlier.advances)
  leaves := by
    intro size page frame flags leaf
    obtain ⟨kept, leaf⟩ := earlier.leaves size page frame flags leaf
    exact later.leaves size page frame kept leaf

instance : RunRelation (Grows (T := T) (C := C)) where
  refl := Grows.refl
  trans := Grows.trans

instance (own : Set (PhysFrame .size4KiB)) :
    RunRelation (ConfinedTo (T := T) (C := C) own) where
  refl := fun state =>
    { Grows.refl state with kept := fun _ _ _ _ _ _ _ _ => rfl }
  trans := by
    intro first middle last earlier later
    refine { earlier.toGrows.trans later.toGrows with kept := ?_ }
    intro frame notOwn notTable notCurrent notDrawn memory address held
    have notDrawnFirst :
        ¬ first.allocator.Answered middle.allocator (some frame) :=
      fun answered => notDrawn (answered.earlier later.advances)
    have notDrawnLater :
        ¬ middle.allocator.Answered last.allocator (some frame) :=
      fun answered => notDrawn (answered.later earlier.advances)
    have notTableLater : frame ∉ tableFrames middle.table := by
      intro member
      rcases earlier.tables frame member with before | answered
      · exact notTable before
      · exact notDrawnFirst answered
    have notCurrentLater : frame ∉ tableFrames middle.current := by
      intro member
      rcases earlier.currentTables frame member with before | answered
      · exact notCurrent before
      · exact notDrawnFirst answered
    rw [later.kept frame notOwn notTableLater notCurrentLater notDrawnLater
        memory address held,
      earlier.kept frame notOwn notTable notCurrent notDrawnFirst
        memory address held]

/-! ## Steps -/

omit [Mapper T] [Mapper C] in
theorem contents_append
    (state : Machine T C) (stores : List (Store Origin))
    (memory : Nat → UInt8) :
    Store.applyAll memory (state.stores ++ stores) =
      Store.applyAll (state.contents memory) stores :=
  Store.applyAll_append memory state.stores stores

theorem applyAll_tableStore_of_outside
    {memory : Nat → UInt8} {stores : List (Store Unit)} {address : Nat}
    (outside : ∀ store ∈ stores, ¬ store.Covers address) :
    Store.applyAll memory (stores.map tableStore) address =
      memory address := by
  apply Store.applyAll_of_not_covers
  intro store member
  obtain ⟨original, listed, rfl⟩ := List.mem_map.mp member
  exact outside original listed

/-- The stores of a call of `map_to` miss every frame that is neither part of
the table nor drawn by the call. -/
theorem MapToEffect.stores_miss
    {size : PageSize} {page : Page size} {target : PhysFrame size}
    {flags : PageTableFlags} {before : T} {supply : FrameAllocator}
    {outcome : MapOutcome T size}
    (effect : MapToEffect page target flags before supply outcome)
    {frame : PhysFrame .size4KiB} {address : Nat}
    (notTable : frame ∉ tableFrames before)
    (notDrawn : ¬ supply.Answered outcome.allocator (some frame))
    (held : frame.Holds address) :
    ∀ store ∈ outcome.stores, ¬ store.Covers address := by
  intro store member covered
  obtain ⟨home, homeTable, homeHolds⟩ :=
    effect.storesInTables store member address covered
  have same : home = frame := PhysFrame.eq_of_holds homeHolds held
  subst same
  rcases effect.tablesDrawn home homeTable with before | answered
  · exact notTable before
  · exact notDrawn answered

omit [Mapper T] [Mapper C] in
theorem advances_drawFrame (state : Machine T C) :
    state.allocator.Advances state.drawFrame.allocator :=
  ⟨rfl, Nat.le_succ _⟩

omit [Mapper T] [Mapper C] in
theorem answered_drawFrame {state : Machine T C}
    {answer : Option (PhysFrame .size4KiB)}
    (given : state.allocator.answers state.allocator.drawn = answer) :
    state.allocator.Answered state.drawFrame.allocator answer :=
  ⟨state.allocator.drawn, Nat.le_refl _, Nat.lt_succ_self _, given⟩

theorem confinedTo_drawFrame (own : Set (PhysFrame .size4KiB))
    (state : Machine T C) :
    ConfinedTo own state state.drawFrame where
  advances := advances_drawFrame state
  tables := fun _ member => Or.inl member
  currentTables := fun _ member => Or.inl member
  leaves := fun _ _ _ flags leaf => ⟨flags, leaf⟩
  kept := fun _ _ _ _ _ _ _ _ => rfl

theorem confinedTo_copied
    {header : ProgramHeader} {page : Page .size4KiB}
    {frame : PhysFrame .size4KiB} {bytes : List UInt8}
    (inside : header.virtualAddress % 4096 + bytes.length ≤ 4096)
    (state : Machine T C) :
    ConfinedTo {frame} state (state.copied header page frame bytes) where
  advances := FrameAllocator.Advances.refl _
  tables := fun _ member => Or.inl member
  currentTables := fun _ member => Or.inl member
  leaves := fun _ _ _ flags leaf => ⟨flags, leaf⟩
  kept := by
    intro other notOwn _ _ _ memory address held
    unfold Machine.contents Machine.copied
    rw [contents_append, Store.applyAll_singleton, Machine.contents]
    apply Store.apply_of_not_covers
    intro covered
    apply notOwn
    have inFrame : frame.Holds address := by
      simp only [Store.Covers] at covered
      simp only [PhysFrame.Holds, PageSize.bytes]
      omega
    exact PhysFrame.eq_of_holds held inFrame

theorem grows_copied
    (header : ProgramHeader) (page : Page .size4KiB)
    (frame : PhysFrame .size4KiB) (bytes : List UInt8)
    (state : Machine T C) :
    Grows state (state.copied header page frame bytes) where
  advances := FrameAllocator.Advances.refl _
  tables := fun _ member => Or.inl member
  currentTables := fun _ member => Or.inl member
  leaves := fun _ _ _ flags leaf => ⟨flags, leaf⟩

theorem confinedTo_mapped [LawfulMapper T] {size : PageSize}
    (own : Set (PhysFrame .size4KiB))
    (page : Page size) (frame : PhysFrame size) {flags : PageTableFlags}
    (present : flags.present = true) (state : Machine T C) :
    ConfinedTo own state (state.mapped page frame flags) := by
  have effect :=
    LawfulMapper.mapTo_effect state.table state.allocator page frame flags
      present
  constructor
  case toGrows =>
    constructor
    case advances => exact effect.advances
    case tables => exact effect.tablesDrawn
    case currentTables => exact fun _ member => Or.inl member
    case leaves =>
      intro size page held old leaf
      obtain ⟨new, kept, _⟩ := effect.leaf_kept leaf
      exact ⟨new, kept⟩
  case kept =>
    intro other _ notTable _ notDrawn memory address held
    unfold Machine.contents Machine.mapped
    rw [contents_append]
    exact applyAll_tableStore_of_outside
      (MapToEffect.stores_miss effect notTable notDrawn held)

theorem confinedTo_identityMapped [LawfulMapper C]
    (own : Set (PhysFrame .size4KiB)) (frame : PhysFrame .size4KiB)
    (state : Machine T C) :
    ConfinedTo own state (state.identityMapped frame) := by
  have effect :=
    LawfulMapper.mapTo_effect state.current state.allocator
      (identityPage frame) frame presentWritable rfl
  constructor
  case toGrows =>
    constructor
    case advances => exact effect.advances
    case tables => exact fun _ member => Or.inl member
    case currentTables => exact effect.tablesDrawn
    case leaves => exact fun _ _ _ flags leaf => ⟨flags, leaf⟩
  case kept =>
    intro other _ _ notCurrent notDrawn memory address held
    unfold Machine.contents Machine.identityMapped
    rw [contents_append]
    exact applyAll_tableStore_of_outside
      (MapToEffect.stores_miss effect notCurrent notDrawn held)

end Relations

/-! ## Steps that return -/

section Returns

variable {T C : Type} [Mapper T] [Mapper C]

omit [Mapper T] [Mapper C] in
theorem allocateFrame_run_ok
    {text : String} {state final : Machine T C}
    {frame : PhysFrame .size4KiB} :
    (allocateFrame text).run state = .ok frame final ↔
      state.allocator.answers state.allocator.drawn = some frame ∧
        final = state.drawFrame := by
  unfold allocateFrame
  rw [bind_run, modifyGet_run]
  simp only [FrameAllocator.allocateFrame]
  cases state.allocator.answers state.allocator.drawn with
  | none =>
      constructor
      · intro returned
        cases returned
      · rintro ⟨absent, _⟩
        cases absent
  | some given =>
      constructor
      · intro returned
        cases returned
        exact ⟨rfl, rfl⟩
      · rintro ⟨same, rfl⟩
        cases same
        rfl

omit [Mapper C] in
theorem mapOrPanic_run_ok {size : PageSize}
    {fault : Panic} {page : Page size} {frame : PhysFrame size}
    {flags : PageTableFlags} {state final : Machine T C} {result : Unit} :
    (mapOrPanic fault page frame flags).run state = .ok result final ↔
      (mapTo page frame flags state.table state.allocator).result = .ok () ∧
        final = state.mapped page frame flags := by
  unfold mapOrPanic mapNew
  rw [bind_run, modifyGet_run]
  simp only
  cases (mapTo page frame flags state.table state.allocator).result with
  | ok value =>
      constructor
      · intro returned
        cases returned
        exact ⟨rfl, rfl⟩
      · rintro ⟨_, rfl⟩
        rfl
  | error reason =>
      constructor
      · intro returned
        cases returned
      · rintro ⟨absent, _⟩
        cases absent

end Returns

/-! ## Programs -/

/-- A relation that the steps on the new table keep. -/
class PassRelation {T C : Type} [Mapper T]
    (R : Machine T C → Machine T C → Prop) : Prop extends RunRelation R where
  drawFrame : ∀ state, R state state.drawFrame
  mapped :
    ∀ {size : PageSize} (page : Page size) (frame : PhysFrame size) flags,
      flags.present = true → ∀ state, R state (state.mapped page frame flags)

/-- A relation that `identity_map` on the active table keeps as well. -/
class LoaderRelation {T C : Type} [Mapper T] [Mapper C]
    (R : Machine T C → Machine T C → Prop) : Prop extends PassRelation R where
  identityMapped : ∀ frame state, R state (state.identityMapped frame)

/-- The active table is left alone. -/
def SameCurrent {T C : Type} (before after : Machine T C) : Prop :=
  after.current = before.current

section Passes

variable {T C : Type} [Mapper T]
variable {R : Machine T C → Machine T C → Prop} [PassRelation R]

theorem preserves_allocateFrame (text : String) :
    Preserves R (allocateFrame text) := by
  refine Preserves.bind ?_ ?_
  · intro state
    exact PassRelation.drawFrame state
  · intro answer
    cases answer with
    | none => exact Preserves.throw _
    | some frame => exact Preserves.pure frame

theorem preserves_mapNew {size : PageSize} (page : Page size)
    (frame : PhysFrame size) {flags : PageTableFlags}
    (present : flags.present = true) :
    Preserves R (mapNew page frame flags) :=
  fun state => PassRelation.mapped page frame flags present state

theorem preserves_mapOrPanic {size : PageSize} (fault : Panic)
    (page : Page size) (frame : PhysFrame size) {flags : PageTableFlags}
    (present : flags.present = true) :
    Preserves R (mapOrPanic fault page frame flags) := by
  refine Preserves.bind (preserves_mapNew page frame present) ?_
  intro answer
  cases answer with
  | ok value => exact Preserves.pure ()
  | error reason => exact Preserves.throw fault

theorem preserves_mapWindow (mem : Nat) : Preserves R (mapWindow mem) := by
  apply Preserves.ofExcept_bind
  intro frames _
  apply Preserves.forM
  intro frame _
  apply Preserves.ofExcept_bind
  intro page _
  exact preserves_mapOrPanic _ page frame rfl

theorem preserves_mapStack : Preserves R mapStack := by
  apply Preserves.forM
  intro page _
  refine Preserves.bind (preserves_allocateFrame _) ?_
  intro frame
  exact preserves_mapOrPanic _ page frame rfl

theorem preserves_identityMapOrPanic {flags : PageTableFlags}
    (present : flags.present = true) (frame : PhysFrame .size4KiB) :
    Preserves R (identityMapOrPanic flags frame) := by
  unfold identityMapOrPanic
  split
  · exact preserves_mapOrPanic _ _ frame present
  · exact Preserves.throw _

theorem preserves_identityMapAll {flags : PageTableFlags}
    (present : flags.present = true) (frames : List (PhysFrame .size4KiB)) :
    Preserves R (identityMapAll flags frames) :=
  Preserves.forM fun frame _ => preserves_identityMapOrPanic present frame

theorem preserves_kernelSetup
    (descriptors : List MemoryDescriptor) (start stop mem : Nat) :
    Preserves R (kernelSetup descriptors start stop mem) := by
  refine Preserves.bind (preserves_mapWindow mem) ?_
  intro _
  refine Preserves.bind preserves_mapStack ?_
  intro _
  apply Preserves.ofExcept_bind
  intro codeFrames _
  apply Preserves.ofExcept_bind
  intro stackFrames _
  refine Preserves.bind (preserves_identityMapAll rfl codeFrames) ?_
  intro _
  refine Preserves.bind (preserves_identityMapAll rfl stackFrames) ?_
  intro _
  exact preserves_mapOrPanic _ _ apicFrame rfl

theorem preserves_userSetup (start stop mem : Nat) :
    Preserves R (userSetup start stop mem) := by
  refine Preserves.bind (preserves_mapWindow mem) ?_
  intro _
  refine Preserves.bind preserves_mapStack ?_
  intro _
  apply Preserves.ofExcept_bind
  intro stackFrames _
  exact preserves_identityMapAll rfl stackFrames

theorem preserves_makeProcess (header : Header) :
    Preserves R (makeProcess header) :=
  fun state => RunRelation.refl state

variable [Mapper C]

theorem preserves_mapKernelPage (page : Page .size4KiB) :
    Preserves R (mapKernelPage page) := by
  refine Preserves.bind ?_ ?_
  · intro state
    exact RunRelation.refl state
  · intro state
    cases translatePage state.current page with
    | none => exact Preserves.throw _
    | some frame => exact preserves_mapOrPanic .unwrap page frame rfl

theorem preserves_mapKernel (kernel : ElfFile) :
    Preserves R (mapKernel kernel) := by
  apply preserves_forLoadSegments
  intro header _
  apply Preserves.ofExcept_bind
  intro pages _
  apply Preserves.forM
  intro page _
  exact preserves_mapKernelPage page

end Passes

section Programs

variable {T C : Type} [Mapper T] [Mapper C]

instance : PassRelation (SameCurrent (T := T) (C := C)) where
  refl := fun _ => rfl
  trans := fun earlier later => later.trans earlier
  drawFrame := fun _ => rfl
  mapped := fun _ _ _ _ _ => rfl

instance [LawfulMapper T] [LawfulMapper C] :
    LoaderRelation (Grows (T := T) (C := C)) where
  drawFrame := fun state => (confinedTo_drawFrame ∅ state).toGrows
  mapped := fun page frame _ present state =>
    (confinedTo_mapped ∅ page frame present state).toGrows
  identityMapped := fun frame state =>
    (confinedTo_identityMapped ∅ frame state).toGrows

instance [LawfulMapper T] [LawfulMapper C]
    (own : Set (PhysFrame .size4KiB)) :
    LoaderRelation (ConfinedTo (T := T) (C := C) own) where
  drawFrame := confinedTo_drawFrame own
  mapped := fun page frame _ present state =>
    confinedTo_mapped own page frame present state
  identityMapped := confinedTo_identityMapped own

variable {R : Machine T C → Machine T C → Prop} [LoaderRelation R]

/-- The part of a turn behind the draw, when the copy keeps the relation. -/
theorem preserves_copyInto
    {header : ProgramHeader} {data : List UInt8} {afterMap : AfterMap}
    {fileSize : Nat} {page : Page .size4KiB} {frame : PhysFrame .size4KiB}
    (copies :
      ∀ bytes : List UInt8, bytes.length ≤ min fileSize 4096 →
        ∀ state, R state (state.copied header page frame bytes)) :
    Preserves R (copyInto header data afterMap fileSize page frame) := by
  apply Preserves.bind
  · exact LoaderRelation.identityMapped frame
  intro _
  apply Preserves.ofExcept_bind
  intro bytes sliced
  have short : bytes.length ≤ min fileSize 4096 := by
    rw [(slice_eq_ok.mp sliced).2, bytesAt, List.length_take]
    omega
  apply Preserves.bind
  · exact copies bytes short
  intro _
  refine Preserves.bind (preserves_mapNew page frame rfl) ?_
  intro answer
  apply Preserves.ofExcept_bind
  intro _ _
  exact Preserves.pure _

theorem preserves_copyPage
    {header : ProgramHeader} {data : List UInt8} {afterMap : AfterMap}
    {fileSize : Nat} {page : Page .size4KiB}
    (copies :
      ∀ frame, ∀ bytes : List UInt8, bytes.length ≤ min fileSize 4096 →
        ∀ state, R state (state.copied header page frame bytes)) :
    Preserves R (copyPage header data afterMap fileSize page) := by
  refine Preserves.bind (preserves_allocateFrame _) ?_
  intro frame
  exact preserves_copyInto (copies frame)

omit [Mapper C] [LoaderRelation R] in
theorem FrameWriter.copyPage_returns_nextFileSize
    {writer : FrameWriter T C}
    {header : ProgramHeader} {data : List UInt8} {afterMap : AfterMap}
    {fileSize result : Nat} {page : Page .size4KiB}
    {state final : Machine T C}
    (returned :
      (writer.copyPage header data afterMap fileSize page).run state =
        .ok result final) :
    result = nextFileSize fileSize := by
  unfold FrameWriter.copyPage FrameWriter.copyInto at returned
  simp only [bind_run_ok, pure_run_ok] at returned
  obtain ⟨_, _, _, _, _, _, _, _, _, _, _, _, _, _, _, _, _, _, same, _⟩ :=
    returned
  exact same.symm

omit [LoaderRelation R] in
theorem copyPage_returns_nextFileSize
    {header : ProgramHeader} {data : List UInt8} {afterMap : AfterMap}
    {fileSize result : Nat} {page : Page .size4KiB}
    {state final : Machine T C}
    (returned :
      (copyPage header data afterMap fileSize page).run state =
        .ok result final) :
    result = nextFileSize fileSize :=
  FrameWriter.copyPage_returns_nextFileSize returned

theorem min_nextFileSize_le (fileSize : Nat) :
    min (nextFileSize fileSize) 4096 ≤ min fileSize 4096 := by
  unfold nextFileSize
  split <;> omega

/-- A segment loop keeps what its page turns keep. -/
theorem preserves_loadSegments
    {elf : ElfFile} {afterMap : AfterMap}
    (turns :
      ∀ header ∈ elf.loadHeaders, ∀ data fileSize, ∀ page ∈ header.pages,
        min fileSize 4096 ≤ min header.segmentFileSize 4096 →
          Preserves R (copyPage header data afterMap fileSize page)) :
    Preserves R (loadSegments elf afterMap) := by
  apply preserves_forLoadSegments
  intro header member
  apply Preserves.ofExcept_bind
  intro pages computed
  rw [ProgramHeader.segmentPages_eq_ok computed]
  apply Preserves.ofExcept_bind
  intro data _
  cases data with
  | none => exact Preserves.pure ()
  | some data =>
      apply Preserves.bind
      · refine Preserves.foldlM
          (fun fileSize =>
            min fileSize 4096 ≤ min header.segmentFileSize 4096)
          (Nat.le_refl _) ?_ ?_
        · intro fileSize bounded page inRange
          exact turns header member data fileSize page inRange bounded
        · intro fileSize page state next after bounded returned
          rw [copyPage_returns_nextFileSize returned]
          exact Nat.le_trans (min_nextFileSize_le fileSize) bounded
      · intro _
        exact Preserves.pure ()

theorem grows_loadSegments [LawfulMapper T] [LawfulMapper C]
    (elf : ElfFile) (afterMap : AfterMap) :
    Preserves (Grows (T := T) (C := C)) (loadSegments elf afterMap) := by
  apply preserves_loadSegments
  intro header _ data fileSize page _ _
  apply preserves_copyPage
  intro frame bytes _ state
  exact grows_copied header page frame bytes state

end Programs

end RustKernel.Loader
