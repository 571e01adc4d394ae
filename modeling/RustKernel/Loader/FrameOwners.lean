import RustKernel.Foundations.Ownership
import RustKernel.Loader.Isolation
import RustKernel.Loader.SegmentImage

/-!
# Owners of the frames that the loaders draw

While `from_elf` builds an address space, the active table and the tables that
were made before stay in use.  Every frame that holds a table, and every frame
that user code reaches, was drawn from the one allocator; the frames of the
window, of the kernel stack and of the kernel are mapped too, but not for user
code.
-/

namespace RustKernel.Loader

open RustKernel.Foundations
open RustKernel.Machine
open RustKernel.Memory
open RustKernel.Paging

/-- What a frame is used for. -/
inductive FrameOwner where
  | resident
  | active
  | table (process : Nat)
  | page (process : Nat) (page : Page .size4KiB)
  deriving DecidableEq

/-- User code may reach the frame through the page. -/
def UserMapped {T : Type} [Mapper T] (table : T) {size : PageSize}
    (page : Page size) (frame : PhysFrame size) : Prop :=
  ∃ flags, entry table size page = .leaf frame flags ∧
    flags.userAccessible = true

section Owners

variable {T C : Type} [Mapper T] [Mapper C]

/-- Frames that are set aside, those that the tables are stored in, and those
that user code reaches. -/
def frameHoldings (kept : Set (PhysFrame .size4KiB)) (current : C)
    (tables : List T) : FrameOwner → Set (PhysFrame .size4KiB)
  | .resident => kept
  | .active => tableFrames current
  | .table process =>
      {frame | ∃ table, tables[process]? = some table ∧
        frame ∈ tableFrames table}
  | .page process page =>
      {frame | ∃ table, tables[process]? = some table ∧
        UserMapped table page frame}

/-- The holdings while a loader builds a table behind the earlier ones. -/
def Machine.holdings (kept : Set (PhysFrame .size4KiB)) (earlier : List T)
    (state : Machine T C) : FrameOwner → Set (PhysFrame .size4KiB) :=
  frameHoldings kept state.current (earlier ++ [state.table])

/-- No frame has two owners, and none will get a second one. -/
structure Accounted (kept : Set (PhysFrame .size4KiB)) (earlier : List T)
    (state : Machine T C) : Prop where
  once : NeverTwice state.allocator.answers
  owned :
    Owned state.allocator.answers state.allocator.drawn
      (state.holdings kept earlier)

/-- The frame has no owner and will get none from the allocator. -/
def Machine.Unclaimed (kept : Set (PhysFrame .size4KiB)) (earlier : List T)
    (state : Machine T C) (frame : PhysFrame .size4KiB) : Prop :=
  Unowned state.allocator.answers state.allocator.drawn
    (state.holdings kept earlier) frame

variable {kept : Set (PhysFrame .size4KiB)}

theorem mem_frameHoldings_concat {current : C} {earlier : List T} {new : T}
    {owner : FrameOwner} {frame : PhysFrame .size4KiB} :
    frame ∈ frameHoldings kept current (earlier ++ [new]) owner ↔
      frame ∈ frameHoldings kept current earlier owner ∨
        owner = .table earlier.length ∧ frame ∈ tableFrames new ∨
        ∃ page, owner = .page earlier.length page ∧
          UserMapped new page frame := by
  have found (index : Nat) (table : T) :
      (earlier ++ [new])[index]? = some table ↔
        earlier[index]? = some table ∨
          index = earlier.length ∧ table = new := by
    rcases Nat.lt_trichotomy index earlier.length with before | at_end | behind
    · rw [List.getElem?_append_left before]
      constructor
      · exact Or.inl
      · rintro (held | ⟨rfl, _⟩)
        · exact held
        · omega
    · subst at_end
      simp [eq_comm]
    · have absent : earlier[index]? = none :=
        List.getElem?_eq_none (Nat.le_of_lt behind)
      rw [List.getElem?_append_right (Nat.le_of_lt behind), absent,
        List.getElem?_eq_none (by simp; omega)]
      simp
      omega
  cases owner with
  | resident => simp [frameHoldings]
  | active => simp [frameHoldings]
  | table process =>
      simp only [frameHoldings, Set.mem_ofPred_eq, found,
        FrameOwner.table.injEq, reduceCtorEq, false_and, exists_false,
        or_false]
      constructor
      · rintro ⟨table, held | ⟨isNew, rfl⟩, stored⟩
        · exact Or.inl ⟨table, held, stored⟩
        · exact Or.inr ⟨isNew, stored⟩
      · rintro (⟨table, held, stored⟩ | ⟨isNew, stored⟩)
        · exact ⟨table, Or.inl held, stored⟩
        · exact ⟨new, Or.inr ⟨isNew, rfl⟩, stored⟩
  | page process page =>
      simp only [frameHoldings, Set.mem_ofPred_eq, found,
        FrameOwner.page.injEq, reduceCtorEq, false_and, false_or]
      constructor
      · rintro ⟨table, held | ⟨isNew, rfl⟩, mapped⟩
        · exact Or.inl ⟨table, held, mapped⟩
        · exact Or.inr ⟨page, ⟨isNew, rfl⟩, mapped⟩
      · rintro (⟨table, held, mapped⟩ | ⟨_, ⟨isNew, rfl⟩, mapped⟩)
        · exact ⟨table, Or.inl held, mapped⟩
        · exact ⟨new, Or.inr ⟨isNew, rfl⟩, mapped⟩

theorem mem_holdings {earlier : List T} {state : Machine T C}
    {owner : FrameOwner} {frame : PhysFrame .size4KiB} :
    frame ∈ state.holdings kept earlier owner ↔
      frame ∈ frameHoldings kept state.current earlier owner ∨
        owner = .table earlier.length ∧ frame ∈ tableFrames state.table ∨
        ∃ page, owner = .page earlier.length page ∧
          UserMapped state.table page frame :=
  mem_frameHoldings_concat

theorem mem_frameHoldings_current (current : C) {after : C}
    {tables : List T} {owner : FrameOwner} {frame : PhysFrame .size4KiB}
    (held : frame ∈ frameHoldings kept after tables owner) :
    frame ∈ frameHoldings kept current tables owner ∨
      owner = .active ∧ frame ∈ tableFrames after := by
  cases owner with
  | resident => exact Or.inl held
  | active => exact Or.inr ⟨rfl, held⟩
  | table process => exact Or.inl held
  | page process page => exact Or.inl held

end Owners

/-! ## Steps -/

section Steps

variable {T C : Type} [Mapper T] [Mapper C]
variable {kept : Set (PhysFrame .size4KiB)} {earlier : List T}
variable {state : Machine T C} {frame : PhysFrame .size4KiB}

/-- A frame that is drawn is unclaimed. -/
theorem Accounted.drawFrame (accounted : Accounted kept earlier state)
    (answer : state.allocator.answers state.allocator.drawn = some frame) :
    Accounted kept earlier state.drawFrame ∧
      state.drawFrame.Unclaimed kept earlier frame :=
  ⟨⟨accounted.once, accounted.owned.later (Nat.le_succ _)⟩,
    accounted.owned.unowned_answer accounted.once answer⟩

/-- A call of `map_to` gives the table frames that are drawn during the call,
and a mapping for user code only if it is asked for one. -/
theorem holdings_mapped [LawfulMapper T] {size : PageSize}
    {page : Page size} {target : PhysFrame size} {flags : PageTableFlags}
    (present : flags.present = true)
    (noHuge :
      (mapTo page target flags state.table state.allocator).result ≠
        .error .parentEntryHugePage)
    {owner : FrameOwner}
    (held : frame ∈ (state.mapped page target flags).holdings kept earlier owner) :
    frame ∈ state.holdings kept earlier owner ∨
      owner = .table earlier.length ∧
        state.allocator.Answered (state.mapped page target flags).allocator
          (some frame) ∨
      flags.userAccessible = true ∧
        ∃ userPage, owner = .page earlier.length userPage ∧
          (⟨size, page, target⟩ :
            Σ size, Page size × PhysFrame size) =
              ⟨.size4KiB, userPage, frame⟩ := by
  have effect :=
    LawfulMapper.mapTo_effect state.table state.allocator page target flags
      present
  rcases mem_holdings.mp held with old | ⟨rfl, stored⟩ | ⟨userPage, rfl, user⟩
  · exact Or.inl (mem_holdings.mpr (Or.inl old))
  · rcases effect.tablesDrawn frame stored with before | drawn
    · exact Or.inl (mem_holdings.mpr (Or.inr (Or.inl ⟨rfl, before⟩)))
    · exact Or.inr (Or.inl ⟨rfl, drawn⟩)
  · obtain ⟨given, leaf, accessible⟩ := user
    have before :
        ∀ size (other : Page size) held given,
          entry state.table size other = .leaf held given →
            given.userAccessible = true →
              UserMapped state.table other held ∨
                flags.userAccessible = true ∧
                  (⟨_, page, target⟩ : Σ size, Page size × PhysFrame size) =
                    ⟨size, other, held⟩ :=
      fun size other held given leaf accessible =>
        Or.inl ⟨given, leaf, accessible⟩
    have origin :=
      effect.leaves_after before
        (fun _ accessible => Or.inr ⟨accessible, rfl⟩)
        (fun failed => absurd failed noHuge) leaf accessible
    rcases origin with before | ⟨accessible, isTarget⟩
    · exact Or.inl (mem_holdings.mpr (Or.inr (Or.inr ⟨userPage, rfl, before⟩)))
    · exact Or.inr (Or.inr ⟨accessible, userPage, rfl, isTarget⟩)

/-- A mapping that is hidden from user code takes no frame. -/
theorem Accounted.mapped_hidden [LawfulMapper T] {size : PageSize}
    {page : Page size} {target : PhysFrame size} {flags : PageTableFlags}
    (accounted : Accounted kept earlier state) (present : flags.present = true)
    (hidden : flags.userAccessible = false)
    (noHuge :
      (mapTo page target flags state.table state.allocator).result ≠
        .error .parentEntryHugePage) :
    Accounted kept earlier (state.mapped page target flags) := by
  have effect :=
    LawfulMapper.mapTo_effect state.table state.allocator page target flags
      present
  have answers :
      (state.mapped page target flags).allocator.answers =
        state.allocator.answers :=
    effect.advances.answers_eq
  constructor
  case once => exact answers ▸ accounted.once
  case owned =>
    rw [answers]
    apply accounted.owned.grow (.table earlier.length) .active ∅
      accounted.once effect.advances.drawn_le
    · exact fun _ member => absurd member (Set.notMem_empty _)
    · intro owner frame held
      rcases holdings_mapped present noHuge held with
        old | given | ⟨accessible, _⟩
      · exact Or.inl old
      · exact Or.inr (Or.inl given)
      · rw [hidden] at accessible
        cases accessible

/-- An unclaimed frame may be mapped for user code. -/
theorem Accounted.mapped_user [LawfulMapper T]
    {page : Page .size4KiB} {flags : PageTableFlags}
    (accounted : Accounted kept earlier state)
    (unclaimed : state.Unclaimed kept earlier frame)
    (present : flags.present = true)
    (noHuge :
      (mapTo page frame flags state.table state.allocator).result ≠
        .error .parentEntryHugePage) :
    Accounted kept earlier (state.mapped page frame flags) := by
  have effect :=
    LawfulMapper.mapTo_effect state.table state.allocator page frame flags
      present
  have answers :
      (state.mapped page frame flags).allocator.answers =
        state.allocator.answers :=
    effect.advances.answers_eq
  constructor
  case once => exact answers ▸ accounted.once
  case owned =>
    rw [answers]
    apply accounted.owned.grow (.table earlier.length)
      (.page earlier.length page) {frame} accounted.once
      effect.advances.drawn_le
    · rintro _ rfl
      exact unclaimed
    · intro owner held member
      rcases holdings_mapped present noHuge member with
        old | given | ⟨_, userPage, rfl, isTarget⟩
      · exact Or.inl old
      · exact Or.inr (Or.inl given)
      · cases isTarget
        exact Or.inr (Or.inr ⟨rfl, rfl⟩)

theorem holdings_identityMapped [LawfulMapper C]
    {target : PhysFrame .size4KiB} {owner : FrameOwner}
    (held : frame ∈ (state.identityMapped target).holdings kept earlier owner) :
    frame ∈ state.holdings kept earlier owner ∨
      owner = .active ∧
        state.allocator.Answered (state.identityMapped target).allocator
          (some frame) := by
  have effect :=
    LawfulMapper.mapTo_effect state.current state.allocator
      (identityPage target) target presentWritable rfl
  rcases mem_holdings.mp held with old | new
  · rcases mem_frameHoldings_current state.current old with
      old | ⟨rfl, stored⟩
    · exact Or.inl (mem_holdings.mpr (Or.inl old))
    · rcases effect.tablesDrawn frame stored with before | drawn
      · exact Or.inl (mem_holdings.mpr (Or.inl before))
      · exact Or.inr ⟨rfl, drawn⟩
  · exact Or.inl (mem_holdings.mpr (Or.inr new))

/-- `identity_map` on the active table takes table frames only. -/
theorem Accounted.identityMapped [LawfulMapper C]
    (accounted : Accounted kept earlier state)
    (target : PhysFrame .size4KiB)
    (unclaimed : state.Unclaimed kept earlier frame) :
    Accounted kept earlier (state.identityMapped target) ∧
      (state.identityMapped target).Unclaimed kept earlier frame := by
  have effect :=
    LawfulMapper.mapTo_effect state.current state.allocator
      (identityPage target) target presentWritable rfl
  have answers :
      (state.identityMapped target).allocator.answers =
        state.allocator.answers :=
    effect.advances.answers_eq
  refine ⟨⟨answers ▸ accounted.once, ?_⟩, ?_⟩
  · rw [answers]
    apply accounted.owned.grow .active .active ∅ accounted.once
      effect.advances.drawn_le
    · exact fun _ member => absurd member (Set.notMem_empty _)
    · intro owner held member
      rcases holdings_identityMapped member with old | given
      · exact Or.inl old
      · exact Or.inr (Or.inl given)
  · unfold Machine.Unclaimed
    rw [answers]
    exact Unowned.grow unclaimed effect.advances.drawn_le
      fun owner held member => holdings_identityMapped member

/-- The frames still to be drawn are in no table. -/
theorem Accounted.fresh (accounted : Accounted kept earlier state) :
    Fresh state := by
  intro index frame lower answer
  have unheld (owner : FrameOwner) :
      frame ∉ state.holdings kept earlier owner := fun held =>
    accounted.owned.spent owner frame held index lower answer
  refine ⟨?_, ?_, ?_⟩
  · intro stored
    exact unheld (.table earlier.length)
      (mem_holdings.mpr (Or.inr (Or.inl ⟨rfl, stored⟩)))
  · intro stored
    exact unheld .active (mem_holdings.mpr (Or.inl stored))
  · intro later after again
    have same := accounted.once index later frame answer again
    omega

end Steps

/-! ## Passes -/

section Passes

variable {T C : Type} [Mapper T] [Mapper C] [LawfulMapper T]
variable {kept : Set (PhysFrame .size4KiB)} {earlier : List T}
variable {state final : Machine T C} {result : Unit}

theorem accounted_mapOrPanic {size : PageSize} {page : Page size}
    {target : PhysFrame size} {fault : Panic}
    (accounted : Accounted kept earlier state)
    (returned :
      (mapOrPanic fault page target presentWritable).run state =
        .ok result final) :
    Accounted kept earlier final := by
  obtain ⟨succeeded, rfl⟩ := mapOrPanic_run_ok.mp returned
  apply accounted.mapped_hidden rfl rfl
  rw [succeeded]
  simp

theorem accounted_mapWindow {mem : Nat} (accounted : Accounted kept earlier state)
    (returned : (mapWindow mem).run state = .ok result final) :
    Accounted kept earlier final := by
  unfold mapWindow at returned
  rw [bind_run_ok] at returned
  obtain ⟨frames, _, computed, looped⟩ := returned
  rw [ofExcept_run_ok] at computed
  obtain ⟨_, rfl⟩ := computed
  apply forM_invariant (Accounted kept earlier) _ accounted looped
  intro frame _ before after accounted turned
  rw [bind_run_ok] at turned
  obtain ⟨page, _, located, mapping⟩ := turned
  rw [ofExcept_run_ok] at located
  obtain ⟨_, rfl⟩ := located
  exact accounted_mapOrPanic accounted mapping

/-- A page of the stack gets the frame that is drawn for it. -/
theorem accounted_mapStack (accounted : Accounted kept earlier state)
    (returned : mapStack.run state = .ok result final) :
    Accounted kept earlier final := by
  apply forM_invariant (Accounted kept earlier) _ accounted returned
  intro page _ before after accounted turned
  rw [bind_run_ok] at turned
  obtain ⟨frame, _, drawn, mapping⟩ := turned
  rw [allocateFrame_run_ok] at drawn
  obtain ⟨answer, rfl⟩ := drawn
  obtain ⟨accounted, unclaimed⟩ := accounted.drawFrame answer
  obtain ⟨succeeded, rfl⟩ := mapOrPanic_run_ok.mp mapping
  apply accounted.mapped_user unclaimed rfl
  rw [succeeded]
  simp

theorem accounted_userSetup {kernelStackStart kernelStackEnd mem : Nat}
    (accounted : Accounted kept earlier state)
    (returned :
      (userSetup kernelStackStart kernelStackEnd mem).run state =
        .ok result final) :
    Accounted kept earlier final := by
  obtain ⟨stackFrames, windowed, stacked, _, windowRun, stackRun,
    kernelStackRun⟩ := userSetup_run_ok returned
  have accounted := accounted_mapWindow accounted windowRun
  have accounted := accounted_mapStack accounted stackRun
  apply forM_invariant (Accounted kept earlier) _ accounted kernelStackRun
  intro frame _ before after accounted turned
  unfold identityMapOrPanic at turned
  split at turned
  · exact accounted_mapOrPanic accounted turned
  · cases turned

/-- The pages of the kernel keep the frames that they have. -/
theorem accounted_mapKernel {kernel : ElfFile}
    (accounted : Accounted kept earlier state)
    (returned : (mapKernel kernel).run state = .ok result final) :
    Accounted kept earlier final := by
  obtain ⟨_, _, looped⟩ := mapKernel_run_ok returned
  apply forM_invariant (Accounted kept earlier) _ accounted looped
  intro page _ before after accounted turned
  obtain ⟨frame, _, succeeded, rfl⟩ := mapKernelPage_run_ok.mp turned
  apply accounted.mapped_hidden rfl rfl
  rw [succeeded]
  simp

/-- A turn of the segment loop draws a frame, which stays without an owner if
its page is mapped already. -/
theorem accounted_loadSegments [LawfulMapper C] {elf : ElfFile}
    (accounted : Accounted kept earlier state)
    (returned :
      (loadSegments elf tolerateMapped).run state = .ok result final) :
    Accounted kept earlier final := by
  have loadable := loadable_of_run_ok returned
  apply forM_invariant (Accounted kept earlier) _ accounted (turns_run_ok returned)
  intro turn member before after accounted turned
  obtain ⟨frame, answer, rfl, accepted, _⟩ :=
    copyTurn_effect loadable member turned
  obtain ⟨accounted, unclaimed⟩ := accounted.drawFrame answer
  obtain ⟨accounted, unclaimed⟩ :=
    accounted.identityMapped frame unclaimed
  have ready : Accounted kept earlier (turn.ready elf frame before) :=
    ⟨accounted.once, accounted.owned⟩
  apply ready.mapped_user unclaimed rfl
  intro failed
  have refused := accepted
  rw [Turn.outcome, failed] at refused
  cases refused

/-- `from_elf` takes no frame from an address space that exists. -/
theorem accounted_fromElf [LawfulMapper C] {elf kernel : ElfFile}
    {kernelStackStart kernelStackEnd mem : Nat} {process : Process T}
    (accounted : Accounted kept earlier state)
    (returned :
      (fromElf elf kernel kernelStackStart kernelStackEnd mem).run state =
        .ok process final) :
    Accounted kept earlier final ∧ process.addressSpace = final.table := by
  obtain ⟨ready, loaded, setup, mapped, looped, made⟩ := fromElf_run_ok returned
  have accounted := accounted_userSetup accounted setup
  have accounted := accounted_mapKernel accounted mapped
  exact ⟨accounted_loadSegments accounted looped, made⟩

end Passes

/-! ## The kernel in an address space -/

section Resident

variable {T C : Type} [Mapper T] [Mapper C]

/-- What the active table translates, it translates for good. -/
def KeepsTranslations (before after : Machine T C) : Prop :=
  ∀ page frame, translatePage before.current page = some frame →
    translatePage after.current page = some frame

theorem translatePage_mapTo [LawfulMapper C] {size : PageSize} {table : C}
    {supply : FrameAllocator} {page : Page size} {target : PhysFrame size}
    {flags : PageTableFlags} (present : flags.present = true)
    {other : Page .size4KiB} {frame : PhysFrame .size4KiB}
    (translated : translatePage table other = some frame) :
    translatePage (mapTo page target flags table supply).table other =
      some frame := by
  rw [translatePage_eq_some] at translated ⊢
  obtain ⟨old, leaf⟩ := translated
  have effect := LawfulMapper.mapTo_effect table supply page target flags present
  obtain ⟨new, kept, _⟩ := effect.leaf_kept leaf
  exact ⟨new, kept⟩

instance [LawfulMapper C] :
    LoaderRelation (KeepsTranslations (T := T) (C := C)) where
  refl := fun _ _ _ translated => translated
  trans := fun begun ended page frame translated =>
    ended page frame (begun page frame translated)
  drawFrame := fun _ _ _ translated => translated
  mapped := fun _ _ _ _ _ _ _ translated => translated
  identityMapped := fun _ _ _ _ translated =>
    translatePage_mapTo rfl translated

variable {elf kernel : ElfFile}
variable {kernelStackStart kernelStackEnd mem : Nat}
variable {state final : Machine T C} {process : Process T}

theorem keepsTranslations_fromElf [LawfulMapper C] :
    Preserves (KeepsTranslations (T := T) (C := C))
      (fromElf elf kernel kernelStackStart kernelStackEnd mem) := by
  apply preserves_fromElf
  apply preserves_loadSegments
  intro header _ data fileSize page _ _
  apply preserves_copyPage
  intro frame bytes _ state page frame translated
  exact translated

/-- The kernel is mapped as in the active table, and not for user code. -/
theorem fromElf_maps_kernel [LawfulMapper T]
    (returned :
      (fromElf elf kernel kernelStackStart kernelStackEnd mem).run state =
        .ok process final) :
    ∀ page ∈ kernelPages kernel, ∃ frame,
      translatePage state.current page = some frame ∧
        entry process.addressSpace .size4KiB page =
          .leaf frame presentWritable := by
  obtain ⟨ready, loaded, setup, mapped, looped, made⟩ := fromElf_run_ok returned
  have same : SameCurrent state ready :=
    (preserves_userSetup _ _ _).of_run_ok setup
  intro page member
  obtain ⟨frame, translated, leaf⟩ := mapKernel_maps mapped page member
  rw [same] at translated
  rw [made]
  exact ⟨frame, translated, leaf_loadSegments leaf looped⟩

/-- What is mapped beside the given pages is mapped for user code. -/
def userOutside (pages : List AnyPage) : LeafCondition where
  Holds := fun _ size page _ flags =>
    (⟨size, page⟩ : AnyPage) ∈ pages ∨ flags.userAccessible = true
  advance := fun _ holds => holds

/-- Beside the pages that every process has, all mappings are for user
code. -/
theorem fromElf_user_outside [LawfulMapper T] [LawfulMapper C]
    (empty : Empty state.table)
    (returned :
      (fromElf elf kernel kernelStackStart kernelStackEnd mem).run state =
        .ok process final) :
    LeavesIn
      (userOutside
        (userReserved kernelStackStart kernelStackEnd mem ++
          (kernelPages kernel).map smallPage))
      state.allocator final := by
  obtain ⟨ready, loaded, setup, mapped, looped, _⟩ := fromElf_run_ok returned
  have leaves :
      LeavesIn
        (userOutside
          (userReserved kernelStackStart kernelStackEnd mem ++
            (kernelPages kernel).map smallPage))
        state.allocator ready := by
    apply leavesIn_userSetup _ _ _ (leavesIn_of_empty empty) setup
    · intro _ frame member
      refine Or.inl (List.mem_append_left _ (List.mem_append_left _ ?_))
      exact List.mem_map_of_mem (List.mem_map_of_mem member)
    · intro _ _ _ _ _
      exact Or.inr rfl
    · intro _ frame member
      refine Or.inl (List.mem_append_left _ (List.mem_append_right _ ?_))
      exact List.mem_map_of_mem
        (List.mem_append_right _ (List.mem_map_of_mem member))
  have leaves :
      LeavesIn
        (userOutside
          (userReserved kernelStackStart kernelStackEnd mem ++
            (kernelPages kernel).map smallPage))
        state.allocator loaded := by
    apply leavesIn_mapKernel _ leaves mapped
    intro _ page member _ _
    exact Or.inl (List.mem_append_right _ (List.mem_map_of_mem member))
  apply leavesIn_loadSegments _ (fun tolerated => by cases tolerated) leaves
    looped
  intro _ _ _ _ _
  exact Or.inr rfl

/-- If every copy ends in its page, `from_elf` writes to the frames that it
draws and to tables. -/
theorem confined_fromElf [LawfulMapper T] [LawfulMapper C]
    (fits : ∀ header ∈ elf.loadHeaders, FitsFrame header)
    (returned :
      (fromElf elf kernel kernelStackStart kernelStackEnd mem).run state =
        .ok process final) :
    ConfinedTo ∅ state final := by
  obtain ⟨ready, loaded, setup, mapped, looped, _⟩ := fromElf_run_ok returned
  have toReady : ConfinedTo ∅ state ready :=
    (preserves_userSetup _ _ _).of_run_ok setup
  have toLoaded : ConfinedTo ∅ ready loaded :=
    (preserves_mapKernel kernel).of_run_ok mapped
  have turned := turns_run_ok looped
  have toFinal : ConfinedTo ∅ loaded final :=
    (confined_turns (loadable_of_run_ok looped) fits
      (List.Subset.refl _)).of_run_ok turned
  exact RunRelation.trans (RunRelation.trans toReady toLoaded) toFinal

end Resident

end RustKernel.Loader
