import RustKernel.Loader.SegmentRuns

/-!
# The passes before the segment loop

Two things are shown of each pass: it returns when its pages are free and the
allocator does not run out, and the mappings that it adds are the ones the
source names.  The second is phrased for an arbitrary condition on mappings,
so that each user chooses how much to remember.
-/

namespace RustKernel.Loader

open RustKernel.Foundations
open RustKernel.Machine
open RustKernel.Memory
open RustKernel.Paging

/-- A page of any size. -/
abbrev AnyPage := (size : PageSize) × Page size

def smallPage (page : Page .size4KiB) : AnyPage := ⟨.size4KiB, page⟩

def hugePage (page : Page .size1GiB) : AnyPage := ⟨.size1GiB, page⟩

/-- The list that a computation gives, empty when it panics. -/
def listOf {α : Type} : Except Panic (List α) → List α
  | .ok items => items
  | .error _ => []

/-- The page of the window that shows a frame. -/
def windowPageOf (frame : PhysFrame .size1GiB) : Page .size1GiB :=
  ⟨(pageTableOffset + frame.startAddress) % 2 ^ 48 / PageSize.size1GiB.bytes⟩

theorem windowPage_eq_ok
    {frame : PhysFrame .size1GiB} {page : Page .size1GiB}
    (computed : windowPage frame = .ok page) :
    page = windowPageOf frame := by
  unfold windowPage at computed
  obtain ⟨address, created, computed⟩ := except_bind_eq_ok.mp computed
  cases computed
  unfold windowPageOf Page.containingAddress
  rw [VirtAddr.new_low48 created]

/-- The pages of the window onto physical memory. -/
def windowPages (mem : Nat) : List (Page .size1GiB) :=
  (listOf (windowFrames mem)).map windowPageOf

/-- The small pages that `from_elf` maps before its kernel pass. -/
def userSmallPages (kernelStackStart kernelStackEnd : Nat) :
    List (Page .size4KiB) :=
  getStack ++
    (listOf (kernelStackFrames kernelStackStart kernelStackEnd)).map
      identityPage

/-- The small pages that `kernel_from_elf` maps before its segment loop. -/
def kernelSmallPages (descriptors : List MemoryDescriptor)
    (kernelStackStart kernelStackEnd : Nat) : List (Page .size4KiB) :=
  getStack ++
    ((listOf (kernelCodeFrames descriptors)).map identityPage ++
      ((listOf (kernelStackFrames kernelStackStart kernelStackEnd)).map
        identityPage ++ [identityPage apicFrame]))

/-- Every page that `kernel_from_elf` maps outside its segment loop. -/
def kernelReserved (descriptors : List MemoryDescriptor)
    (kernelStackStart kernelStackEnd mem : Nat) : List AnyPage :=
  (windowPages mem).map hugePage ++
    (kernelSmallPages descriptors kernelStackStart kernelStackEnd).map
      smallPage

/-- Every page that `from_elf` maps before its kernel pass. -/
def userReserved (kernelStackStart kernelStackEnd mem : Nat) : List AnyPage :=
  (windowPages mem).map hugePage ++
    (userSmallPages kernelStackStart kernelStackEnd).map smallPage

theorem apart_of_nodup {pages : List (Page .size4KiB)}
    (distinct : pages.Nodup) :
    (pages.map smallPage).Pairwise fun left right =>
      Apart left.2 right.2 := by
  rw [List.pairwise_map]
  exact List.Pairwise.imp (fun different => apart_iff_ne.mpr different)
    distinct

/-! ## Passes that return -/

section Completion

variable {T C : Type} [Mapper T]

/-- The pages are unmapped and have no address in common. -/
structure Free (state : Machine T C) (pages : List AnyPage) : Prop where
  apart : pages.Pairwise fun left right => Apart left.2 right.2
  unmapped : ∀ page ∈ pages, Unmapped state.table page.2

theorem Free.mapped [LawfulMapper T] {size : PageSize} {page : Page size}
    {state : Machine T C} {rest : List AnyPage}
    (free : Free state (⟨size, page⟩ :: rest)) (frame : PhysFrame size)
    {flags : PageTableFlags} (present : flags.present = true) :
    Free (state.mapped page frame flags) rest where
  apart := (List.pairwise_cons.mp free.apart).2
  unmapped := by
    intro other member
    have effect :=
      LawfulMapper.mapTo_effect state.table state.allocator page frame flags
        present
    apply effect.unmapped_kept
    · exact free.unmapped other (by simp [member])
    · exact (List.pairwise_cons.mp free.apart).1 other member

theorem free_of_empty {state : Machine T C} (empty : Empty state.table)
    {pages : List AnyPage}
    (apart : pages.Pairwise fun left right => Apart left.2 right.2) :
    Free state pages where
  apart := apart
  unmapped := fun page _ => unmapped_of_empty empty page.2

/-- A run that returns with the rest of the pages free, or stops because the
allocator has run out. -/
def Completes (program : EStateM Panic (Machine T C) Unit)
    (state : Machine T C) (rest : List AnyPage) : Prop :=
  (∃ final, program.run state = .ok () final ∧ Free final rest) ∨
    ∃ fault final, program.run state = .error fault final ∧
      state.allocator.Answered final.allocator none

theorem Completes.ofExcept_bind {α : Type}
    {outcome : Except Panic α} {value : α}
    {next : α → EStateM Panic (Machine T C) Unit}
    {state : Machine T C} {rest : List AnyPage}
    (computed : outcome = .ok value)
    (continues : Completes (next value) state rest) :
    Completes (MonadExcept.ofExcept outcome >>= next) state rest := by
  unfold Completes
  rw [computed, bind_run_of_ok _ (ofExcept_run (.ok value) state)]
  exact continues

theorem completes_mapOrPanic [LawfulMapper T]
    {size : PageSize} {page : Page size}
    {state : Machine T C} {rest : List AnyPage}
    (free : Free state (⟨size, page⟩ :: rest)) (fault : Panic)
    (frame : PhysFrame size) {flags : PageTableFlags}
    (present : flags.present = true) :
    Completes (mapOrPanic fault page frame flags) state rest := by
  have effect :=
    LawfulMapper.mapTo_effect state.table state.allocator page frame flags
      present
  cases answer :
      (mapTo page frame flags state.table state.allocator).result with
  | ok value =>
      left
      exact ⟨_, mapOrPanic_run_ok.mpr ⟨answer, rfl⟩, free.mapped frame present⟩
  | error reason =>
      right
      refine ⟨fault, state.mapped page frame flags, ?_, ?_⟩
      · unfold mapOrPanic mapNew
        rw [bind_run, modifyGet_run]
        simp only [answer]
        rfl
      · by_contra neverOut
        have succeeded :=
          effect.ok_of_unmapped (free.unmapped ⟨size, page⟩ (by simp)) neverOut
        rw [answer] at succeeded
        cases succeeded

variable [Mapper C]

theorem Completes.bind
    {first : EStateM Panic (Machine T C) Unit}
    {next : Unit → EStateM Panic (Machine T C) Unit}
    {state : Machine T C} {middle rest : List AnyPage}
    (completes : Completes first state middle)
    (grows : Preserves Grows first)
    (continues :
      ∀ final, Free final middle → Completes (next ()) final rest) :
    Completes (first >>= next) state rest := by
  rcases completes with ⟨final, returned, free⟩ | ⟨fault, final, stopped, out⟩
  · unfold Completes
    rw [bind_run_of_ok _ returned]
    rcases continues final free with done | ⟨fault, last, stopped, out⟩
    · exact Or.inl done
    · exact Or.inr ⟨fault, last, stopped,
        out.later (grows.of_run_ok returned).advances⟩
  · right
    rw [bind_run, stopped]
    exact ⟨fault, final, rfl, out⟩

/-- A loop that maps one page in each turn. -/
theorem completes_forM {α : Type} (target : α → AnyPage)
    {items : List α} {body : α → EStateM Panic (Machine T C) Unit}
    {state : Machine T C} {rest : List AnyPage}
    (turn :
      ∀ item ∈ items, ∀ state later, Free state (target item :: later) →
        Completes (body item) state later)
    (grows : ∀ item, Preserves Grows (body item))
    (free : Free state (items.map target ++ rest)) :
    Completes (items.forM body) state rest := by
  refine Or.imp ?returns id
    (forM_returns
      (fun remaining (middle : Machine T C) =>
        Free middle (remaining.map target ++ rest) ∧
          remaining ⊆ items ∧ state.allocator.Advances middle.allocator)
      (fun final => state.allocator.Answered final.allocator none)
      ?step ⟨free, List.Subset.refl _, FrameAllocator.Advances.refl _⟩)
  case returns =>
    rintro ⟨final, returned, freeRest, _⟩
    exact ⟨final, returned, freeRest⟩
  case step =>
    rintro item remaining middle ⟨freeNow, listed, advances⟩
    have related := grows item middle
    rcases turn item (listed (by simp)) middle _ freeNow with
      ⟨next, returned, freeNext⟩ | ⟨fault, next, stopped, out⟩
    · rw [returned] at related
      exact Or.inl ⟨next, returned, freeNext,
        (List.cons_subset.mp listed).2, advances.trans related.advances⟩
    · exact Or.inr ⟨fault, next, stopped, out.later advances⟩

variable [LawfulMapper T] [LawfulMapper C]

theorem completes_mapWindow {mem : Nat} {frames : List (PhysFrame .size1GiB)}
    {state : Machine T C} {rest : List AnyPage}
    (computed : windowFrames mem = .ok frames)
    (canonical : ∀ frame ∈ frames, windowPage frame = .ok (windowPageOf frame))
    (free : Free state ((windowPages mem).map hugePage ++ rest)) :
    Completes (mapWindow mem) state rest := by
  apply Completes.ofExcept_bind computed
  rw [windowPages, computed, listOf, List.map_map] at free
  apply completes_forM (hugePage ∘ windowPageOf) _ _ free
  · intro frame member middle later freeNow
    apply Completes.ofExcept_bind (canonical frame member)
    exact completes_mapOrPanic freeNow _ frame rfl
  · intro frame
    apply Preserves.ofExcept_bind
    intro page _
    exact preserves_mapOrPanic _ page frame rfl

theorem completes_mapStack {state : Machine T C} {rest : List AnyPage}
    (free : Free state (getStack.map smallPage ++ rest)) :
    Completes mapStack state rest := by
  apply completes_forM smallPage _ _ free
  · intro page _ middle later freeNow
    unfold Completes
    cases answer :
        middle.allocator.answers middle.allocator.drawn with
    | none =>
        right
        refine ⟨.message "Unable to allocate page for process stack!",
          middle.drawFrame, ?_, answered_drawFrame answer⟩
        rw [bind_run]
        unfold allocateFrame
        rw [bind_run, modifyGet_run]
        simp only [FrameAllocator.allocateFrame, answer]
        rfl
    | some frame =>
        rw [bind_run_of_ok _ (allocateFrame_run_ok.mpr ⟨answer, rfl⟩)]
        have freeDrawn : Free middle.drawFrame (smallPage page :: later) :=
          ⟨freeNow.apart, freeNow.unmapped⟩
        have mapping :
            Completes
              (mapOrPanic (.message "Unable to map page for process stack!")
                page frame presentWritableUser) middle.drawFrame later :=
          completes_mapOrPanic freeDrawn _ frame rfl
        rcases mapping with done | ⟨fault, final, stopped, out⟩
        · exact Or.inl done
        · exact Or.inr ⟨fault, final, stopped,
            out.later (advances_drawFrame middle)⟩
  · intro page
    refine Preserves.bind (preserves_allocateFrame _) ?_
    intro frame
    exact preserves_mapOrPanic _ page frame rfl

theorem completes_identityMapAll {flags : PageTableFlags}
    (present : flags.present = true) {frames : List (PhysFrame .size4KiB)}
    {state : Machine T C} {rest : List AnyPage}
    (low : ∀ frame ∈ frames, frame.startAddress < 2 ^ 48)
    (free :
      Free state ((frames.map identityPage).map smallPage ++ rest)) :
    Completes (identityMapAll flags frames) state rest := by
  rw [List.map_map] at free
  apply completes_forM (smallPage ∘ identityPage) _ _ free
  · intro frame member middle later freeNow
    unfold identityMapOrPanic
    rw [if_pos (low frame member)]
    exact completes_mapOrPanic freeNow _ frame present
  · intro frame
    exact preserves_identityMapOrPanic present frame

/-- The addresses given to a loader make sense: no conversion panics. -/
structure ValidWindow (mem : Nat) : Prop where
  frames : windowFrames mem = .ok (listOf (windowFrames mem))
  pages :
    ∀ frame ∈ listOf (windowFrames mem),
      windowPage frame = .ok (windowPageOf frame)

theorem completes_userSetup
    {kernelStackStart kernelStackEnd mem : Nat} {state : Machine T C}
    {stackFrames : List (PhysFrame .size4KiB)} {rest : List AnyPage}
    (window : ValidWindow mem)
    (stack :
      kernelStackFrames kernelStackStart kernelStackEnd = .ok stackFrames)
    (stackLow : ∀ frame ∈ stackFrames, frame.startAddress < 2 ^ 48)
    (free :
      Free state
        (userReserved kernelStackStart kernelStackEnd mem ++ rest)) :
    Completes (userSetup kernelStackStart kernelStackEnd mem) state rest := by
  simp only [userReserved, userSmallPages, stack, listOf, List.map_append,
    List.append_assoc] at free
  apply Completes.bind (completes_mapWindow window.frames window.pages free)
    (preserves_mapWindow mem)
  intro windowed free
  apply Completes.bind (completes_mapStack free) preserves_mapStack
  intro stacked free
  apply Completes.ofExcept_bind stack
  exact completes_identityMapAll rfl stackLow free

theorem completes_kernelSetup
    {descriptors : List MemoryDescriptor}
    {kernelStackStart kernelStackEnd mem : Nat} {state : Machine T C}
    {codeFrames stackFrames : List (PhysFrame .size4KiB)}
    {rest : List AnyPage}
    (window : ValidWindow mem)
    (code : kernelCodeFrames descriptors = .ok codeFrames)
    (stack :
      kernelStackFrames kernelStackStart kernelStackEnd = .ok stackFrames)
    (codeLow : ∀ frame ∈ codeFrames, frame.startAddress < 2 ^ 48)
    (stackLow : ∀ frame ∈ stackFrames, frame.startAddress < 2 ^ 48)
    (free :
      Free state
        (kernelReserved descriptors kernelStackStart kernelStackEnd mem ++
          rest)) :
    Completes (kernelSetup descriptors kernelStackStart kernelStackEnd mem)
      state rest := by
  simp only [kernelReserved, kernelSmallPages, code, stack, listOf,
    List.map_append, List.append_assoc] at free
  apply Completes.bind (completes_mapWindow window.frames window.pages free)
    (preserves_mapWindow mem)
  intro windowed free
  apply Completes.bind (completes_mapStack free) preserves_mapStack
  intro stacked free
  apply Completes.ofExcept_bind code
  apply Completes.ofExcept_bind stack
  apply Completes.bind (completes_identityMapAll rfl codeLow free)
    (preserves_identityMapAll rfl _)
  intro coded free
  apply Completes.bind (completes_identityMapAll rfl stackLow free)
    (preserves_identityMapAll rfl _)
  intro complete free
  exact completes_mapOrPanic free _ apicFrame rfl

end Completion

/-! ## The passes of a setup -/

section Runs

variable {T C : Type} [Mapper T]
variable {kernelStackStart kernelStackEnd mem : Nat}
variable {state final : Machine T C} {result : Unit}

theorem userSetup_run_ok
    (returned :
      (userSetup kernelStackStart kernelStackEnd mem).run state =
        .ok result final) :
    ∃ stackFrames windowed stacked,
      kernelStackFrames kernelStackStart kernelStackEnd = .ok stackFrames ∧
      (mapWindow mem).run state = .ok () windowed ∧
      mapStack.run windowed = .ok () stacked ∧
      (identityMapAll presentWritable stackFrames).run stacked =
        .ok () final := by
  unfold userSetup at returned
  rw [bind_run_ok] at returned
  obtain ⟨_, windowed, windowRun, returned⟩ := returned
  rw [bind_run_ok] at returned
  obtain ⟨_, stacked, stackRun, returned⟩ := returned
  rw [bind_run_ok] at returned
  obtain ⟨stackFrames, _, computed, returned⟩ := returned
  rw [ofExcept_run_ok] at computed
  obtain ⟨computed, rfl⟩ := computed
  exact ⟨stackFrames, windowed, stacked, computed, windowRun, stackRun,
    returned⟩

theorem kernelSetup_run_ok {descriptors : List MemoryDescriptor}
    (returned :
      (kernelSetup descriptors kernelStackStart kernelStackEnd mem).run state =
        .ok result final) :
    ∃ codeFrames stackFrames windowed stacked coded complete,
      kernelCodeFrames descriptors = .ok codeFrames ∧
      kernelStackFrames kernelStackStart kernelStackEnd = .ok stackFrames ∧
      (mapWindow mem).run state = .ok () windowed ∧
      mapStack.run windowed = .ok () stacked ∧
      (identityMapAll presentWritableUser codeFrames).run stacked =
        .ok () coded ∧
      (identityMapAll presentWritable stackFrames).run coded =
        .ok () complete ∧
      (mapOrPanic (.message "Unable to map apic regs for process!")
        (identityPage apicFrame) apicFrame presentWritable).run complete =
          .ok () final := by
  unfold kernelSetup at returned
  rw [bind_run_ok] at returned
  obtain ⟨_, windowed, windowRun, returned⟩ := returned
  rw [bind_run_ok] at returned
  obtain ⟨_, stacked, stackRun, returned⟩ := returned
  rw [bind_run_ok] at returned
  obtain ⟨codeFrames, _, codeComputed, returned⟩ := returned
  rw [ofExcept_run_ok] at codeComputed
  obtain ⟨codeComputed, rfl⟩ := codeComputed
  rw [bind_run_ok] at returned
  obtain ⟨stackFrames, _, computed, returned⟩ := returned
  rw [ofExcept_run_ok] at computed
  obtain ⟨computed, rfl⟩ := computed
  rw [bind_run_ok] at returned
  obtain ⟨_, coded, codeRun, returned⟩ := returned
  rw [bind_run_ok] at returned
  obtain ⟨_, complete, kernelStackRun, apicRun⟩ := returned
  exact ⟨codeFrames, stackFrames, windowed, stacked, coded, complete,
    codeComputed, computed, windowRun, stackRun, codeRun, kernelStackRun,
    apicRun⟩

end Runs

/-! ## The mappings of the passes -/

/-- A condition on mappings that holds on while frames are drawn. -/
structure LeafCondition where
  Holds :
    FrameAllocator → (size : PageSize) → Page size → PhysFrame size →
      PageTableFlags → Prop
  advance :
    ∀ {before after size page frame flags}, before.Advances after →
      Holds before size page frame flags → Holds after size page frame flags

/-- Flags make no difference to the condition. -/
def LeafCondition.IgnoresFlags (condition : LeafCondition) : Prop :=
  ∀ allocator size (page : Page size) frame old new,
    condition.Holds allocator size page frame old →
      condition.Holds allocator size page frame new

section Leaves

variable {T C : Type} [Mapper T]

/-- Every mapping of the new table meets the condition. -/
structure LeavesIn (condition : LeafCondition) (start : FrameAllocator)
    (state : Machine T C) : Prop where
  advances : start.Advances state.allocator
  holds :
    ∀ size (page : Page size) frame flags,
      entry state.table size page = .leaf frame flags →
        condition.Holds state.allocator size page frame flags

variable {condition : LeafCondition} {start : FrameAllocator}
variable {state final : Machine T C} {result : Unit}

theorem leavesIn_of_empty (empty : Empty state.table) :
    LeavesIn condition state.allocator state where
  advances := FrameAllocator.Advances.refl _
  holds := by
    intro size page frame flags leaf
    rw [empty] at leaf
    cases leaf

theorem LeavesIn.mono {weaker : LeafCondition}
    (leaves : LeavesIn condition start state)
    (implied :
      ∀ allocator size (page : Page size) frame flags,
        condition.Holds allocator size page frame flags →
          weaker.Holds allocator size page frame flags) :
    LeavesIn weaker start state where
  advances := leaves.advances
  holds := fun size page frame flags leaf =>
    implied _ size page frame flags (leaves.holds size page frame flags leaf)

theorem LeavesIn.of_sameTable (leaves : LeavesIn condition start state)
    (same : final.table = state.table)
    (advances : state.allocator.Advances final.allocator) :
    LeavesIn condition start final where
  advances := leaves.advances.trans advances
  holds := by
    intro size page frame flags leaf
    rw [same] at leaf
    exact condition.advance advances (leaves.holds size page frame flags leaf)

variable [LawfulMapper T]

theorem LeavesIn.mapped {size : PageSize} {page : Page size}
    {frame : PhysFrame size} {flags : PageTableFlags}
    (leaves : LeavesIn condition start state)
    (present : flags.present = true)
    (target :
      (mapTo page frame flags state.table state.allocator).result = .ok () →
        condition.Holds state.allocator size page frame flags)
    (reflagged :
      (mapTo page frame flags state.table state.allocator).result =
        .error .parentEntryHugePage → condition.IgnoresFlags) :
    LeavesIn condition start (state.mapped page frame flags) := by
  have effect :=
    LawfulMapper.mapTo_effect state.table state.allocator page frame flags
      present
  refine ⟨leaves.advances.trans effect.advances, ?_⟩
  intro size other held given leaf
  apply condition.advance effect.advances
  exact effect.leaves_after leaves.holds target
    (fun failed => reflagged failed state.allocator) leaf

theorem leavesIn_mapOrPanic {size : PageSize} {page : Page size}
    {frame : PhysFrame size} {flags : PageTableFlags} {fault : Panic}
    (present : flags.present = true)
    (target : condition.Holds state.allocator size page frame flags)
    (leaves : LeavesIn condition start state)
    (returned :
      (mapOrPanic fault page frame flags).run state = .ok result final) :
    LeavesIn condition start final := by
  obtain ⟨succeeded, rfl⟩ := mapOrPanic_run_ok.mp returned
  apply leaves.mapped present (fun _ => target)
  intro failed
  rw [succeeded] at failed
  cases failed

theorem leavesIn_mapWindow {mem : Nat}
    (target :
      ∀ allocator, ∀ frame ∈ listOf (windowFrames mem),
        condition.Holds allocator .size1GiB (windowPageOf frame) frame
          presentWritable)
    (leaves : LeavesIn condition start state)
    (returned : (mapWindow mem).run state = .ok result final) :
    LeavesIn condition start final := by
  unfold mapWindow at returned
  rw [bind_run_ok] at returned
  obtain ⟨frames, _, computed, looped⟩ := returned
  rw [ofExcept_run_ok] at computed
  obtain ⟨computed, rfl⟩ := computed
  rw [computed] at target
  apply forM_invariant (LeavesIn condition start) _ leaves looped
  intro frame member before after leaves turned
  rw [bind_run_ok] at turned
  obtain ⟨page, _, located, mapping⟩ := turned
  rw [ofExcept_run_ok] at located
  obtain ⟨located, rfl⟩ := located
  rw [windowPage_eq_ok located] at mapping
  exact leavesIn_mapOrPanic rfl (target _ frame member) leaves mapping

theorem leavesIn_mapStack
    (target :
      ∀ allocator, ∀ page ∈ getStack, ∀ frame,
        start.Answered allocator (some frame) →
          condition.Holds allocator .size4KiB page frame presentWritableUser)
    (leaves : LeavesIn condition start state)
    (returned : mapStack.run state = .ok result final) :
    LeavesIn condition start final := by
  apply forM_invariant (LeavesIn condition start) _ leaves returned
  intro page member before after leaves turned
  rw [bind_run_ok] at turned
  obtain ⟨frame, _, drawn, mapping⟩ := turned
  rw [allocateFrame_run_ok] at drawn
  obtain ⟨answer, rfl⟩ := drawn
  have answered := (answered_drawFrame answer).later leaves.advances
  exact leavesIn_mapOrPanic rfl (target _ page member frame answered)
    (leaves.of_sameTable rfl (advances_drawFrame before)) mapping

theorem leavesIn_identityMapAll {flags : PageTableFlags}
    (present : flags.present = true) {frames : List (PhysFrame .size4KiB)}
    (target :
      ∀ allocator, ∀ frame ∈ frames,
        condition.Holds allocator .size4KiB (identityPage frame) frame flags)
    (leaves : LeavesIn condition start state)
    (returned :
      (identityMapAll flags frames).run state = .ok result final) :
    LeavesIn condition start final := by
  apply forM_invariant (LeavesIn condition start) _ leaves returned
  intro frame member before after leaves turned
  unfold identityMapOrPanic at turned
  split at turned
  · exact leavesIn_mapOrPanic present (target _ frame member) leaves turned
  · cases turned

/-- The mappings of `from_elf` before its kernel pass. -/
theorem leavesIn_userSetup {kernelStackStart kernelStackEnd mem : Nat}
    (window :
      ∀ allocator, ∀ frame ∈ listOf (windowFrames mem),
        condition.Holds allocator .size1GiB (windowPageOf frame) frame
          presentWritable)
    (stack :
      ∀ allocator, ∀ page ∈ getStack, ∀ frame,
        start.Answered allocator (some frame) →
          condition.Holds allocator .size4KiB page frame presentWritableUser)
    (kernelStack :
      ∀ allocator,
        ∀ frame ∈ listOf (kernelStackFrames kernelStackStart kernelStackEnd),
          condition.Holds allocator .size4KiB (identityPage frame) frame
            presentWritable)
    (leaves : LeavesIn condition start state)
    (returned :
      (userSetup kernelStackStart kernelStackEnd mem).run state =
        .ok result final) :
    LeavesIn condition start final := by
  obtain
    ⟨stackFrames, windowed, stacked, computed, windowRun, stackRun,
      kernelStackRun⟩ :=
      userSetup_run_ok returned
  rw [computed] at kernelStack
  have leaves := leavesIn_mapWindow window leaves windowRun
  have leaves := leavesIn_mapStack stack leaves stackRun
  exact leavesIn_identityMapAll rfl kernelStack leaves kernelStackRun

/-- The mappings of `kernel_from_elf` before its segment loop. -/
theorem leavesIn_kernelSetup
    {descriptors : List MemoryDescriptor}
    {kernelStackStart kernelStackEnd mem : Nat}
    (window :
      ∀ allocator, ∀ frame ∈ listOf (windowFrames mem),
        condition.Holds allocator .size1GiB (windowPageOf frame) frame
          presentWritable)
    (stack :
      ∀ allocator, ∀ page ∈ getStack, ∀ frame,
        start.Answered allocator (some frame) →
          condition.Holds allocator .size4KiB page frame presentWritableUser)
    (code :
      ∀ allocator, ∀ frame ∈ listOf (kernelCodeFrames descriptors),
        condition.Holds allocator .size4KiB (identityPage frame) frame
          presentWritableUser)
    (kernelStack :
      ∀ allocator,
        ∀ frame ∈ listOf (kernelStackFrames kernelStackStart kernelStackEnd),
          condition.Holds allocator .size4KiB (identityPage frame) frame
            presentWritable)
    (apic :
      ∀ allocator,
        condition.Holds allocator .size4KiB (identityPage apicFrame) apicFrame
          presentWritable)
    (leaves : LeavesIn condition start state)
    (returned :
      (kernelSetup descriptors kernelStackStart kernelStackEnd mem).run state =
        .ok result final) :
    LeavesIn condition start final := by
  obtain
    ⟨codeFrames, stackFrames, windowed, stacked, coded, complete,
      codeComputed, computed, windowRun, stackRun, codeRun, kernelStackRun,
      apicRun⟩ :=
      kernelSetup_run_ok returned
  rw [codeComputed] at code
  rw [computed] at kernelStack
  have leaves := leavesIn_mapWindow window leaves windowRun
  have leaves := leavesIn_mapStack stack leaves stackRun
  have leaves := leavesIn_identityMapAll rfl code leaves codeRun
  have leaves := leavesIn_identityMapAll rfl kernelStack leaves kernelStackRun
  exact leavesIn_mapOrPanic rfl (apic _) leaves apicRun

/-- Only the given pages are mapped. -/
def onPages (pages : List AnyPage) : LeafCondition where
  Holds := fun _ size page _ _ => (⟨size, page⟩ : AnyPage) ∈ pages
  advance := fun _ member => member

omit [LawfulMapper T] in
/-- Outside the window there are no huge pages. -/
theorem noHugeParent_of_kernelReserved {descriptors : List MemoryDescriptor}
    {kernelStackStart kernelStackEnd mem : Nat} {page : Page .size4KiB}
    (leaves :
      LeavesIn
        (onPages
          (kernelReserved descriptors kernelStackStart kernelStackEnd mem))
        start state)
    (offWindow : ∀ huge ∈ windowPages mem, Apart huge page) :
    NoHugeParent state.table page := by
  intro larger frame flags grows leaf
  have member := leaves.holds larger _ frame flags leaf
  rcases List.mem_append.mp member with ofWindow | small
  · obtain ⟨huge, listed, same⟩ := List.mem_map.mp ofWindow
    cases same
    exact not_apart_enclosing page grows (offWindow _ listed)
  · obtain ⟨other, _, same⟩ := List.mem_map.mp small
    cases same
    exact Nat.lt_irrefl _ grows

theorem unmapped_of_onPages {pages : List AnyPage} {page : Page .size4KiB}
    (leaves : LeavesIn (onPages pages) start state)
    (apart : ∀ mapped ∈ pages, Apart mapped.2 page) :
    Unmapped state.table page := by
  apply unmapped_of_no_leaf
  intro size other frame flags leaf
  exact apart ⟨size, other⟩ (leaves.holds size other frame flags leaf)

theorem onPages_kernelSetup
    {descriptors : List MemoryDescriptor}
    {kernelStackStart kernelStackEnd mem : Nat}
    (empty : Empty state.table)
    (returned :
      (kernelSetup descriptors kernelStackStart kernelStackEnd mem).run state =
        .ok result final) :
    LeavesIn
      (onPages
        (kernelReserved descriptors kernelStackStart kernelStackEnd mem))
      state.allocator final := by
  apply leavesIn_kernelSetup _ _ _ _ _ (leavesIn_of_empty empty) returned
  · intro _ frame member
    apply List.mem_append_left
    exact List.mem_map_of_mem (List.mem_map_of_mem member)
  · intro _ page member _ _
    apply List.mem_append_right
    apply List.mem_map_of_mem
    simp [kernelSmallPages, member]
  · intro _ frame member
    apply List.mem_append_right
    apply List.mem_map_of_mem
    simp only [kernelSmallPages, List.mem_append]
    exact Or.inr (Or.inl (List.mem_map_of_mem member))
  · intro _ frame member
    apply List.mem_append_right
    apply List.mem_map_of_mem
    simp only [kernelSmallPages, List.mem_append]
    exact Or.inr (Or.inr (Or.inl (List.mem_map_of_mem member)))
  · intro _
    apply List.mem_append_right
    apply List.mem_map_of_mem
    simp [kernelSmallPages]

theorem onPages_userSetup {kernelStackStart kernelStackEnd mem : Nat}
    (empty : Empty state.table)
    (returned :
      (userSetup kernelStackStart kernelStackEnd mem).run state =
        .ok result final) :
    LeavesIn (onPages (userReserved kernelStackStart kernelStackEnd mem))
      state.allocator final := by
  apply leavesIn_userSetup _ _ _ (leavesIn_of_empty empty) returned
  · intro _ frame member
    apply List.mem_append_left
    exact List.mem_map_of_mem (List.mem_map_of_mem member)
  · intro _ page member _ _
    apply List.mem_append_right
    apply List.mem_map_of_mem
    simp [userSmallPages, member]
  · intro _ frame member
    apply List.mem_append_right
    apply List.mem_map_of_mem
    simp only [userSmallPages, List.mem_append]
    exact Or.inr (List.mem_map_of_mem member)

end Leaves

/-! ## The window of the passes -/

section Window

variable {T C : Type} [Mapper T] [Mapper C]

/-- Every frame of the window is mapped at its page. -/
def WindowMapped (mem : Nat) (table : T) : Prop :=
  ∃ frames, windowFrames mem = .ok frames ∧
    ∀ frame ∈ frames, ∃ page flags,
      windowPage frame = .ok page ∧
        entry table .size1GiB page = .leaf frame flags

theorem WindowMapped.grows {mem : Nat} {before after : Machine T C}
    (mapped : WindowMapped mem before.table) (grown : Grows before after) :
    WindowMapped mem after.table := by
  obtain ⟨frames, computed, each⟩ := mapped
  refine ⟨frames, computed, ?_⟩
  intro frame member
  obtain ⟨page, flags, located, leaf⟩ := each frame member
  obtain ⟨kept, leaf⟩ := grown.leaves _ _ _ _ leaf
  exact ⟨page, kept, located, leaf⟩

variable [LawfulMapper T] [LawfulMapper C]
variable {state final : Machine T C} {result : Unit} {mem : Nat}

/-- A returning pass has mapped every frame of the window. -/
theorem mapWindow_maps
    (returned : (mapWindow mem).run state = .ok result final) :
    WindowMapped mem final.table := by
  unfold mapWindow at returned
  rw [bind_run_ok] at returned
  obtain ⟨frames, _, computed, looped⟩ := returned
  rw [ofExcept_run_ok] at computed
  obtain ⟨computed, rfl⟩ := computed
  refine ⟨frames, computed, ?_⟩
  intro frame member
  obtain ⟨front, back, listed⟩ := List.append_of_mem member
  rw [listed, forM_append_run_ok] at looped
  obtain ⟨before, _, looped⟩ := looped
  rw [forM_cons_run_ok] at looped
  obtain ⟨after, turned, ended⟩ := looped
  rw [bind_run_ok] at turned
  obtain ⟨page, _, located, mapping⟩ := turned
  rw [ofExcept_run_ok] at located
  obtain ⟨located, rfl⟩ := located
  obtain ⟨succeeded, rfl⟩ := mapOrPanic_run_ok.mp mapping
  have effect :=
    LawfulMapper.mapTo_effect before.table before.allocator page frame
      presentWritable rfl
  have grown :
      Grows (before.mapped page frame presentWritable) final := by
    refine (Preserves.forM ?_).of_run_ok ended
    intro later _
    apply Preserves.ofExcept_bind
    intro laterPage _
    exact preserves_mapOrPanic _ laterPage later rfl
  obtain ⟨flags, leaf⟩ := grown.leaves _ _ _ _ (effect.mapped succeeded).2
  exact ⟨page, flags, located, leaf⟩

theorem userSetup_maps_window {kernelStackStart kernelStackEnd : Nat}
    (returned :
      (userSetup kernelStackStart kernelStackEnd mem).run state =
        .ok result final) :
    WindowMapped mem final.table := by
  obtain ⟨_, windowed, stacked, _, windowRun, stackRun, kernelStackRun⟩ :=
    userSetup_run_ok returned
  have toStacked : Grows windowed stacked :=
    preserves_mapStack.of_run_ok stackRun
  have toFinal : Grows stacked final :=
    (preserves_identityMapAll rfl _).of_run_ok kernelStackRun
  exact (mapWindow_maps windowRun).grows (toStacked.trans toFinal)

theorem kernelSetup_maps_window {descriptors : List MemoryDescriptor}
    {kernelStackStart kernelStackEnd : Nat}
    (returned :
      (kernelSetup descriptors kernelStackStart kernelStackEnd mem).run state =
        .ok result final) :
    WindowMapped mem final.table := by
  obtain
    ⟨_, _, windowed, stacked, coded, complete, _, _, windowRun, stackRun,
      codeRun, kernelStackRun, apicRun⟩ :=
      kernelSetup_run_ok returned
  have toStacked : Grows windowed stacked :=
    preserves_mapStack.of_run_ok stackRun
  have toCoded : Grows stacked coded :=
    (preserves_identityMapAll rfl _).of_run_ok codeRun
  have toComplete : Grows coded complete :=
    (preserves_identityMapAll rfl _).of_run_ok kernelStackRun
  have toFinal : Grows complete final :=
    (preserves_mapOrPanic _ _ _ rfl).of_run_ok apicRun
  exact (mapWindow_maps windowRun).grows
    (toStacked.trans (toCoded.trans (toComplete.trans toFinal)))

end Window

end RustKernel.Loader
