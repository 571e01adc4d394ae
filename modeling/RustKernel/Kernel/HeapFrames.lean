import RustKernel.Foundations.Ownership
import RustKernel.Kernel.HeapInit

/-!
# The frames of the heap

`init_heap_new` draws a frame for each page, and `map_to` draws frames for the
tables in between.  A frame of the heap is therefore in no table, and none of
both is given out again.
-/

namespace RustKernel.Kernel

open RustKernel.Foundations
open RustKernel.Machine
open RustKernel.Paging

/-- What a frame is used for while the heap is mapped. -/
inductive HeapOwner where
  | table
  | page (page : Page .size4KiB)

section Frames

variable {T : Type} [Mapper T]

/-- The frames of the table, and those of the given pages. -/
def heapHoldings (pages : List (Page .size4KiB)) (table : T) :
    HeapOwner → Set (PhysFrame .size4KiB)
  | .table => tableFrames table
  | .page page =>
      {frame | page ∈ pages ∧
        ∃ flags, entry table .size4KiB page = .leaf frame flags}

variable {flags : PageTableFlags} {kept pages : List (Page .size4KiB)}
variable {page : Page .size4KiB} {frame : PhysFrame .size4KiB}
variable {state final : HeapMachine T}

theorem heapHoldings_mapped {supply : FrameAllocator} {before : T}
    {outcome : MapOutcome T .size4KiB}
    (effect : MapToEffect page frame flags before supply outcome)
    {owner : HeapOwner} {held : PhysFrame .size4KiB}
    (held_after : held ∈ heapHoldings kept outcome.table owner) :
    held ∈ heapHoldings kept before owner ∨
      owner = .table ∧ supply.Answered outcome.allocator (some held) ∨
      owner = .page page ∧ held = frame := by
  cases owner with
  | table =>
      rcases effect.tablesDrawn held held_after with old | drawn
      · exact Or.inl old
      · exact Or.inr (Or.inl ⟨rfl, drawn⟩)
  | page other =>
      obtain ⟨listed, given, leaf⟩ := held_after
      by_cases same : other = page
      · subst same
        by_cases succeeded : outcome.result = .ok ()
        · rw [(effect.mapped succeeded).2] at leaf
          cases leaf
          exact Or.inr (Or.inr ⟨rfl, rfl⟩)
        · rw [effect.targetKept succeeded] at leaf
          exact Or.inl ⟨listed, given, leaf⟩
      · rw [effect.sameSizeKept other same] at leaf
        exact Or.inl ⟨listed, given, leaf⟩

/-- No frame of the table and of the pages has two uses, and those of the
pages have been drawn since the start. -/
structure HeapBuilt (kept : List (Page .size4KiB)) (start : FrameAllocator)
    (state : HeapMachine T) : Prop where
  advances : start.Advances state.allocator
  owned :
    Owned start.answers state.allocator.drawn (heapHoldings kept state.table)
  drawn :
    ∀ page ∈ kept, ∀ frame flags,
      entry state.table .size4KiB page = .leaf frame flags →
        start.Answered state.allocator (some frame)

theorem heapBuilt_of_unused
    (tablesSpent :
      ∀ frame ∈ tableFrames state.table,
        Spent state.allocator.answers state.allocator.drawn frame)
    (unused :
      ∀ page ∈ kept, entry state.table .size4KiB page = .unused) :
    HeapBuilt kept state.allocator state := by
  have onlyTables (owner : HeapOwner) (frame : PhysFrame .size4KiB)
      (held : frame ∈ heapHoldings kept state.table owner) :
      owner = .table ∧ frame ∈ tableFrames state.table := by
    cases owner with
    | table => exact ⟨rfl, held⟩
    | page page =>
        obtain ⟨listed, flags, leaf⟩ := held
        rw [unused page listed] at leaf
        cases leaf
  refine ⟨FrameAllocator.Advances.refl _, ⟨?_, ?_⟩, ?_⟩
  · intro owner frame held
    exact tablesSpent frame (onlyTables owner frame held).2
  · intro left right frame heldLeft heldRight
    rw [(onlyTables left frame heldLeft).1,
      (onlyTables right frame heldRight).1]
  · intro page listed frame flags leaf
    rw [unused page listed] at leaf
    cases leaf

variable [LawfulMapper T] {start : FrameAllocator}

/-- One turn: the page gets the frame that was drawn, and the table gets
frames that are drawn after it. -/
theorem HeapBuilt.turn (built : HeapBuilt kept start state)
    (once : NeverTwice start.answers) (present : flags.present = true)
    (answer :
      state.allocator.answers state.allocator.drawn = some frame) :
    HeapBuilt kept start (state.drawn.mapped flags page frame) := by
  have effect :=
    LawfulMapper.mapTo_effect state.table state.drawn.allocator page frame
      flags present
  have draws : state.allocator.Advances state.drawn.allocator :=
    ⟨rfl, Nat.le_succ _⟩
  have given : state.allocator.Answered state.drawn.allocator (some frame) :=
    ⟨_, Nat.le_refl _, Nat.lt_succ_self _, answer⟩
  have toDrawn := built.advances.trans draws
  have answers := toDrawn.answers_eq
  rw [built.advances.answers_eq] at answer
  refine ⟨toDrawn.trans effect.advances, ?_, ?_⟩
  · have later :
        Owned start.answers (state.allocator.drawn + 1)
          (heapHoldings kept state.table) :=
      built.owned.later (Nat.le_succ _)
    apply later.grow .table (.page page) {frame} once effect.advances.drawn_le
    · rintro other rfl
      exact built.owned.unowned_answer once answer
    · intro owner held holds
      rcases heapHoldings_mapped effect holds with
        old | ⟨isTable, index, lower, upper, found⟩ | brought
      · exact Or.inl old
      · rw [answers] at found
        exact Or.inr (Or.inl ⟨isTable, index, lower, upper, found⟩)
      · exact Or.inr (Or.inr brought)
  · intro other listed held old leaf
    have holds :
        held ∈ heapHoldings kept
          (state.drawn.mapped flags page frame).table (.page other) :=
      ⟨listed, old, leaf⟩
    rcases heapHoldings_mapped effect holds with
      ⟨_, before, was⟩ | ⟨absurdity, _⟩ | ⟨_, rfl⟩
    · exact (built.drawn other listed held before was).earlier
        (draws.trans effect.advances)
    · cases absurdity
    · exact (given.earlier effect.advances).later built.advances

theorem HeapBuilt.mapHeapPages (built : HeapBuilt kept start state)
    (once : NeverTwice start.answers) (present : flags.present = true)
    (returned :
      (Kernel.mapHeapPages flags pages).run state = .ok (.ok ()) final) :
    HeapBuilt kept start final := by
  induction pages generalizing state with
  | nil =>
      rw [mapHeapPages_nil_ok] at returned
      exact returned ▸ built
  | cons page pages inductionHypothesis =>
      rw [mapHeapPages_cons_ok] at returned
      obtain ⟨frame, answer, rest⟩ := returned
      exact inductionHypothesis (built.turn once present answer) rest

/-- A heap that is mapped where nothing was. -/
theorem heapBuilt_initHeapNew {offset : Nat} {user : Bool}
    (once : NeverTwice state.allocator.answers)
    (tablesSpent :
      ∀ frame ∈ tableFrames state.table,
        Spent state.allocator.answers state.allocator.drawn frame)
    (unused :
      ∀ page ∈ heapPages offset,
        entry state.table .size4KiB page = .unused)
    (returned : (initHeapNew offset user).run state = .ok (.ok ()) final) :
    HeapBuilt (heapPages offset) state.allocator final := by
  obtain ⟨others, middle, _, _, looped, tableEq, allocatorEq⟩ :=
    initHeapNew_loop returned
  have built :=
    (heapBuilt_of_unused tablesSpent unused).mapHeapPages once rfl looped
  constructor
  case advances => exact allocatorEq ▸ built.advances
  case owned =>
    rw [tableEq, allocatorEq]
    exact built.owned
  case drawn =>
    rw [tableEq, allocatorEq]
    exact built.drawn

/-- The pages apart from the heap that were free stay so. -/
theorem mapHeapPages_unmapped_kept (present : flags.present = true)
    (unmapped : Unmapped state.table page)
    (apart : ∀ mapped ∈ pages, Apart mapped page)
    (returned : (mapHeapPages flags pages).run state = .ok (.ok ()) final) :
    Unmapped final.table page := by
  induction pages generalizing state with
  | nil =>
      rw [mapHeapPages_nil_ok] at returned
      exact returned ▸ unmapped
  | cons first pages inductionHypothesis =>
      rw [mapHeapPages_cons_ok] at returned
      obtain ⟨frame, _, rest⟩ := returned
      have effect :=
        LawfulMapper.mapTo_effect state.table state.drawn.allocator first frame
          flags present
      apply inductionHypothesis _ _ rest
      · exact effect.unmapped_kept unmapped (apart first List.mem_cons_self)
      · exact fun mapped member => apart mapped (List.mem_cons_of_mem _ member)

theorem initHeapNew_unmapped_kept {offset : Nat} {user : Bool}
    (formed : heapRange offset = .ok (heapPages offset))
    (unmapped : Unmapped state.table page)
    (apart : ∀ mapped ∈ heapPages offset, Apart mapped page)
    (returned : (initHeapNew offset user).run state = .ok (.ok ()) final) :
    Unmapped final.table page := by
  obtain ⟨others, middle, range, _, looped, tableEq, _⟩ :=
    initHeapNew_loop returned
  rw [formed, Except.ok.injEq] at range
  rw [← range] at looped
  rw [tableEq]
  exact mapHeapPages_unmapped_kept rfl unmapped apart looped

/-- What a turn draws. -/
theorem turn_advances (page : Page .size4KiB) (frame : PhysFrame .size4KiB)
    (state : HeapMachine T) (present : flags.present = true) :
    state.allocator.Advances
        (state.drawn.mapped flags page frame).allocator ∧
      (state.drawn.mapped flags page frame).allocator.drawn ≤
        state.allocator.drawn + (1 + 3) := by
  have effect :=
    LawfulMapper.mapTo_effect state.table state.drawn.allocator page frame
      flags present
  have draws : state.allocator.Advances state.drawn.allocator :=
    ⟨rfl, Nat.le_succ _⟩
  refine ⟨draws.trans effect.advances, ?_⟩
  have few := effect.atMostThree
  have counted : state.drawn.allocator.drawn = state.allocator.drawn + 1 := rfl
  rw [counted, Nat.add_assoc] at few
  exact few

/-- The allocator answers the next calls with frames. -/
def HeapMachine.Supplied (count : Nat) (state : HeapMachine T) : Prop :=
  ∀ index, state.allocator.drawn ≤ index →
    index < state.allocator.drawn + count →
      state.allocator.answers index ≠ none

/-- Frames for every page and for the tables above it are enough for the
loop. -/
theorem mapHeapPages_within (present : flags.present = true)
    (enough : state.Supplied (pages.length * (1 + 3))) :
    ∃ final, (mapHeapPages flags pages).run state = .ok (.ok ()) final ∧
      final.allocator.drawn ≤
        state.allocator.drawn + pages.length * (1 + 3) ∧
      TablesSupplied flags pages state.table state.allocator := by
  induction pages generalizing state with
  | nil => exact ⟨state, mapHeapPages_nil_ok.mpr rfl, Nat.le_refl _, trivial⟩
  | cons page pages inductionHypothesis =>
      rw [List.length_cons, Nat.succ_mul] at enough ⊢
      have first := enough state.allocator.drawn (Nat.le_refl _) (by omega)
      obtain ⟨frame, answer⟩ := Option.ne_none_iff_exists'.mp first
      obtain ⟨advances, few⟩ := turn_advances page frame state present
      have later :
          (state.drawn.mapped flags page frame).Supplied
            (pages.length * (1 + 3)) := by
        intro index lower upper
        rw [advances.answers_eq]
        have behind := advances.drawn_le
        exact enough index (by omega) (by omega)
      obtain ⟨final, looped, within, supplied⟩ := inductionHypothesis later
      refine ⟨final, mapHeapPages_cons_ok.mpr ⟨frame, answer, looped⟩,
        by omega, ?_⟩
      intro given again
      rw [answer, Option.some.injEq] at again
      subst again
      refine ⟨?_, supplied⟩
      rintro ⟨index, lower, upper, out⟩
      change index < (state.drawn.mapped flags page frame).allocator.drawn
        at upper
      have started : state.allocator.drawn + 1 ≤ index := lower
      exact enough index (by omega) (by omega) out

end Frames

section Returns

variable {T : Type} [Mapper T] [ReportingMapper T] {state : HeapMachine T}

/-- With four frames for each page, `init_heap_new` maps a heap that was
unmapped. -/
theorem initHeapNew_within {offset : Nat} {user : Bool}
    (formed : heapRange offset = .ok (heapPages offset))
    (fits : heapStart + offset < wordSize)
    (free : ∀ page ∈ heapPages offset, Unmapped state.table page)
    (enough : state.Supplied ((heapPages offset).length * (1 + 3))) :
    ∃ final, (initHeapNew offset user).run state = .ok (.ok ()) final ∧
      state.allocator.Advances final.allocator ∧
      final.allocator.drawn ≤
        state.allocator.drawn + (heapPages offset).length * (1 + 3) ∧
      ∀ page ∈ heapPages offset, ∃ frame,
        state.allocator.Answered final.allocator (some frame) ∧
          translatePage final.table page = some frame := by
  have looping :
      ∃ middle,
        (mapHeapPages (heapFlags user) (heapPages offset)).run state =
          .ok (.ok ()) middle ∧
        middle.allocator.drawn ≤
          state.allocator.drawn + (heapPages offset).length * (1 + 3) ∧
        TablesSupplied (heapFlags user) (heapPages offset) state.table
          state.allocator :=
    mapHeapPages_within rfl enough
  obtain ⟨middle, looped, within, supplied⟩ := looping
  have advances : state.allocator.Advances middle.allocator :=
    mapHeapPages_advances rfl looped
  have started :
      checkedAdd heapStart offset = .ok (heapStart + offset) :=
    checkedAdd_eq_ok.mpr ⟨fits, rfl⟩
  refine ⟨{ middle with handed := some (heapStart + offset, heapSize) }, ?_,
    advances, within, ?_⟩
  · rw [initHeapNew, formed, bind_run_of_ok _ (ofExcept_run (.ok _) state),
      bind_run_of_ok _ looped, handHeap, started,
      bind_run_of_ok _ (ofExcept_run (.ok _) middle)]
    rfl
  · rw [← List.append_nil (heapPages offset)] at looped
    have nodup : (heapPages offset ++ []).Nodup := by
      rw [List.append_nil]
      exact Page.rangeInclusive_nodup _ _
    obtain ⟨index, maps, _⟩ :=
      mapHeapPages_maps rfl nodup free supplied looped
    intro page member
    obtain ⟨lower, upper, frame, given, leaf⟩ := maps page member
    exact ⟨frame, ⟨index page, lower, upper, given⟩,
      translatePage_eq_some.mpr ⟨_, leaf⟩⟩

end Returns

end RustKernel.Kernel
