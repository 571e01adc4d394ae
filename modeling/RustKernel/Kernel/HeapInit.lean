import RustKernel.Kernel.MapVirt
import RustKernel.Paging.Reports

/-!
# Initialisation of the kernel heap

`init_heap_new` draws a frame for every page of `heap_range` and maps it, with
the result of `map_to` discarded, and hands the heap to its allocator.  Only a
data frame that is missing is reported.
-/

namespace RustKernel.Kernel

open RustKernel.Foundations
open RustKernel.Machine
open RustKernel.Paging

/-- `HEAP_START`. -/
def heapStart : Nat := sizeTb 3

/-- `HEAP_SIZE`. -/
def heapSize : Nat := sizeMb 10

/-! ## The functions -/

/-- `heap_range`, as the list of its pages. -/
def heapRange (offset : Nat) : Except Panic (List (Page .size4KiB)) := do
  let raw ← checkedAdd heapStart offset
  let start ← VirtAddr.new raw
  let length ← checkedAdd heapSize offset
  let sum ← checkedAdd (rawAddress start) length
  let behind ← VirtAddr.new sum
  let lastRaw ← checkedSub (rawAddress behind) 1
  let last ← VirtAddr.new lastRaw
  return Page.rangeInclusive (Page.containingAddress start)
    (Page.containingAddress last)

/-- The table, the frame allocator, and the range handed to the heap. -/
structure HeapMachine (T : Type) where
  table : T
  allocator : FrameAllocator
  handed : Option (Nat × Nat)

/-- The flags of the mappings. -/
def heapFlags (user : Bool) : PageTableFlags := ⟨true, true, user⟩

section Functions

variable {T : Type} [Mapper T]

/-- `allocate_frame`. -/
def HeapMachine.draw (state : HeapMachine T) :
    Option (PhysFrame .size4KiB) × HeapMachine T :=
  (state.allocator.allocateFrame.1,
    { state with allocator := state.allocator.allocateFrame.2 })

/-- `map_to` has been called. -/
def HeapMachine.mapped (flags : PageTableFlags) (page : Page .size4KiB)
    (frame : PhysFrame .size4KiB) (state : HeapMachine T) : HeapMachine T :=
  let outcome := mapTo page frame flags state.table state.allocator
  { state with table := outcome.table, allocator := outcome.allocator }

/-- The loop of `init_heap_new`. -/
def mapHeapPages (flags : PageTableFlags) :
    List (Page .size4KiB) →
      EStateM Panic (HeapMachine T) (Except (MapToError .size4KiB) Unit)
  | [] => return .ok ()
  | page :: pages => do
      let drawn ← modifyGet HeapMachine.draw
      match drawn with
      | none => return .error .frameAllocationFailed
      | some frame => do
          modify (HeapMachine.mapped flags page frame)
          mapHeapPages flags pages

/-- The end of `init_heap_new`, behind the loop. -/
def handHeap (offset : Nat) :
    Except (MapToError .size4KiB) Unit →
      EStateM Panic (HeapMachine T) (Except (MapToError .size4KiB) Unit)
  | .error reason => return .error reason
  | .ok _ => do
      let start ← MonadExcept.ofExcept (checkedAdd heapStart offset)
      modify fun state => { state with handed := some (start, heapSize) }
      return .ok ()

/-- `init_heap_new`. -/
def initHeapNew (offset : Nat) (user : Bool) :
    EStateM Panic (HeapMachine T) (Except (MapToError .size4KiB) Unit) := do
  let pages ← MonadExcept.ofExcept (heapRange offset)
  let answer ← mapHeapPages (heapFlags user) pages
  handHeap offset answer

end Functions

/-! ## The pages of the heap -/

/-- The pages of the range that is handed to the heap. -/
def heapPages (offset : Nat) : List (Page .size4KiB) :=
  Page.rangeInclusive ⟨(heapStart + offset) / 4096⟩
    ⟨(heapStart + offset + heapSize - 1) / 4096⟩

/-- The page has an address of the heap. -/
theorem mem_heapPages {offset : Nat} {page : Page .size4KiB} :
    page ∈ heapPages offset ↔
      ∃ address, heapStart + offset ≤ address ∧
        address < heapStart + offset + heapSize ∧
        address / 4096 = page.number := by
  have positive : 0 < heapSize := by decide
  rw [heapPages, Page.mem_rangeInclusive]
  simp only
  constructor
  · intro between
    by_cases first : (heapStart + offset) / 4096 = page.number
    · exact ⟨heapStart + offset, Nat.le_refl _, by omega, first⟩
    · exact ⟨page.number * 4096, by omega, by omega, by omega⟩
  · intro inside
    obtain ⟨address, lower, upper, inPage⟩ := inside
    omega

theorem rangeInclusive_append {size : PageSize} {first middle last : Nat}
    (lower : first ≤ middle + 1) (upper : middle ≤ last) :
    Page.rangeInclusive (⟨first⟩ : Page size) ⟨last⟩ =
      Page.rangeInclusive ⟨first⟩ ⟨middle⟩ ++
        Page.rangeInclusive ⟨middle + 1⟩ ⟨last⟩ := by
  have count :
      last + 1 - first = middle + 1 - first + (last + 1 - (middle + 1)) := by
    omega
  have next : middle + 1 = first + (middle + 1 - first) := by omega
  simp only [Page.rangeInclusive]
  rw [count, ← List.map_append, ← List.range'_append_1, ← next]

/-- The start of a heap that has an end is not sign-extended twice. -/
theorem heapStart_low48 {offset : Nat} {start : VirtAddr}
    (created : VirtAddr.new (heapStart + offset) = .ok start)
    (sumFits : rawAddress start + (heapSize + offset) < wordSize) :
    start.low48 = heapStart + offset ∧ heapStart + offset < 2 ^ 48 := by
  have low := VirtAddr.new_low48 created
  rcases VirtAddr.new_bounds created with lower | ⟨upper, fits⟩
  · rw [Nat.mod_eq_of_lt lower] at low
    exact ⟨low, lower⟩
  · exfalso
    have high : ¬ start.low48 < 2 ^ 47 := by omega
    rw [rawAddress, if_neg high, wordSize] at sumFits
    unfold heapStart sizeTb at upper low
    omega

theorem last_low48 {behind last : VirtAddr}
    (positive : 0 < behind.low48)
    (created : VirtAddr.new (rawAddress behind - 1) = .ok last) :
    last.low48 = behind.low48 - 1 := by
  have low := VirtAddr.new_low48 created
  have inRange := behind.inRange
  unfold rawAddress at low
  split at low <;> omega

/-- `heap_range` has the pages of the heap in front, and others behind them. -/
theorem heapRange_eq_ok {offset : Nat} {pages : List (Page .size4KiB)}
    (formed : heapRange offset = .ok pages) :
    pages.Nodup ∧ ∃ others, pages = heapPages offset ++ others := by
  simp only [heapRange, except_bind_eq_ok, checkedAdd_eq_ok,
    checkedSub_eq_ok] at formed
  obtain
    ⟨_, ⟨_, rfl⟩, start, startCreated, _, ⟨lengthFits, rfl⟩, sum, ⟨sumFits,
      summed⟩, behind, behindCreated, _, ⟨_, rfl⟩, last, lastCreated,
      formed⟩ :=
      formed
  obtain ⟨startLow, startFits⟩ := heapStart_low48 startCreated sumFits
  have behindLow :
      behind.low48 = start.low48 + (heapSize + offset) :=
    virtEnd_low48 (by unfold heapSize sizeMb; omega)
      (checkedAdd_eq_ok.mpr ⟨sumFits, summed⟩) behindCreated
  have positive : 0 < heapSize := by decide
  have lastLow := last_low48 (by omega) lastCreated
  cases formed
  refine ⟨Page.rangeInclusive_nodup _ _,
    Page.rangeInclusive ⟨(heapStart + offset + heapSize - 1) / 4096 + 1⟩
      ⟨last.low48 / 4096⟩, ?_⟩
  have lower :
      (heapStart + offset) / 4096 ≤
        (heapStart + offset + heapSize - 1) / 4096 + 1 := by
    omega
  have upper :
      (heapStart + offset + heapSize - 1) / 4096 ≤ last.low48 / 4096 :=
    Nat.div_le_div_right (by omega)
  simp only [Page.containingAddress, PageSize.bytes, startLow]
  exact rangeInclusive_append lower upper

/-! ## The loop -/

section Loop

variable {T : Type} [Mapper T]
variable {flags : PageTableFlags} {page : Page .size4KiB}
variable {pages front back : List (Page .size4KiB)}
variable {state final : HeapMachine T}

/-- The state of the turn that has drawn its frame. -/
def HeapMachine.drawn (state : HeapMachine T) : HeapMachine T := state.draw.2

theorem mapHeapPages_nil_ok :
    (mapHeapPages flags []).run state = .ok (.ok ()) final ↔
      state = final := by
  rw [mapHeapPages, pure_run_ok]
  simp

/-- A loop that ends well has drawn a frame in its first turn. -/
theorem mapHeapPages_cons_ok :
    (mapHeapPages flags (page :: pages)).run state = .ok (.ok ()) final ↔
      ∃ frame, state.allocator.answers state.allocator.drawn = some frame ∧
        (mapHeapPages flags pages).run (state.drawn.mapped flags page frame) =
          .ok (.ok ()) final := by
  rw [mapHeapPages, bind_run, modifyGet_run]
  simp only [HeapMachine.draw, FrameAllocator.allocateFrame]
  cases state.allocator.answers state.allocator.drawn with
  | none =>
      simp only [pure_run_ok]
      simp
  | some frame =>
      simp only [bind_run, modify_run, Option.some.injEq, exists_eq_left']
      rfl

/-- The allocator does not turn down a request for a table while the pages are
mapped. -/
def TablesSupplied (flags : PageTableFlags) :
    List (Page .size4KiB) → T → FrameAllocator → Prop
  | [], _, _ => True
  | page :: pages, table, allocator =>
      ∀ frame, allocator.answers allocator.drawn = some frame →
        let after := allocator.allocateFrame.2
        let outcome := mapTo page frame flags table after
        ¬ after.Answered outcome.allocator none ∧
          TablesSupplied flags pages outcome.table outcome.allocator

variable [ReportingMapper T]

theorem turn_effect (present : flags.present = true) (page : Page .size4KiB)
    (frame : PhysFrame .size4KiB) (state : HeapMachine T) :
    MapToEffect page frame flags state.table state.drawn.allocator
      (mapTo page frame flags state.table state.drawn.allocator) :=
  LawfulMapper.mapTo_effect state.table state.drawn.allocator page frame flags
    present

omit [Mapper T] [ReportingMapper T] in
theorem drawn_advances (state : HeapMachine T) :
    state.allocator.Advances state.drawn.allocator :=
  ⟨rfl, Nat.le_succ _⟩

theorem mapHeapPages_advances (present : flags.present = true)
    (returned : (mapHeapPages flags pages).run state = .ok (.ok ()) final) :
    state.allocator.Advances final.allocator := by
  induction pages generalizing state with
  | nil =>
      rw [mapHeapPages_nil_ok] at returned
      rw [returned]
      exact FrameAllocator.Advances.refl final.allocator
  | cons page pages inductionHypothesis =>
      rw [mapHeapPages_cons_ok] at returned
      obtain ⟨frame, _, rest⟩ := returned
      have effect := turn_effect present page frame state
      exact (drawn_advances state).trans
        (effect.advances.trans (inductionHypothesis rest))

/-- The loop leaves the entries of other pages. -/
theorem mapHeapPages_others_kept (present : flags.present = true)
    (returned : (mapHeapPages flags pages).run state = .ok (.ok ()) final)
    (absent : page ∉ pages) :
    entry final.table .size4KiB page = entry state.table .size4KiB page := by
  induction pages generalizing state with
  | nil =>
      rw [mapHeapPages_nil_ok] at returned
      rw [returned]
  | cons head pages inductionHypothesis =>
      rw [mapHeapPages_cons_ok] at returned
      obtain ⟨frame, _, rest⟩ := returned
      rw [List.mem_cons, not_or] at absent
      have effect := turn_effect present head frame state
      rw [inductionHypothesis rest absent.2]
      exact effect.sameSizeKept page absent.1

omit [ReportingMapper T] in
/-- Nothing is unmapped by a call. -/
theorem unmapped_before {frame : PhysFrame .size4KiB}
    {other : Page .size4KiB} {before : T} {supply : FrameAllocator}
    {outcome : MapOutcome T .size4KiB}
    (effect : MapToEffect page frame flags before supply outcome)
    (unmapped : Unmapped outcome.table other) :
    Unmapped before other where
  unused := by
    by_cases same : other = page
    · subst same
      by_cases succeeded : outcome.result = .ok ()
      · exact (effect.mapped succeeded).1
      · rw [← effect.targetKept succeeded]
        exact unmapped.unused
    · rw [← effect.sameSizeKept other same]
      exact unmapped.unused
  noHugeParent := by
    intro larger hugeFrame hugeFlags grows huge
    obtain ⟨new, kept, _⟩ := effect.leaf_kept huge
    exact unmapped.noHugeParent larger hugeFrame new grows kept

/-- An index below all that have been given out is a new one. -/
theorem update_distinct {α : Type} [DecidableEq α] {index : α → Nat} {head : α}
    {tail : List α} {low : Nat} (above : ∀ other ∈ tail, low < index other)
    (distinct :
      ∀ left ∈ tail, ∀ right ∈ tail, index left = index right → left = right) :
    ∀ left ∈ head :: tail, ∀ right ∈ head :: tail,
      Function.update index head low left =
          Function.update index head low right →
        left = right := by
  have later :
      ∀ other ∈ head :: tail, other ≠ head → other ∈ tail := by
    intro other member different
    exact (List.mem_cons.mp member).resolve_left different
  intro left leftMember right rightMember same
  by_cases leftHead : left = head
  · by_cases rightHead : right = head
    · rw [leftHead, rightHead]
    · have bound := above right (later right rightMember rightHead)
      rw [leftHead, Function.update_self,
        Function.update_of_ne rightHead] at same
      omega
  · have leftLater := later left leftMember leftHead
    rw [Function.update_of_ne leftHead] at same
    by_cases rightHead : right = head
    · have bound := above left leftLater
      rw [rightHead, Function.update_self] at same
      omega
    · rw [Function.update_of_ne rightHead] at same
      exact distinct left leftLater right
        (later right rightMember rightHead) same

/-- Unmapped pages get frames of their own when no table is missing. -/
theorem mapHeapPages_maps (present : flags.present = true)
    (nodup : (front ++ back).Nodup)
    (unmapped : ∀ page ∈ front, Unmapped state.table page)
    (supplied : TablesSupplied flags front state.table state.allocator)
    (returned :
      (mapHeapPages flags (front ++ back)).run state = .ok (.ok ()) final) :
    ∃ index : Page .size4KiB → Nat,
      (∀ page ∈ front,
        state.allocator.drawn ≤ index page ∧
          index page < final.allocator.drawn ∧
          ∃ frame, state.allocator.answers (index page) = some frame ∧
            entry final.table .size4KiB page = .leaf frame flags) ∧
      ∀ page ∈ front, ∀ other ∈ front,
        index page = index other → page = other := by
  induction front generalizing state with
  | nil => exact ⟨fun _ => 0, by simp, by simp⟩
  | cons page front inductionHypothesis =>
      rw [List.cons_append] at returned nodup
      rw [mapHeapPages_cons_ok] at returned
      obtain ⟨frame, drawn, rest⟩ := returned
      rw [List.nodup_cons] at nodup
      obtain ⟨notDry, restSupplied⟩ := supplied frame drawn
      have effect := turn_effect present page frame state
      have succeeded :=
        effect.ok_of_unmapped (unmapped page List.mem_cons_self) notDry
      have restUnmapped :
          ∀ other ∈ front,
            Unmapped (state.drawn.mapped flags page frame).table other := by
        intro other member
        apply effect.unmapped_kept
          (unmapped other (List.mem_cons_of_mem page member))
        rw [apart_iff_ne]
        rintro rfl
        exact nodup.1 (List.mem_append_left back member)
      obtain ⟨index, maps, distinct⟩ :=
        inductionHypothesis nodup.2 restUnmapped restSupplied rest
      have advances :=
        (drawn_advances state).trans effect.advances
      have restAdvances := mapHeapPages_advances present rest
      have behind :
          state.allocator.drawn <
            (state.drawn.mapped flags page frame).allocator.drawn :=
        effect.advances.drawn_le
      refine ⟨Function.update index page state.allocator.drawn, ?_, ?_⟩
      · intro other member
        by_cases same : other = page
        · subst same
          rw [Function.update_self]
          refine ⟨Nat.le_refl _,
            Nat.lt_of_lt_of_le behind restAdvances.drawn_le, frame, drawn, ?_⟩
          rw [mapHeapPages_others_kept present rest nodup.1]
          exact (effect.mapped succeeded).2
        · rw [Function.update_of_ne same]
          rcases List.mem_cons.mp member with isHead | later
          · exact absurd isHead same
          · obtain ⟨lower, upper, held, given, leaf⟩ := maps other later
            refine ⟨Nat.le_trans (Nat.le_of_lt behind) lower, upper, held, ?_,
              leaf⟩
            rw [← advances.answers_eq]
            exact given
      · apply update_distinct _ distinct
        intro other member
        exact Nat.lt_of_lt_of_le behind (maps other member).1

/-- A page whose entry has changed was unmapped, and its turn was supplied
with tables. -/
theorem mapHeapPages_unmapped (present : flags.present = true)
    (nodup : (front ++ back).Nodup)
    (changed :
      ∀ page ∈ front,
        entry final.table .size4KiB page ≠ entry state.table .size4KiB page)
    (returned :
      (mapHeapPages flags (front ++ back)).run state = .ok (.ok ()) final) :
    (∀ page ∈ front, Unmapped state.table page) ∧
      TablesSupplied flags front state.table state.allocator := by
  induction front generalizing state with
  | nil => exact ⟨by simp, trivial⟩
  | cons page front inductionHypothesis =>
      rw [List.cons_append] at returned nodup
      rw [mapHeapPages_cons_ok] at returned
      obtain ⟨frame, drawn, rest⟩ := returned
      rw [List.nodup_cons] at nodup
      have effect := turn_effect present page frame state
      have headChanged := changed page List.mem_cons_self
      rw [mapHeapPages_others_kept present rest nodup.1] at headChanged
      have canMap :
          CanMap page frame flags state.table state.drawn.allocator := by
        rw [← mapTo_eq_ok_iff present]
        by_contra failed
        exact headChanged (effect.targetKept failed)
      have different : ∀ other ∈ front, other ≠ page := by
        rintro other member rfl
        exact nodup.1 (List.mem_append_left back member)
      have restChanged :
          ∀ other ∈ front,
            entry final.table .size4KiB other ≠
              entry (state.drawn.mapped flags page frame).table
                .size4KiB other := by
        intro other member
        have kept := effect.sameSizeKept other (different other member)
        have was := changed other (List.mem_cons_of_mem page member)
        rw [← kept] at was
        exact was
      obtain ⟨restUnmapped, restSupplied⟩ :=
        inductionHypothesis nodup.2 restChanged rest
      constructor
      · intro other member
        rcases List.mem_cons.mp member with rfl | later
        · exact canMap.unmapped
        · exact unmapped_before effect (restUnmapped other later)
      · intro given answered
        rw [drawn] at answered
        cases answered
        exact ⟨canMap.supplied, restSupplied⟩

/-- A page that was mapped keeps its frame. -/
theorem mapHeapPages_leaf_kept (present : flags.present = true)
    (returned : (mapHeapPages flags pages).run state = .ok (.ok ()) final)
    {held : PhysFrame .size4KiB} {old : PageTableFlags}
    (leaf : entry state.table .size4KiB page = .leaf held old) :
    ∃ new, entry final.table .size4KiB page = .leaf held new := by
  induction pages generalizing state old with
  | nil =>
      rw [mapHeapPages_nil_ok] at returned
      rw [← returned]
      exact ⟨old, leaf⟩
  | cons head pages inductionHypothesis =>
      rw [mapHeapPages_cons_ok] at returned
      obtain ⟨frame, _, rest⟩ := returned
      obtain ⟨new, kept, _⟩ :=
        (turn_effect present head frame state).leaf_kept leaf
      exact inductionHypothesis rest kept

/-- With frames throughout, the loop ends well. -/
theorem mapHeapPages_returns (present : flags.present = true)
    (supplied : Supplied state.allocator) :
    ∃ final, (mapHeapPages flags pages).run state = .ok (.ok ()) final := by
  induction pages generalizing state with
  | nil => exact ⟨state, mapHeapPages_nil_ok.mpr rfl⟩
  | cons page pages inductionHypothesis =>
      have some := supplied state.allocator.drawn (Nat.le_refl _)
      obtain ⟨frame, drawn⟩ := Option.ne_none_iff_exists'.mp some
      have effect := turn_effect present page frame state
      have next :
          Supplied (state.drawn.mapped flags page frame).allocator :=
        supplied.later ((drawn_advances state).trans effect.advances)
      obtain ⟨final, rest⟩ := inductionHypothesis next
      exact ⟨final, mapHeapPages_cons_ok.mpr ⟨frame, drawn, rest⟩⟩

end Loop

/-! ## What the heap gets -/

section Heap

variable {T : Type} [Mapper T]

/-- The frames that the allocator gives out are unique and unused, as the
contract of `FrameAllocator` demands. -/
structure UnusedFrames (table : T) (allocator : FrameAllocator) : Prop where
  unique :
    ∀ left right frame, allocator.drawn ≤ left → allocator.drawn ≤ right →
      allocator.answers left = some frame →
        allocator.answers right = some frame → left = right
  unused :
    ∀ index frame, allocator.drawn ≤ index →
      allocator.answers index = some frame →
        ∀ (page : Page .size4KiB) flags,
          entry table .size4KiB page ≠ .leaf frame flags

/-- Every page of the heap is mapped writable to a frame of its own that the
call has allocated. -/
structure HeapMapped (offset : Nat) (before after : HeapMachine T) : Prop where
  mapped :
    ∀ page ∈ heapPages offset, ∃ frame flags,
      entry after.table .size4KiB page = .leaf frame flags ∧
        flags.writable = true ∧
        before.allocator.Answered after.allocator (some frame)
  distinct :
    ∀ page ∈ heapPages offset, ∀ other ∈ heapPages offset,
      ∀ frame flags otherFlags,
        entry after.table .size4KiB page = .leaf frame flags →
          entry after.table .size4KiB other = .leaf frame otherFlags →
            page = other

/-- No page of the heap is mapped or lies in a huge page, and the allocator
does not turn down a request for one of its tables. -/
def HeapFree (offset : Nat) (user : Bool) (state : HeapMachine T) : Prop :=
  (∀ page ∈ heapPages offset, Unmapped state.table page) ∧
    TablesSupplied (heapFlags user) (heapPages offset) state.table
      state.allocator

variable {offset : Nat} {user : Bool} {state final : HeapMachine T}

omit [Mapper T] in
/-- Handing over the heap leaves the mappings. -/
theorem handHeap_run_ok {answer : Except (MapToError .size4KiB) Unit}
    (returned : (handHeap offset answer).run state = .ok (.ok ()) final) :
    answer = .ok () ∧ final.table = state.table ∧
      final.allocator = state.allocator := by
  cases answer with
  | error reason =>
      rw [handHeap, pure_run_ok] at returned
      cases returned.1
  | ok value =>
      rw [handHeap] at returned
      generalize checkedAdd heapStart offset = added at returned
      cases added with
      | error fault => cases returned
      | ok start =>
          rw [bind_run_of_ok _ (ofExcept_run (.ok start) state),
            bind_run_of_ok _ (modify_run _ _), pure_run_ok] at returned
          rw [← returned.2]
          exact ⟨rfl, rfl, rfl⟩

/-- A call that returns `Ok` is its loop, over the pages of the heap and
others. -/
theorem initHeapNew_loop
    (returned : (initHeapNew offset user).run state = .ok (.ok ()) final) :
    ∃ others middle,
      heapRange offset = .ok (heapPages offset ++ others) ∧
        (heapPages offset ++ others).Nodup ∧
        (mapHeapPages (heapFlags user) (heapPages offset ++ others)).run
            state = .ok (.ok ()) middle ∧
        final.table = middle.table ∧ final.allocator = middle.allocator := by
  rw [initHeapNew, bind_run_ok] at returned
  obtain ⟨pages, _, formed, returned⟩ := returned
  rw [ofExcept_run_ok] at formed
  obtain ⟨formed, rfl⟩ := formed
  obtain ⟨nodup, others, rfl⟩ := heapRange_eq_ok formed
  rw [bind_run_ok] at returned
  obtain ⟨answer, middle, looped, handed⟩ := returned
  obtain ⟨rfl, tableEq, allocatorEq⟩ := handHeap_run_ok handed
  exact ⟨others, middle, formed, nodup, looped, tableEq, allocatorEq⟩

/-- An `Ok` keeps its promise exactly when the heap was free and no table was
missing. -/
theorem initHeapNew_maps_heap_iff [ReportingMapper T]
    (unusedFrames : UnusedFrames state.table state.allocator)
    (returned : (initHeapNew offset user).run state = .ok (.ok ()) final) :
    HeapMapped offset state final ↔ HeapFree offset user state := by
  obtain ⟨others, middle, _, nodup, looped, tableEq, allocatorEq⟩ :=
    initHeapNew_loop returned
  constructor
  · intro heapMapped
    have changed :
        ∀ page ∈ heapPages offset,
          entry middle.table .size4KiB page ≠
            entry state.table .size4KiB page := by
      intro page member same
      obtain ⟨frame, flags, leaf, _, index, lower, _, given⟩ :=
        heapMapped.mapped page member
      rw [tableEq, same] at leaf
      exact unusedFrames.unused index frame lower given page flags leaf
    obtain ⟨unmapped, supplied⟩ :=
      mapHeapPages_unmapped rfl nodup changed looped
    exact ⟨unmapped, supplied⟩
  · intro free
    obtain ⟨index, maps, injective⟩ :=
      mapHeapPages_maps rfl nodup free.1 free.2
        looped
    constructor
    · intro page member
      obtain ⟨lower, upper, frame, given, leaf⟩ := maps page member
      refine ⟨frame, heapFlags user, ?_, rfl, index page, lower, ?_, given⟩
      · rw [tableEq]
        exact leaf
      · rw [allocatorEq]
        exact upper
    · intro page member other otherMember frame flags otherFlags leaf otherLeaf
      obtain ⟨lower, _, held, given, heldLeaf⟩ := maps page member
      obtain ⟨otherLower, _, otherHeld, otherGiven, otherHeldLeaf⟩ :=
        maps other otherMember
      rw [tableEq, heldLeaf] at leaf
      rw [tableEq, otherHeldLeaf] at otherLeaf
      cases leaf
      cases otherLeaf
      exact injective page member other otherMember
        (unusedFrames.unique _ _ _ lower otherLower given otherGiven)

/-- With frames throughout, the call returns `Ok`. -/
theorem initHeapNew_returns [ReportingMapper T]
    {pages : List (Page .size4KiB)} (formed : heapRange offset = .ok pages)
    (fits : heapStart + offset < wordSize)
    (supplied : Supplied state.allocator) :
    ∃ final, (initHeapNew offset user).run state = .ok (.ok ()) final := by
  have looping :
      ∃ final,
        (mapHeapPages (heapFlags user) pages).run state =
          .ok (.ok ()) final :=
    mapHeapPages_returns rfl supplied
  obtain ⟨middle, looped⟩ := looping
  have started :
      checkedAdd heapStart offset = .ok (heapStart + offset) :=
    checkedAdd_eq_ok.mpr ⟨fits, rfl⟩
  refine ⟨{ middle with handed := some (heapStart + offset, heapSize) }, ?_⟩
  rw [initHeapNew, formed, bind_run_of_ok _ (ofExcept_run (.ok _) state),
    bind_run_of_ok _ looped, handHeap, started,
    bind_run_of_ok _ (ofExcept_run (.ok _) middle)]
  rfl

end Heap

/-! ## A heap that is free and one that is not -/

theorem heapRange_zero : ∃ pages, heapRange 0 = .ok pages :=
  except_eq_ok_of_isOk (by decide)

def freshHeap : HeapMachine RadixTable :=
  ⟨RadixTable.new ⟨0x800⟩, ⟨fun index => some ⟨0x1000 + index⟩, 0⟩, none⟩

theorem freshHeap_unusedFrames :
    UnusedFrames freshHeap.table freshHeap.allocator where
  unique := by
    intro left right frame _ _ leftGiven rightGiven
    have same := Option.some.inj (leftGiven.trans rightGiven.symm)
    have numbers := PhysFrame.mk.inj same
    omega
  unused := by
    intro index frame _ _ page flags leaf
    have empty : entry freshHeap.table .size4KiB page = .unused :=
      RadixTable.new_empty _ _ page
    rw [empty] at leaf
    cases leaf

theorem initHeapNew_maps_heap_fresh :
    ∃ final, (initHeapNew 0 false).run freshHeap = .ok (.ok ()) final ∧
      (HeapMapped 0 freshHeap final ↔ HeapFree 0 false freshHeap) := by
  obtain ⟨pages, formed⟩ := heapRange_zero
  have returns :
      ∃ final, (initHeapNew 0 false).run freshHeap = .ok (.ok ()) final :=
    initHeapNew_returns formed (by decide) fun index _ => by simp [freshHeap]
  obtain ⟨final, returned⟩ := returns
  exact ⟨final, returned,
    initHeapNew_maps_heap_iff freshHeap_unusedFrames returned⟩

def firstHeapPage : Page .size4KiB := ⟨heapStart / 4096⟩

/-- The first page of the heap has been mapped to a frame of its own. -/
def takenHeap : HeapMachine RadixTable :=
  freshHeap.mapped ⟨true, true, false⟩ firstHeapPage ⟨9⟩

theorem takenHeap_leaf :
    entry takenHeap.table .size4KiB firstHeapPage =
      .leaf ⟨9⟩ ⟨true, true, false⟩ := by
  have effect :=
    LawfulMapper.mapTo_effect freshHeap.table freshHeap.allocator firstHeapPage
      ⟨9⟩ ⟨true, true, false⟩ rfl
  have notOut :
      ¬ freshHeap.allocator.Answered
        (mapTo firstHeapPage ⟨9⟩ ⟨true, true, false⟩ freshHeap.table
          freshHeap.allocator).allocator none :=
    Supplied.not_out fun index _ => by simp [freshHeap]
  exact
    (effect.mapped
      (effect.ok_of_unmapped
        (unmapped_of_empty (RadixTable.new_empty _) _) notOut)).2

/-- The heap begins with a page that the call has not mapped. -/
theorem initHeapNew_keeps_taken_page :
    ∃ final, (initHeapNew 0 false).run takenHeap = .ok (.ok ()) final ∧
      ¬ HeapMapped 0 takenHeap final := by
  obtain ⟨pages, formed⟩ := heapRange_zero
  have advances :=
    (LawfulMapper.mapTo_effect freshHeap.table freshHeap.allocator firstHeapPage
      ⟨9⟩ ⟨true, true, false⟩ rfl).advances
  have answers :
      ∀ index, takenHeap.allocator.answers index = some ⟨0x1000 + index⟩ := by
    intro index
    exact congrFun advances.answers_eq index
  have returns :
      ∃ final, (initHeapNew 0 false).run takenHeap = .ok (.ok ()) final :=
    initHeapNew_returns formed (by decide) fun index _ => by simp [answers]
  obtain ⟨final, returned⟩ := returns
  refine ⟨final, returned, ?_⟩
  intro heapMapped
  obtain ⟨others, middle, _, _, looped, tableEq, _⟩ := initHeapNew_loop returned
  obtain ⟨new, kept⟩ := mapHeapPages_leaf_kept rfl looped takenHeap_leaf
  have inHeap : firstHeapPage ∈ heapPages 0 :=
    mem_heapPages.mpr ⟨heapStart, by simp, by decide, rfl⟩
  obtain ⟨frame, flags, leaf, _, index, _, _, given⟩ :=
    heapMapped.mapped firstHeapPage inHeap
  rw [tableEq, kept] at leaf
  cases leaf
  rw [answers] at given
  have numbers := PhysFrame.mk.inj (Option.some.inj given)
  omega

end RustKernel.Kernel
