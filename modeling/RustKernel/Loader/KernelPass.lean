import RustKernel.Loader.Setup

/-!
# The kernel pass of `from_elf`

`from_elf` maps every page of the kernel's `Load` segments to the frame that
the active table has for it.  The pass has no tolerance: a page that the
active table does not translate, or that the new table maps already, ends the
call.
-/

namespace RustKernel.Loader

open RustKernel.Foundations
open RustKernel.Machine
open RustKernel.Memory
open RustKernel.Paging

/-- The pages of the kernel pass, in order. -/
def kernelPages (kernel : ElfFile) : List (Page .size4KiB) :=
  kernel.loadHeaders.flatMap ProgramHeader.pages

section KernelPass

variable {T C : Type} [Mapper T] [Mapper C]
variable {kernel : ElfFile} {state final : Machine T C}

/-- The kernel pass is a run over its pages. -/
theorem mapKernel_run
    (readable : kernel.Readable)
    (ranges :
      ∀ header ∈ kernel.loadHeaders, header.segmentPages = .ok header.pages)
    (state : Machine T C) :
    (mapKernel kernel).run state =
      ((kernelPages kernel).forM mapKernelPage).run state := by
  unfold mapKernel kernelPages
  rw [forLoadSegments_run_of_readable readable, ← forM_flatMap_run]
  apply forM_run_congr
  intro header member middle
  unfold mapKernelSegment
  rw [ranges header member]
  rfl

theorem mapKernel_run_ok {result : Unit}
    (returned : (mapKernel kernel).run state = .ok result final) :
    kernel.Readable ∧
      (∀ header ∈ kernel.loadHeaders,
        header.segmentPages = .ok header.pages) ∧
      ((kernelPages kernel).forM mapKernelPage).run state =
        .ok result final := by
  obtain ⟨readable, looped⟩ := forLoadSegments_run_ok returned
  have ranges :
      ∀ header ∈ kernel.loadHeaders,
        header.segmentPages = .ok header.pages := by
    intro header member
    obtain ⟨front, back, listed⟩ := List.append_of_mem member
    rw [listed, forM_append_run_ok] at looped
    obtain ⟨before, _, looped⟩ := looped
    rw [forM_cons_run_ok] at looped
    obtain ⟨after, taken, _⟩ := looped
    unfold mapKernelSegment at taken
    rw [bind_run_ok] at taken
    obtain ⟨pages, _, computed, _⟩ := taken
    rw [ofExcept_run_ok] at computed
    rw [computed.1, ProgramHeader.segmentPages_eq_ok computed.1]
  refine ⟨readable, ranges, ?_⟩
  rw [← mapKernel_run readable ranges]
  exact returned

theorem mapKernelPage_run
    (page : Page .size4KiB) (state : Machine T C) :
    (mapKernelPage page).run state =
      match translatePage state.current page with
      | some frame => (mapOrPanic .unwrap page frame presentWritable).run state
      | none => .error (.message "Unable to map kernel pages!") state := by
  unfold mapKernelPage
  rw [bind_run_of_ok _ (get_run state)]
  cases translatePage state.current page with
  | some frame => rfl
  | none => rfl

/-- A returning turn has mapped its page to the frame of the active table. -/
theorem mapKernelPage_run_ok {page : Page .size4KiB} {result : Unit} :
    (mapKernelPage page).run state = .ok result final ↔
      ∃ frame,
        translatePage state.current page = some frame ∧
        (mapTo page frame presentWritable state.table
          state.allocator).result = .ok () ∧
        final = state.mapped page frame presentWritable := by
  rw [mapKernelPage_run]
  cases translatePage state.current page with
  | none => simp
  | some frame =>
      simp only [Option.some.injEq, exists_eq_left']
      exact mapOrPanic_run_ok

omit [Mapper C] in
theorem Machine.mapped_current {size : PageSize} (page : Page size)
    (frame : PhysFrame size) (flags : PageTableFlags)
    (state : Machine T C) :
    (state.mapped page frame flags).current = state.current := rfl

variable [LawfulMapper T]
/-- A turn that returns changes no mapping. -/
theorem leaf_mapKernelPage {page : Page .size4KiB} {result : Unit}
    {size : PageSize} {other : Page size} {held : PhysFrame size}
    {flags : PageTableFlags}
    (leaf : entry state.table size other = .leaf held flags)
    (returned : (mapKernelPage page).run state = .ok result final) :
    entry final.table size other = .leaf held flags := by
  obtain ⟨frame, _, succeeded, rfl⟩ := mapKernelPage_run_ok.mp returned
  have effect :=
    LawfulMapper.mapTo_effect state.table state.allocator page frame
      presentWritable rfl
  obtain ⟨new, kept, same⟩ := effect.leaf_kept leaf
  rw [← same (by rw [succeeded]; simp)]
  exact kept

variable {condition : LeafCondition} {start : FrameAllocator}

theorem leavesIn_mapKernel {result : Unit}
    (target :
      ∀ allocator, ∀ page ∈ kernelPages kernel, ∀ frame,
        translatePage state.current page = some frame →
          condition.Holds allocator .size4KiB page frame presentWritable)
    (leaves : LeavesIn condition start state)
    (returned : (mapKernel kernel).run state = .ok result final) :
    LeavesIn condition start final := by
  obtain ⟨_, _, looped⟩ := mapKernel_run_ok returned
  have kept :
      LeavesIn condition start final ∧ final.current = state.current := by
    apply forM_invariant
      (fun middle =>
        LeavesIn condition start middle ∧ middle.current = state.current)
      _ ⟨leaves, rfl⟩ looped
    rintro page member before after ⟨leaves, same⟩ turned
    obtain ⟨frame, translated, succeeded, rfl⟩ := mapKernelPage_run_ok.mp turned
    refine ⟨?_, same⟩
    rw [same] at translated
    apply leaves.mapped rfl fun _ => target _ page member frame translated
    intro failed
    rw [succeeded] at failed
    cases failed
  exact kept.1

theorem onPages_mapKernel {pages : List AnyPage} {result : Unit}
    (leaves : LeavesIn (onPages pages) start state)
    (returned : (mapKernel kernel).run state = .ok result final) :
    LeavesIn (onPages (pages ++ (kernelPages kernel).map smallPage)) start
      final := by
  apply leavesIn_mapKernel _ (leaves.mono _) returned
  · intro _ page member _ _
    exact List.mem_append_right _ (List.mem_map_of_mem member)
  · intro _ _ _ _ _ member
    exact List.mem_append_left _ member

/-- A returning pass has mapped its pages to the frames of the active
table. -/
theorem mapKernel_maps {result : Unit}
    (returned : (mapKernel kernel).run state = .ok result final) :
    ∀ page ∈ kernelPages kernel, ∃ frame,
      translatePage state.current page = some frame ∧
        entry final.table .size4KiB page = .leaf frame presentWritable := by
  obtain ⟨_, _, looped⟩ := mapKernel_run_ok returned
  intro page member
  obtain ⟨front, back, listed⟩ := List.append_of_mem member
  rw [listed, forM_append_run_ok] at looped
  obtain ⟨before, begun, looped⟩ := looped
  rw [forM_cons_run_ok] at looped
  obtain ⟨after, turned, ended⟩ := looped
  have same : SameCurrent state before :=
    (Preserves.forM fun earlier _ =>
      preserves_mapKernelPage earlier).of_run_ok begun
  obtain ⟨frame, translated, succeeded, rfl⟩ := mapKernelPage_run_ok.mp turned
  have effect :=
    LawfulMapper.mapTo_effect before.table before.allocator page frame
      presentWritable rfl
  rw [same] at translated
  refine ⟨frame, translated, ?_⟩
  apply forM_invariant
    (fun middle =>
      entry middle.table .size4KiB page = .leaf frame presentWritable)
    _ (effect.mapped succeeded).2 ended
  intro later _ start next leaf turned
  exact leaf_mapKernelPage leaf turned

variable [LawfulMapper C]

/-- The kernel pass returns when its pages are free and the active table
translates them. -/
theorem completes_mapKernel {rest : List AnyPage}
    (readable : kernel.Readable)
    (ranges :
      ∀ header ∈ kernel.loadHeaders, header.segmentPages = .ok header.pages)
    (translates :
      ∀ page ∈ kernelPages kernel,
        ∃ frame, translatePage state.current page = some frame)
    (free : Free state ((kernelPages kernel).map smallPage ++ rest)) :
    Completes (mapKernel kernel) state rest := by
  unfold Completes
  rw [mapKernel_run readable ranges]
  refine Or.imp ?returns id
    (forM_returns
      (fun remaining (middle : Machine T C) =>
        Free middle (remaining.map smallPage ++ rest) ∧
          remaining ⊆ kernelPages kernel ∧
          middle.current = state.current ∧
          state.allocator.Advances middle.allocator)
      (fun final => state.allocator.Answered final.allocator none)
      ?step
      ⟨free, List.Subset.refl _, rfl, FrameAllocator.Advances.refl _⟩)
  case returns =>
    rintro ⟨final, returned, freeRest, _⟩
    exact ⟨final, returned, freeRest⟩
  case step =>
    rintro page remaining middle ⟨freeNow, listed, same, advances⟩
    obtain ⟨frame, found⟩ := translates page (listed List.mem_cons_self)
    have mapping :
        Completes (mapOrPanic .unwrap page frame presentWritable) middle
          (remaining.map smallPage ++ rest) :=
      completes_mapOrPanic freeNow .unwrap frame rfl
    have related :
        Grows middle (finalState
          ((mapOrPanic .unwrap page frame presentWritable).run middle)) :=
      preserves_mapOrPanic .unwrap page frame rfl middle
    rw [mapKernelPage_run, same, found]
    rcases mapping with ⟨next, returned, freeNext⟩ | ⟨fault, next, stopped, out⟩
    · rw [returned] at related
      refine Or.inl ⟨next, returned, freeNext,
        (List.cons_subset.mp listed).2, ?_, advances.trans related.advances⟩
      rw [(mapOrPanic_run_ok.mp returned).2, Machine.mapped_current, same]
    · exact Or.inr ⟨fault, next, stopped, out.later advances⟩

end KernelPass

end RustKernel.Loader
