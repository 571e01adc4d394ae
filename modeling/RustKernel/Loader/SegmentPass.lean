import RustKernel.Loader.Setup

/-!
# The segment pass of both loaders

Each turn of the pass draws a frame, copies into it and calls `map_to`.
`kernel_from_elf` drops the answer of `map_to`; `from_elf` goes on over a page
that is mapped already and panics otherwise.  What a turn does to the table is
said once, by `copyTurn_effect`.
-/

namespace RustKernel.Loader

open RustKernel.Foundations
open RustKernel.Machine
open RustKernel.Memory
open RustKernel.Paging

variable {T C : Type} [Mapper T] [Mapper C]
variable {elf : ElfFile} {afterMap : AfterMap} {turn : Turn}
variable {frame : PhysFrame .size4KiB} {state before after final : Machine T C}
variable {result : Unit}

theorem preserves_copyTurn {R : Machine T C → Machine T C → Prop}
    [LoaderRelation R]
    (copies :
      ∀ frame, ∀ bytes : List UInt8, bytes.length ≤ turn.length →
        ∀ state, R state (state.copied turn.header turn.page frame bytes)) :
    Preserves R (copyTurn elf afterMap turn) := by
  refine Preserves.bind (preserves_copyPage copies) ?_
  intro _
  exact Preserves.pure ()

/-! ## What a turn does to the table -/

section Table

variable [LawfulMapper T]

theorem Turn.outcome_effect (elf : ElfFile) (turn : Turn)
    (frame : PhysFrame .size4KiB) (state : Machine T C) :
    MapToEffect turn.page frame presentWritableUser state.table
      (turn.ready elf frame state).allocator
      (turn.outcome elf frame state) :=
  LawfulMapper.mapTo_effect state.table _ turn.page frame presentWritableUser
    rfl

/-- A turn that returns is a call of `map_to` that is tolerated. -/
theorem copyTurn_effect
    (loadable : Loadable elf) (member : turn ∈ turns elf)
    (turned : (copyTurn elf afterMap turn).run before = .ok result after) :
    ∃ frame,
      before.allocator.answers before.allocator.drawn = some frame ∧
      after = turn.taken elf frame before ∧
      afterMap (turn.outcome elf frame before).result = .ok () ∧
      MapToEffect turn.page frame presentWritableUser before.table
        (turn.ready elf frame before).allocator
        (turn.outcome elf frame before) := by
  obtain ⟨frame, answer, accepted, rfl⟩ :=
    (copyTurn_run_ok (loadable.inFile member)).mp turned
  exact ⟨frame, answer, rfl, accepted, turn.outcome_effect elf frame before⟩

/-- A page of another turn stays unmapped. -/
theorem unmapped_turns {list : List Turn} {page : Page .size4KiB}
    (loadable : Loadable elf) (listed : list ⊆ turns elf)
    (different : ∀ turn ∈ list, turn.page ≠ page)
    (unmapped : Unmapped state.table page)
    (returned :
      (list.forM (copyTurn elf afterMap)).run state = .ok result final) :
    Unmapped final.table page := by
  apply forM_invariant (fun middle => Unmapped middle.table page) _ unmapped
    returned
  intro turn member before after unmapped turned
  obtain ⟨frame, _, rfl, _, effect⟩ :=
    copyTurn_effect loadable (listed member) turned
  exact effect.unmapped_kept unmapped
    (apart_iff_ne.mpr (different turn member))

/-- Turns on other pages leave the entry of a page as it is. -/
theorem entry_turns {list : List Turn} {page : Page .size4KiB}
    (loadable : Loadable elf) (listed : list ⊆ turns elf)
    (different : ∀ turn ∈ list, turn.page ≠ page)
    (returned :
      (list.forM (copyTurn elf afterMap)).run state = .ok result final) :
    entry final.table .size4KiB page = entry state.table .size4KiB page := by
  apply forM_invariant
    (fun middle =>
      entry middle.table .size4KiB page = entry state.table .size4KiB page)
    _ rfl returned
  intro turn member before after same turned
  obtain ⟨frame, _, rfl, _, effect⟩ :=
    copyTurn_effect loadable (listed member) turned
  rw [← same]
  exact effect.sameSizeKept page (different turn member).symm

theorem noHugeParent_turns {list : List Turn} {page : Page .size4KiB}
    (loadable : Loadable elf) (listed : list ⊆ turns elf)
    (noHugeParent : NoHugeParent state.table page)
    (returned :
      (list.forM (copyTurn elf afterMap)).run state = .ok result final) :
    NoHugeParent final.table page := by
  apply forM_invariant (fun middle => NoHugeParent middle.table page) _
    noHugeParent returned
  intro turn member before after noHugeParent turned
  obtain ⟨frame, _, rfl, _, effect⟩ :=
    copyTurn_effect loadable (listed member) turned
  exact effect.noHugeParent_kept (Nat.le_refl _) noHugeParent

theorem notHuge_of_tolerated {answer : Except (MapToError .size4KiB) Unit}
    (accepted : tolerateMapped answer = .ok ()) :
    answer ≠ .error .parentEntryHugePage := by
  rintro rfl
  cases accepted

/-- The pass of `from_elf` changes no mapping that it finds. -/
theorem leaf_loadSegments
    {size : PageSize} {page : Page size} {held : PhysFrame size}
    {flags : PageTableFlags}
    (leaf : entry state.table size page = .leaf held flags)
    (returned :
      (loadSegments elf tolerateMapped).run state = .ok result final) :
    entry final.table size page = .leaf held flags := by
  have loadable := loadable_of_run_ok returned
  apply forM_invariant
    (fun middle => entry middle.table size page = .leaf held flags)
    _ leaf (turns_run_ok returned)
  intro turn member before after leaf turned
  obtain ⟨frame, _, rfl, accepted, effect⟩ :=
    copyTurn_effect loadable member turned
  obtain ⟨new, kept, same⟩ := effect.leaf_kept leaf
  rw [← same (notHuge_of_tolerated accepted)]
  exact kept

end Table

/-! ## Growth over turns -/

section Growth

variable [LawfulMapper T] [LawfulMapper C]

theorem grows_copyTurn (elf : ElfFile) (afterMap : AfterMap) (turn : Turn) :
    Preserves (Grows (T := T) (C := C)) (copyTurn elf afterMap turn) :=
  preserves_copyTurn fun frame bytes _ state =>
    grows_copied turn.header turn.page frame bytes state

theorem grows_turns (elf : ElfFile) (afterMap : AfterMap)
    (list : List Turn) :
    Preserves (Grows (T := T) (C := C))
      (list.forM (copyTurn elf afterMap)) :=
  Preserves.forM fun turn _ => grows_copyTurn elf afterMap turn

theorem Turn.grows_ready (elf : ElfFile) (turn : Turn)
    (frame : PhysFrame .size4KiB) (state : Machine T C) :
    Grows state.drawFrame (turn.ready elf frame state) := by
  have identity :
      Grows state.drawFrame (state.drawFrame.identityMapped frame) :=
    LoaderRelation.identityMapped frame _
  exact identity.trans (grows_copied turn.header turn.page frame _ _)

theorem Turn.advances_ready (elf : ElfFile) (turn : Turn)
    (frame : PhysFrame .size4KiB) (state : Machine T C) :
    state.allocator.Advances (turn.ready elf frame state).allocator :=
  (advances_drawFrame state).trans (turn.grows_ready elf frame state).advances

theorem Turn.grows_taken (elf : ElfFile) (turn : Turn)
    (frame : PhysFrame .size4KiB) (state : Machine T C) :
    Grows state.drawFrame (turn.taken elf frame state) := by
  have mapping :
      Grows (turn.ready elf frame state) (turn.taken elf frame state) :=
    PassRelation.mapped turn.page frame presentWritableUser rfl _
  exact (turn.grows_ready elf frame state).trans mapping

/-- The frame of a turn has been answered when the turn maps it. -/
theorem Turn.answered_ready (elf : ElfFile) (turn : Turn)
    (answer : state.allocator.answers state.allocator.drawn = some frame) :
    state.allocator.Answered (turn.ready elf frame state).allocator
      (some frame) :=
  (answered_drawFrame answer).earlier
    (turn.grows_ready elf frame state).advances

/-- An unmapped page is mapped by its turn, to the frame of the turn. -/
theorem mapped_copyTurn
    (loadable : Loadable elf) (member : turn ∈ turns elf)
    (unmapped : Unmapped before.table turn.page)
    (neverOut : ¬ before.allocator.Answered after.allocator none)
    (turned : (copyTurn elf afterMap turn).run before = .ok result after) :
    ∃ frame,
      before.allocator.answers before.allocator.drawn = some frame ∧
      after = turn.taken elf frame before ∧
      entry after.table .size4KiB turn.page =
        .leaf frame presentWritableUser := by
  obtain ⟨frame, answer, rfl, _, effect⟩ :=
    copyTurn_effect loadable member turned
  refine ⟨frame, answer, rfl, ?_⟩
  have succeeded :=
    effect.ok_of_unmapped unmapped fun out =>
      neverOut (out.later (turn.advances_ready elf frame before))
  exact (effect.mapped succeeded).2

/-- The first turn of a page that is not mapped yet decides what the page
maps. -/
theorem first_turn_maps {front back : List Turn}
    (returned : (loadSegments elf afterMap).run state = .ok () final)
    (neverOut : ¬ state.allocator.Answered final.allocator none)
    (listed : turns elf = front ++ turn :: back)
    (first : ∀ earlier ∈ front, earlier.page ≠ turn.page)
    (unmapped : Unmapped state.table turn.page) :
    ∃ before frame flags,
      (front.forM (copyTurn elf afterMap)).run state = .ok () before ∧
      before.allocator.answers before.allocator.drawn = some frame ∧
      (back.forM (copyTurn elf afterMap)).run (turn.taken elf frame before) =
        .ok () final ∧
      entry final.table .size4KiB turn.page = .leaf frame flags := by
  have loadable := loadable_of_run_ok returned
  have member : turn ∈ turns elf := by simp [listed]
  have frontListed : front ⊆ turns elf := by simp [listed]
  have looped := turns_run_ok returned
  rw [listed, forM_append_run_ok] at looped
  obtain ⟨before, begun, looped⟩ := looped
  rw [forM_cons_run_ok] at looped
  obtain ⟨after, turned, ended⟩ := looped
  have toBefore := (grows_turns elf afterMap front).of_run_ok begun
  have toFinal := (grows_turns elf afterMap back).of_run_ok ended
  have neverOutTurn : ¬ before.allocator.Answered after.allocator none := by
    intro out
    exact neverOut ((out.earlier toFinal.advances).later toBefore.advances)
  obtain ⟨frame, answer, rfl, leaf⟩ :=
    mapped_copyTurn loadable member
      (unmapped_turns loadable frontListed first unmapped begun) neverOutTurn
      turned
  obtain ⟨flags, leaf⟩ := toFinal.leaves _ _ _ _ leaf
  exact ⟨before, frame, flags, begun, answer, ended, leaf⟩

/-- A page outside every huge page is mapped when its turn is over. -/
theorem leaf_copyTurn
    (loadable : Loadable elf) (member : turn ∈ turns elf)
    (noHugeParent : NoHugeParent before.table turn.page)
    (neverOut : ¬ before.allocator.Answered after.allocator none)
    (turned : (copyTurn elf afterMap turn).run before = .ok result after) :
    ∃ frame flags,
      entry after.table .size4KiB turn.page = .leaf frame flags := by
  cases held : entry before.table .size4KiB turn.page with
  | table =>
      exact absurd held (LawfulMapper.small_ne_table before.table turn.page)
  | leaf frame flags =>
      have grown : Grows before after :=
        (grows_copyTurn elf afterMap turn).of_run_ok turned
      obtain ⟨kept, leaf⟩ := grown.leaves _ _ _ _ held
      exact ⟨frame, kept, leaf⟩
  | unused =>
      obtain ⟨frame, _, _, leaf⟩ :=
        mapped_copyTurn loadable member ⟨held, noHugeParent⟩ neverOut
          turned
      exact ⟨frame, presentWritableUser, leaf⟩

/-- The pass maps the page of every turn that is outside every huge page. -/
theorem leaf_of_mem_turns
    (noHugeParent : NoHugeParent state.table turn.page)
    (neverOut : ¬ state.allocator.Answered final.allocator none)
    (member : turn ∈ turns elf)
    (returned :
      (loadSegments elf afterMap).run state = .ok result final) :
    ∃ frame flags,
      entry final.table .size4KiB turn.page = .leaf frame flags := by
  have loadable := loadable_of_run_ok returned
  have looped := turns_run_ok returned
  obtain ⟨front, back, listed⟩ := List.append_of_mem member
  have frontListed : front ⊆ turns elf := by simp [listed]
  rw [listed, forM_append_run_ok] at looped
  obtain ⟨before, begun, looped⟩ := looped
  rw [forM_cons_run_ok] at looped
  obtain ⟨after, turned, ended⟩ := looped
  have toBefore := (grows_turns elf afterMap front).of_run_ok begun
  have toFinal := (grows_turns elf afterMap back).of_run_ok ended
  have neverOutTurn : ¬ before.allocator.Answered after.allocator none := by
    intro out
    exact neverOut ((out.earlier toFinal.advances).later toBefore.advances)
  obtain ⟨frame, flags, leaf⟩ :=
    leaf_copyTurn loadable member
      (noHugeParent_turns loadable frontListed noHugeParent begun)
      neverOutTurn turned
  obtain ⟨kept, leaf⟩ := toFinal.leaves _ _ _ _ leaf
  exact ⟨frame, kept, leaf⟩

variable {condition : LeafCondition} {start : FrameAllocator}

/-- The mappings of the pass. -/
theorem leavesIn_loadSegments
    (target :
      ∀ allocator, ∀ turn ∈ turns elf, ∀ frame,
        start.Answered allocator (some frame) →
          condition.Holds allocator .size4KiB turn.page frame
            presentWritableUser)
    (reflagged :
      afterMap (.error .parentEntryHugePage) = .ok () →
        condition.IgnoresFlags)
    (leaves : LeavesIn condition start state)
    (returned :
      (loadSegments elf afterMap).run state = .ok result final) :
    LeavesIn condition start final := by
  have loadable := loadable_of_run_ok returned
  apply forM_invariant (LeavesIn condition start) _ leaves
    (turns_run_ok returned)
  intro turn member before after leaves turned
  obtain ⟨frame, answer, rfl, accepted, _⟩ :=
    copyTurn_effect loadable member turned
  have answered := (turn.answered_ready elf answer).later leaves.advances
  have ready : LeavesIn condition start (turn.ready elf frame before) :=
    leaves.of_sameTable rfl (turn.advances_ready elf frame before)
  apply ready.mapped rfl
  · intro _
    exact target _ turn member frame answered
  · intro failed
    apply reflagged
    rw [← accepted]
    exact congrArg afterMap failed.symm

end Growth

/-! ## Passes that return -/

section Completion

variable [LawfulMapper T] [LawfulMapper C]

/-- A turn whose page is free maps it. -/
theorem completes_copyTurn {rest : List AnyPage}
    (accepts : afterMap (.ok ()) = .ok ()) (inFile : turn.InFile elf)
    (free : Free state (smallPage turn.page :: rest)) :
    Completes (copyTurn elf afterMap turn) state rest := by
  cases answer : state.allocator.answers state.allocator.drawn with
  | none =>
      exact Or.inr
        ⟨_, _, copyTurn_out elf afterMap turn answer,
          answered_drawFrame answer⟩
  | some frame =>
      have freeReady :
          Free (turn.ready elf frame state) (smallPage turn.page :: rest) :=
        ⟨free.apart, free.unmapped⟩
      have effect := turn.outcome_effect elf frame state
      unfold Completes
      rw [copyTurn_run inFile answer]
      cases accepted : afterMap (turn.outcome elf frame state).result with
      | ok value => exact Or.inl ⟨_, rfl, freeReady.mapped frame rfl⟩
      | error fault =>
          refine Or.inr ⟨fault, _, rfl, ?_⟩
          by_contra neverOut
          have succeeded :=
            effect.ok_of_unmapped
              (free.unmapped (smallPage turn.page) (by simp))
              fun out => neverOut
                (out.later (turn.advances_ready elf frame state))
          rw [succeeded, accepts] at accepted
          cases accepted

/-- The pass returns when the pages of its turns are free. -/
theorem completes_loadSegments {rest : List AnyPage}
    (accepts : afterMap (.ok ()) = .ok ()) (loadable : Loadable elf)
    (free :
      Free state
        ((turns elf).map (fun turn => smallPage turn.page) ++ rest)) :
    Completes (loadSegments elf afterMap) state rest := by
  unfold Completes
  rw [loadSegments_run_of_loadable afterMap loadable]
  apply completes_forM (fun turn => smallPage turn.page) _ _ free
  · intro turn member middle later freeNow
    exact completes_copyTurn accepts (loadable.inFile member) freeNow
  · intro turn
    exact grows_copyTurn elf afterMap turn

/-- Without reactions to `map_to`, the pass always returns. -/
theorem completes_loadSegments_ignoring
    (loadable : Loadable elf) (state : Machine T C) :
    Completes (loadSegments elf ignoreAnswer) state [] := by
  have nothing : ∀ state : Machine T C, Free state [] :=
    fun _ => ⟨List.Pairwise.nil, by simp⟩
  unfold Completes
  rw [loadSegments_run_of_loadable ignoreAnswer loadable]
  refine Or.imp ?returns id
    (forM_returns
      (fun remaining (middle : Machine T C) =>
        remaining ⊆ turns elf ∧
          state.allocator.Advances middle.allocator)
      (fun final => state.allocator.Answered final.allocator none)
      ?step ⟨List.Subset.refl _, FrameAllocator.Advances.refl _⟩)
  case returns =>
    rintro ⟨final, returned, _⟩
    exact ⟨final, returned, nothing final⟩
  case step =>
    rintro turn remaining middle ⟨listed, advances⟩
    have related := grows_copyTurn elf ignoreAnswer turn middle
    cases answer : middle.allocator.answers middle.allocator.drawn with
    | none =>
        exact Or.inr
          ⟨_, _, copyTurn_out elf ignoreAnswer turn answer,
            (answered_drawFrame answer).later advances⟩
    | some frame =>
        have ran :
            (copyTurn elf ignoreAnswer turn).run middle = .ok () _ :=
          copyTurn_run (loadable.inFile (listed List.mem_cons_self)) answer
        rw [ran] at related
        exact Or.inl ⟨_, ran, (List.cons_subset.mp listed).2,
          advances.trans related.advances⟩

end Completion

end RustKernel.Loader
