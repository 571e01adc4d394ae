import RustKernel.Boot.LoaderRun

/-!
# What the kernel's table has beside the kernel

Behind `kernel_from_elf` the loader maps small pages only, so that a small
page that is mapped keeps its frame and its flags.  The pages of the runtime
services are mapped with errors discarded: a page among them that was free is
identity mapped, since any other mapping would have to be one of them as well.
-/

namespace RustKernel.Boot

open RustKernel.Foundations
open RustKernel.Kernel
open RustKernel.Loader
open RustKernel.Machine
open RustKernel.Memory
open RustKernel.Paging

section Relation

variable {T C : Type} [Mapper T] [Mapper C]

/-- The active table is left alone, and small pages stay mapped as they
are. -/
structure HandsOver (before after : Machine T C) : Prop
    extends ConfinedTo ∅ before after where
  sameCurrent : after.current = before.current
  smallLeaves :
    ∀ (page : Page .size4KiB) frame flags,
      entry before.table .size4KiB page = .leaf frame flags →
        entry after.table .size4KiB page = .leaf frame flags

instance : RunRelation (HandsOver (T := T) (C := C)) where
  refl := fun state =>
    { RunRelation.refl (R := ConfinedTo ∅) state with
      sameCurrent := rfl
      smallLeaves := fun _ _ _ leaf => leaf }
  trans := fun earlier later =>
    { RunRelation.trans earlier.toConfinedTo later.toConfinedTo with
      sameCurrent := later.sameCurrent.trans earlier.sameCurrent
      smallLeaves := fun page frame flags leaf =>
        later.smallLeaves page frame flags
          (earlier.smallLeaves page frame flags leaf) }

variable [LawfulMapper T]

omit [Mapper C] in
theorem small_leaf_mapped {page other : Page .size4KiB}
    {target frame : PhysFrame .size4KiB} {given flags : PageTableFlags}
    {state : Machine T C} (present : given.present = true)
    (leaf : entry state.table .size4KiB other = .leaf frame flags) :
    entry (state.mapped page target given).table .size4KiB other =
      .leaf frame flags := by
  have effect :=
    LawfulMapper.mapTo_effect state.table state.allocator page target given
      present
  rw [← leaf]
  by_cases same : other = page
  · subst same
    apply effect.targetKept
    intro succeeded
    rw [(effect.mapped succeeded).1] at leaf
    cases leaf
  · exact effect.sameSizeKept other same

theorem handsOver_mapped (page : Page .size4KiB)
    (frame : PhysFrame .size4KiB) {flags : PageTableFlags}
    (present : flags.present = true) (state : Machine T C) :
    HandsOver state (state.mapped page frame flags) where
  toConfinedTo := confinedTo_mapped ∅ page frame present state
  sameCurrent := rfl
  smallLeaves := fun _ _ _ leaf => small_leaf_mapped present leaf

theorem handsOver_mapNew (page : Page .size4KiB)
    (frame : PhysFrame .size4KiB) {flags : PageTableFlags}
    (present : flags.present = true) :
    Preserves (HandsOver (T := T) (C := C)) (mapNew page frame flags) :=
  fun state => handsOver_mapped page frame present state

theorem handsOver_identityMapNew (frame : PhysFrame .size4KiB)
    {flags : PageTableFlags} (present : flags.present = true) :
    Preserves (HandsOver (T := T) (C := C)) (identityMapNew frame flags) := by
  apply Preserves.ofExcept_bind
  intro address _
  refine Preserves.bind (handsOver_mapNew _ frame present) ?_
  intro _
  exact Preserves.pure ()

theorem handsOver_handDescriptor (descriptor : FirmwareDescriptor) :
    Preserves (HandsOver (T := T) (C := C)) (handDescriptor descriptor) := by
  unfold handDescriptor
  split
  · refine Preserves.bind ?_ fun _ => Preserves.pure _
    apply Preserves.forM
    intro index _
    apply Preserves.ofExcept_bind
    intro frame _
    exact handsOver_identityMapNew frame rfl
  · exact Preserves.pure descriptor

theorem handsOver_shareHeapPage (page : Page .size4KiB) :
    Preserves (HandsOver (T := T) (C := C)) (shareHeapPage page) := by
  refine Preserves.bind ?_ ?_
  · intro state
    exact RunRelation.refl state
  · intro state
    cases translatePage state.current page with
    | none => exact Preserves.pure ()
    | some frame =>
        refine Preserves.bind (handsOver_mapNew page frame rfl) ?_
        intro answer
        cases answer with
        | ok value => exact Preserves.pure ()
        | error reason => exact Preserves.throw _

theorem handsOver_handOver (map : List FirmwareDescriptor)
    (tablePointer : Nat) :
    Preserves (HandsOver (T := T) (C := C)) (handOver map tablePointer) := by
  refine Preserves.bind (fun state => RunRelation.refl state) ?_
  intro state
  apply Preserves.ofExcept_bind
  intro frame _
  refine Preserves.bind (handsOver_identityMapNew frame rfl) ?_
  intro _
  refine Preserves.bind (Preserves.mapM ?_) ?_
  · intro descriptor _
    exact handsOver_handDescriptor descriptor
  intro handed
  apply Preserves.ofExcept_bind
  intro pages _
  refine Preserves.bind (Preserves.forM ?_) fun _ => Preserves.pure _
  intro page _
  exact handsOver_shareHeapPage page

end Relation

/-! ## The heap -/

section Heap

variable {T C : Type} [Mapper T] [Mapper C] [LawfulMapper T]
variable {state final : Machine T C} {pages : List (Page .size4KiB)}
variable {page : Page .size4KiB} {frame : PhysFrame .size4KiB}

/-- A page of the loop is mapped as the active table has it. -/
theorem shareHeapPages_agree
    (returned : (pages.forM shareHeapPage).run state = .ok () final)
    (member : page ∈ pages)
    (translated : translatePage state.current page = some frame) :
    entry final.table .size4KiB page = .leaf frame presentWritable := by
  have turns (list : List (Page .size4KiB)) :
      Preserves (HandsOver (T := T) (C := C)) (list.forM shareHeapPage) :=
    Preserves.forM fun page _ => handsOver_shareHeapPage page
  obtain ⟨front, back, rfl⟩ := List.append_of_mem member
  rw [forM_append_run_ok] at returned
  obtain ⟨before, begun, returned⟩ := returned
  rw [forM_cons_run_ok] at returned
  obtain ⟨after, turned, ended⟩ := returned
  have same := ((turns front).of_run_ok begun).sameCurrent
  apply ((turns back).of_run_ok ended).smallLeaves
  rw [shareHeapPage_run_ok, same, translated] at turned
  rcases turned with ⟨target, isFrame, succeeded, rfl⟩ | ⟨absent, _⟩
  · cases isFrame
    have effect :=
      LawfulMapper.mapTo_effect before.table before.allocator page frame
        presentWritable rfl
    exact (effect.mapped succeeded).2
  · cases absent

end Heap

/-! ## The runtime services -/

section Identity

variable {T C : Type} [Mapper T]

/-- The frame is mapped at the page of its number. -/
def IdentityMapped (table : T) (number : Nat) : Prop :=
  ∃ flags, entry table .size4KiB ⟨number⟩ = .leaf ⟨number⟩ flags

/-- The page is free or identity mapped. -/
def Identifiable (table : T) (number : Nat) : Prop :=
  Unmapped table (⟨number⟩ : Page .size4KiB) ∨ IdentityMapped table number

variable {state final : Machine T C} {number : Nat}

variable [LawfulMapper T]

/-- Identity mappings leave every page free or identity mapped. -/
theorem Identifiable.mapped (identifiable : Identifiable state.table number)
    (frame : PhysFrame .size4KiB) {flags : PageTableFlags}
    (present : flags.present = true) :
    Identifiable (state.mapped (identityPage frame) frame flags).table
      number := by
  rcases identifiable with unmapped | ⟨old, leaf⟩
  · have effect :=
      LawfulMapper.mapTo_effect state.table state.allocator
        (identityPage frame) frame flags present
    by_cases same : frame.number = number
    · subst same
      by_cases succeeded :
          (mapTo (identityPage frame) frame flags state.table
            state.allocator).result = .ok ()
      · exact Or.inr ⟨flags, (effect.mapped succeeded).2⟩
      · refine Or.inl ⟨?_, ?_⟩
        · have kept := effect.targetKept succeeded
          exact kept.trans unmapped.unused
        · exact effect.noHugeParent_kept (Nat.le_refl _)
            unmapped.noHugeParent
    · refine Or.inl (effect.unmapped_kept unmapped ?_)
      rw [apart_iff_ne]
      intro equal
      exact same (Page.mk.inj equal)
  · exact Or.inr ⟨old, small_leaf_mapped present leaf⟩

/-- With frames for its tables, an identity mapping of a free page is
there. -/
theorem Identifiable.identityMapped {frame : PhysFrame .size4KiB}
    {flags : PageTableFlags} (present : flags.present = true)
    (identifiable : Identifiable state.table frame.number)
    (neverOut :
      ¬ state.allocator.Answered
        (state.mapped (identityPage frame) frame flags).allocator none) :
    IdentityMapped (state.mapped (identityPage frame) frame flags).table
      frame.number := by
  rcases identifiable with unmapped | ⟨old, leaf⟩
  · have effect :=
      LawfulMapper.mapTo_effect state.table state.allocator
        (identityPage frame) frame flags present
    have succeeded := effect.ok_of_unmapped unmapped neverOut
    exact ⟨flags, (effect.mapped succeeded).2⟩
  · exact ⟨old, small_leaf_mapped present leaf⟩

variable {descriptor : FirmwareDescriptor} {index : Nat}

theorem Identifiable.mapRuntimePages {indices : List Nat}
    (identifiable : Identifiable state.table number)
    (returned :
      (indices.forM (mapRuntimePage descriptor)).run state =
        .ok () final) :
    Identifiable final.table number := by
  apply forM_invariant (fun middle => Identifiable middle.table number) _
    identifiable returned
  intro index _ before after identifiable turned
  obtain ⟨frame, _, rfl⟩ := mapRuntimePage_run_ok turned
  exact identifiable.mapped frame rfl

theorem Identifiable.handDescriptor {handed : FirmwareDescriptor}
    (identifiable : Identifiable state.table number)
    (returned :
      (handDescriptor descriptor).run state = .ok handed final) :
    Identifiable final.table number := by
  unfold Boot.handDescriptor at returned
  split at returned
  · rw [bind_run_ok] at returned
    obtain ⟨_, middle, looped, closed⟩ := returned
    rw [pure_run_ok] at closed
    obtain ⟨_, rfl⟩ := closed
    exact identifiable.mapRuntimePages looped
  · rw [pure_run_ok] at returned
    exact returned.2 ▸ identifiable

end Identity

section Runtime

variable {T C : Type} [Mapper T] [Mapper C]
variable {state final : Machine T C} {number : Nat}

theorem HandsOver.identityMapped (handed : HandsOver state final)
    (identity : IdentityMapped state.table number) :
    IdentityMapped final.table number := by
  obtain ⟨flags, leaf⟩ := identity
  exact ⟨flags, handed.smallLeaves _ _ _ leaf⟩

variable [LawfulMapper T]
variable {descriptor : FirmwareDescriptor} {index : Nat}

theorem handsOver_mapRuntimePages (indices : List Nat) :
    Preserves (HandsOver (T := T) (C := C))
      (indices.forM (mapRuntimePage descriptor)) := by
  apply Preserves.forM
  intro index _
  apply Preserves.ofExcept_bind
  intro frame _
  exact handsOver_identityMapNew frame rfl

/-- A page of the loop over a descriptor is identity mapped. -/
theorem mapRuntimePages_identityMapped {indices : List Nat}
    (returned :
      (indices.forM (mapRuntimePage descriptor)).run state = .ok () final)
    (neverOut : ¬ state.allocator.Answered final.allocator none)
    (member : index ∈ indices)
    (numbered :
      number = (descriptor.physicalAddress + index * 4096) / 4096)
    (identifiable : Identifiable state.table number) :
    IdentityMapped final.table number := by
  obtain ⟨front, back, rfl⟩ := List.append_of_mem member
  rw [forM_append_run_ok] at returned
  obtain ⟨before, begun, returned⟩ := returned
  rw [forM_cons_run_ok] at returned
  obtain ⟨after, turned, ended⟩ := returned
  have toBefore : HandsOver state before :=
    (handsOver_mapRuntimePages front).of_run_ok begun
  have toFinal : HandsOver after final :=
    (handsOver_mapRuntimePages back).of_run_ok ended
  have ready := identifiable.mapRuntimePages begun
  obtain ⟨frame, isFrame, rfl⟩ := mapRuntimePage_run_ok turned
  rw [← isFrame] at numbered
  subst numbered
  apply toFinal.identityMapped
  apply ready.identityMapped rfl
  intro out
  exact neverOut ((out.earlier toFinal.advances).later toBefore.advances)

/-- The pages of the runtime services are identity mapped. -/
theorem handMap_identityMapped {map handed : List FirmwareDescriptor}
    (returned : (map.mapM handDescriptor).run state = .ok handed final)
    (neverOut : ¬ state.allocator.Answered final.allocator none)
    (listed : descriptor ∈ map) (runtime : descriptor.isRuntime = true)
    (inside : index < descriptor.size)
    (numbered :
      number = (descriptor.physicalAddress + index * 4096) / 4096)
    (identifiable : Identifiable state.table number) :
    IdentityMapped final.table number := by
  induction map generalizing state handed with
  | nil => cases listed
  | cons head rest inductionHypothesis =>
      rw [mapM_cons_run_ok] at returned
      obtain ⟨value, later, middle, begun, looped, _⟩ := returned
      have toMiddle : HandsOver state middle :=
        (handsOver_handDescriptor head).of_run_ok begun
      have toFinal : HandsOver middle final :=
        (Preserves.mapM fun descriptor _ =>
          handsOver_handDescriptor descriptor).of_run_ok looped
      rcases List.mem_cons.mp listed with rfl | inRest
      · apply toFinal.identityMapped
        unfold handDescriptor at begun
        rw [if_pos runtime, bind_run_ok] at begun
        obtain ⟨_, last, pages, closed⟩ := begun
        rw [pure_run_ok] at closed
        obtain ⟨_, rfl⟩ := closed
        apply mapRuntimePages_identityMapped pages _
          (List.mem_range.mpr inside) numbered identifiable
        exact fun out => neverOut (out.earlier toFinal.advances)
      · exact inductionHypothesis looped
          (fun out => neverOut (out.later toMiddle.advances)) inRest
          (identifiable.handDescriptor begun)

end Runtime

end RustKernel.Boot
