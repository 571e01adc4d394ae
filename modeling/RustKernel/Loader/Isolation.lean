import RustKernel.Loader.CopyTargets

/-!
# Isolation of the kernel in a process

`from_elf` builds one table in four passes.  Only the stack pass and the
segment pass set `USER_ACCESSIBLE`, both for frames that the allocator gives
them during the call.  A segment of the user program may name any page: a page
that is mapped already keeps its mapping, and a page inside the window onto
physical memory ends the call.
-/

namespace RustKernel.Loader

open RustKernel.Foundations
open RustKernel.Machine
open RustKernel.Memory
open RustKernel.Paging

/-! ## Mappings that a program can reach -/

/-- A mapping that user code may have: a page of the process stack or of a
segment of its file, and a frame that was drawn since `start`. -/
def UserLeaf (elf : ElfFile) (start allocator : FrameAllocator) :
    (size : PageSize) → Page size → PhysFrame size → Prop
  | .size4KiB, page, frame =>
      (page ∈ getStack ∨ ∃ header ∈ elf.loadHeaders, page ∈ header.pages) ∧
        start.Answered allocator (some frame)
  | _, _, _ => False

/-- User code reaches nothing else. -/
def userLeaves (elf : ElfFile) (start : FrameAllocator) : LeafCondition where
  Holds := fun allocator size page frame flags =>
    flags.userAccessible = true → UserLeaf elf start allocator size page frame
  advance := by
    intro before after size page frame flags advances holds user
    have reached := holds user
    cases size with
    | size4KiB => exact ⟨reached.1, reached.2.earlier advances⟩
    | size2MiB => exact reached
    | size1GiB => exact reached

section Loader

variable {T C : Type} [Mapper T] [Mapper C] [LawfulMapper T] [LawfulMapper C]
variable {elf kernel : ElfFile}
variable {kernelStackStart kernelStackEnd mem : Nat}
variable {start final : Machine T C} {process : Process T}

theorem userLeaves_fromElf
    (empty : Empty start.table)
    (returned :
      (fromElf elf kernel kernelStackStart kernelStackEnd mem).run start =
        .ok process final) :
    LeavesIn (userLeaves elf start.allocator) start.allocator final := by
  obtain ⟨ready, loaded, setup, mapped, looped, _⟩ := fromElf_run_ok returned
  have leaves :
      LeavesIn (userLeaves elf start.allocator) start.allocator ready := by
    apply leavesIn_userSetup _ _ _ (leavesIn_of_empty empty) setup
    · intro _ _ _ user
      cases user
    · intro _ page member frame answered _
      exact ⟨Or.inl member, answered⟩
    · intro _ _ _ user
      cases user
  have leaves :
      LeavesIn (userLeaves elf start.allocator) start.allocator loaded := by
    apply leavesIn_mapKernel _ leaves mapped
    intro _ _ _ _ _ user
    cases user
  apply leavesIn_loadSegments _ (fun tolerated => by cases tolerated) leaves
    looped
  intro _ turn member frame answered _
  obtain ⟨listed, _, inRange⟩ := mem_turns.mp member
  exact ⟨Or.inr ⟨turn.header, listed, inRange⟩, answered⟩

/-- In the address space that `from_elf` returns, the kernel is mapped as in
the active table and hidden from user code, the window is hidden, and user
code reaches its stack and its segments only. -/
theorem fromElf_isolates
    {newPageTable : T} {current : C} {allocator : FrameAllocator}
    {idIndex : Nat} (empty : Empty newPageTable)
    (returned :
      (fromElf elf kernel kernelStackStart kernelStackEnd mem).run
          (Machine.start newPageTable current allocator idIndex) =
        .ok process final) :
    (∀ header ∈ kernel.loadHeaders, ∀ page ∈ header.pages, ∃ frame flags,
      translatePage current page = some frame ∧
        entry process.addressSpace .size4KiB page = .leaf frame flags ∧
        flags.userAccessible = false) ∧
    (∃ frames, windowFrames mem = .ok frames ∧
      ∀ frame ∈ frames, ∃ page flags,
        windowPage frame = .ok page ∧
          entry process.addressSpace .size1GiB page = .leaf frame flags ∧
          flags.userAccessible = false) ∧
    ∀ size (page : Page size) frame flags,
      entry process.addressSpace size page = .leaf frame flags →
        flags.userAccessible = true →
          UserLeaf elf allocator final.allocator size page frame := by
  have leaves := userLeaves_fromElf empty returned
  obtain ⟨ready, loaded, setup, mapped, looped, made⟩ := fromElf_run_ok returned
  rw [made]
  have same :
      SameCurrent (Machine.start newPageTable current allocator idIndex)
        ready :=
    (preserves_userSetup _ _ _).of_run_ok setup
  refine ⟨?_, ?_, leaves.holds⟩
  · intro header member page inRange
    have inPass : page ∈ kernelPages kernel :=
      List.mem_flatMap.mpr ⟨header, member, inRange⟩
    obtain ⟨frame, translated, leaf⟩ := mapKernel_maps mapped page inPass
    rw [same] at translated
    exact ⟨frame, presentWritable, translated,
      leaf_loadSegments leaf looped, rfl⟩
  · have toLoaded : Grows ready loaded :=
      (preserves_mapKernel kernel).of_run_ok mapped
    have toFinal : Grows loaded final :=
      (grows_loadSegments elf tolerateMapped).of_run_ok looped
    obtain ⟨frames, computed, each⟩ :=
      (userSetup_maps_window setup).grows (toLoaded.trans toFinal)
    refine ⟨frames, computed, ?_⟩
    intro frame member
    obtain ⟨page, flags, located, leaf⟩ := each frame member
    refine ⟨page, flags, located, leaf, ?_⟩
    rw [Bool.eq_false_iff]
    intro user
    exact leaves.holds .size1GiB page frame flags leaf user

end Loader

/-! ## Copies that reach the tables -/

section Through

variable {T C : Type} [StoredMapper T] [StoredMapper C]
variable [LawfulMapper T] [LawfulMapper C]
variable [LawfulStoredMapper T] [LawfulStoredMapper C]
variable {elf kernel : ElfFile}
variable {kernelStackStart kernelStackEnd mem : Nat}

end Through

/-! ## A program beside a kernel -/

/-- An address space with the page of the kernel in it. -/
def residentSpace : RadixTable :=
  (mapTo (⟨0x800⟩ : Page .size4KiB) ⟨0x50⟩ presentWritable
    (RadixTable.new ⟨0x803⟩) ⟨fun index => some ⟨0x100 + index⟩, 0⟩).table

theorem residentSpace_effect :
    MapToEffect ⟨0x800⟩ ⟨0x50⟩ presentWritable (RadixTable.new ⟨0x803⟩)
      ⟨fun index => some ⟨0x100 + index⟩, 0⟩
      (mapTo (⟨0x800⟩ : Page .size4KiB) ⟨0x50⟩ presentWritable
        (RadixTable.new ⟨0x803⟩) ⟨fun index => some ⟨0x100 + index⟩, 0⟩) :=
  LawfulMapper.mapTo_effect _ _ _ _ _ rfl

/-- No other page is mapped. -/
theorem residentSpace_ready {frame : PhysFrame .size4KiB}
    (elsewhere : frame.number ≠ 0x800) :
    IdentityReady residentSpace frame := by
  left
  apply residentSpace_effect.unmapped_kept
    (unmapped_of_empty (RadixTable.new_empty _) _)
  rw [apart_iff_ne]
  intro same
  exact elsewhere (Page.mk.inj same).symm

theorem tableFrames_residentSpace {frame : PhysFrame .size4KiB}
    (stored : frame ∈ tableFrames residentSpace) :
    frame.number < 0x8000 ∧ frame ≠ ⟨0x50⟩ := by
  rcases residentSpace_effect.tablesDrawn frame stored with
    root | ⟨index, _, upper, given⟩
  · rw [RadixTable.mem_tableFrames_new.mp root]
    simp
  · have few := residentSpace_effect.atMostThree
    simp only [Option.some.injEq] at given few
    subst given
    simp only [ne_eq, PhysFrame.mk.injEq]
    omega

theorem bootedMachine_fresh : Fresh (bootedMachine residentSpace) := by
  intro index frame _ given
  simp only [bootedMachine, Machine.start, Option.some.injEq] at given
  subst given
  refine ⟨?_, ?_, ?_⟩
  · intro member
    have isRoot := RadixTable.mem_tableFrames_new.mp member
    simp only [PhysFrame.mk.injEq] at isRoot
    omega
  · intro member
    have below := (tableFrames_residentSpace member).1
    simp only at below
    omega
  · intro later after given
    simp only [bootedMachine, Machine.start, Option.some.injEq,
      PhysFrame.mk.injEq] at given
    omega

/-- The frames of the machine are not the one at the kernel's page. -/
theorem bootedMachine_ready (index : Nat) (frame : PhysFrame .size4KiB)
    (_ : (bootedMachine residentSpace).allocator.drawn ≤ index)
    (given :
      (bootedMachine residentSpace).allocator.answers index = some frame) :
    IdentityReady (bootedMachine residentSpace).current frame := by
  apply residentSpace_ready
  simp only [bootedMachine, Machine.start, Option.some.injEq] at given
  subst given
  simp only
  omega

theorem guestElf_fits : ∀ header ∈ guestElf.loadHeaders, FitsFrame header := by
  rw [guestElf, ElfFile.loadHeaders_layOut guestTable]
  decide

theorem fromElf_returns_guest :
    ∃ process final,
      (throughActive.fromElf guestElf residentElf 0x200000 0x200000 0).run
        (bootedMachine residentSpace) = .ok process final := by
  apply exists_of_returns
  decide +kernel

/-- An allocator whose regions are listed from the highest address down. -/
def descendingAllocator : FrameAllocator :=
  ⟨fun index => if index < 0x1000 then some ⟨0x60000 - index⟩ else none, 0⟩

def descendingMachine : Machine RadixTable RadixTable :=
  Machine.start (RadixTable.new ⟨0x802⟩) (withIdentityGiB residentSpace)
    descendingAllocator 0

/-- Sixteen bytes that begin eight bytes before the end of a page; the last
eight are an entry that is present, writable and open to user code. -/
def plantingHeader : ProgramHeader :=
  ⟨.load, 120, 0x400FF8, 16, 16⟩

def plantingElf : ElfFile :=
  ElfFile.layOut 0x400FF8 [plantingHeader]
    (List.replicate 8 0 ++ leBytes 8 0x123007)

/-- What a run that returns has mapped at a page. -/
def returnedEntry
    (run :
      EStateM.Result Panic (Machine RadixTable RadixTable)
        (Process RadixTable))
    (page : Page .size4KiB) : Option (Entry .size4KiB) :=
  match run with
  | .ok process _ => some (entry process.addressSpace .size4KiB page)
  | .error _ _ => none

theorem exists_of_returnedEntry
    {run :
      EStateM.Result Panic (Machine RadixTable RadixTable)
        (Process RadixTable)}
    {page : Page .size4KiB} {found : Entry .size4KiB}
    (returned : returnedEntry run page = some found) :
    ∃ process final, run = .ok process final ∧
      entry process.addressSpace .size4KiB page = found := by
  cases run with
  | ok process final => exact ⟨process, final, rfl, Option.some.inj returned⟩
  | error fault final => cases returned

end RustKernel.Loader
