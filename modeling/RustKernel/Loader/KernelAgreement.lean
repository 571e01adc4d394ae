import RustKernel.Loader.Completion

/-!
# The two loaders on the kernel

`kernel_from_elf` maps the kernel, and every later `from_elf` maps it again
from the active address space.  The two recompute the page ranges on their
own.  The first drops the answers of `map_to` and passes over segments without
file bytes; the second panics on a page that it meets twice or that is not
mapped.
-/

namespace RustKernel.Loader

open RustKernel.Foundations
open RustKernel.Machine
open RustKernel.Memory
open RustKernel.Paging

/-! ## Kernel passes that return -/

section KernelPass

variable {T C : Type} [Mapper T] [Mapper C] [LawfulMapper T]
variable {state final : Machine T C} {result : Unit}

/-- A page that is mapped ends the pass. -/
theorem not_mem_of_leaf {pages : List (Page .size4KiB)}
    {page : Page .size4KiB} {frame : PhysFrame .size4KiB}
    {flags : PageTableFlags}
    (leaf : entry state.table .size4KiB page = .leaf frame flags)
    (returned : (pages.forM mapKernelPage).run state = .ok result final) :
    page ∉ pages := by
  intro member
  obtain ⟨front, back, rfl⟩ := List.append_of_mem member
  rw [forM_append_run_ok] at returned
  obtain ⟨before, begun, returned⟩ := returned
  rw [forM_cons_run_ok] at returned
  obtain ⟨after, turned, _⟩ := returned
  have still : entry before.table .size4KiB page = .leaf frame flags := by
    apply forM_invariant
      (fun middle => entry middle.table .size4KiB page = .leaf frame flags)
      _ leaf begun
    intro earlier _ start next leaf taken
    exact leaf_mapKernelPage leaf taken
  obtain ⟨target, _, succeeded, _⟩ := mapKernelPage_run_ok.mp turned
  have effect :=
    LawfulMapper.mapTo_effect before.table before.allocator page target
      presentWritable rfl
  rw [(effect.mapped succeeded).1] at still
  cases still

/-- A pass that returns has met no page twice. -/
theorem nodup_of_mapKernelPages {pages : List (Page .size4KiB)}
    (returned : (pages.forM mapKernelPage).run state = .ok result final) :
    pages.Nodup := by
  induction pages generalizing state with
  | nil => exact List.nodup_nil
  | cons page rest inductionHypothesis =>
      rw [forM_cons_run_ok] at returned
      obtain ⟨middle, turned, ended⟩ := returned
      obtain ⟨frame, _, succeeded, rfl⟩ := mapKernelPage_run_ok.mp turned
      have effect :=
        LawfulMapper.mapTo_effect state.table state.allocator page frame
          presentWritable rfl
      rw [List.nodup_cons]
      exact ⟨not_mem_of_leaf (effect.mapped succeeded).2 ended,
        inductionHypothesis ended⟩

end KernelPass

/-! ## The pages of the kernel in the active address space -/

section Agreement

variable {T C : Type} [Mapper T] [Mapper C] [LawfulMapper T] [LawfulMapper C]
variable {kernel : ElfFile} {descriptors : List MemoryDescriptor}
variable {kernelStackStart kernelStackEnd mem : Nat}
variable {start final : Machine T C} {process : Process T}

/-- `kernel_from_elf` has mapped every page of a segment with file bytes. -/
theorem kernelFromElf_translates {turn : Turn}
    (empty : Empty start.table)
    (returned :
      (kernelFromElf descriptors kernel kernelStackStart kernelStackEnd
        mem).run start = .ok process final)
    (neverOut : ¬ start.allocator.Answered final.allocator none)
    (member : turn ∈ turns kernel)
    (offWindow : ∀ huge ∈ windowPages mem, Apart huge turn.page) :
    ∃ frame, translatePage process.addressSpace turn.page = some frame := by
  obtain ⟨ready, setup, looped, made⟩ := kernelFromElf_run_ok returned
  have grown : Grows start ready :=
    (preserves_kernelSetup _ _ _ _).of_run_ok setup
  have noHugeParent :=
    noHugeParent_of_kernelReserved (onPages_kernelSetup empty setup) offWindow
  obtain ⟨frame, flags, leaf⟩ :=
    leaf_of_mem_turns noHugeParent
      (fun out => neverOut (out.later grown.advances)) member looped
  rw [made]
  exact ⟨frame, translatePage_eq_some.mpr ⟨flags, leaf⟩⟩

/-- The pages of the kernel are listed once, and those of segments without
file bytes are mapped. -/
structure KernelMappable (kernel : ElfFile) (active : T) : Prop where
  once : (kernelPages kernel).Nodup
  resident :
    ∀ header ∈ kernel.loadHeaders, header.segmentFileSize = 0 →
      ∀ page ∈ header.pages, ∃ frame, translatePage active page = some frame

/-- The kernel pass gets through and finds the frames of `kernel_from_elf`
again exactly when the kernel is mappable. -/
theorem mapKernel_agrees_iff
    {firstTable newPageTable active : T} {firmware : C}
    {supply allocator : FrameAllocator} {firstIndex idIndex : Nat}
    {stackStart stackEnd size : Nat} {ready : Machine T T}
    (firstEmpty : Empty firstTable)
    (booted :
      (kernelFromElf descriptors kernel kernelStackStart kernelStackEnd
          mem).run (Machine.start firstTable firmware supply firstIndex) =
        .ok process final)
    (bootNeverOut : ¬ supply.Answered final.allocator none)
    (offWindow :
      ∀ page ∈ kernelPages kernel, ∀ huge ∈ windowPages mem,
        Apart huge page)
    (kept :
      ∀ page frame,
        translatePage process.addressSpace page = some frame →
          translatePage active page = some frame)
    (empty : Empty newPageTable)
    (reserved :
      ∀ page ∈ kernelPages kernel,
        ∀ mapped ∈ userReserved stackStart stackEnd size,
          Apart mapped.2 page)
    (setup :
      (userSetup stackStart stackEnd size).run
          (Machine.start newPageTable active allocator idIndex) =
        .ok () ready)
    (neverOut :
      ∀ index, allocator.drawn ≤ index → allocator.answers index ≠ none) :
    (∃ loaded,
      (mapKernel kernel).run ready = .ok () loaded ∧
        ∀ turn ∈ turns kernel, ∀ frame,
          translatePage process.addressSpace turn.page = some frame →
            translatePage loaded.table turn.page = some frame) ↔
      KernelMappable kernel active := by
  have same :
      SameCurrent (Machine.start newPageTable active allocator idIndex)
        ready :=
    (preserves_userSetup _ _ _).of_run_ok setup
  have grown :
      Grows (Machine.start newPageTable active allocator idIndex) ready :=
    (preserves_userSetup _ _ _).of_run_ok setup
  have current : ready.current = active := same
  have turnPage :
      ∀ turn ∈ turns kernel, turn.page ∈ kernelPages kernel := by
    intro turn member
    obtain ⟨listed, _, inRange⟩ := mem_turns.mp member
    exact List.mem_flatMap.mpr ⟨turn.header, listed, inRange⟩
  constructor
  · rintro ⟨loaded, returned, _⟩
    obtain ⟨_, _, looped⟩ := mapKernel_run_ok returned
    refine ⟨nodup_of_mapKernelPages looped, ?_⟩
    intro header listed _ page inRange
    obtain ⟨frame, translated, _⟩ :=
      mapKernel_maps returned page
        (List.mem_flatMap.mpr ⟨header, listed, inRange⟩)
    rw [current] at translated
    exact ⟨frame, translated⟩
  · intro mappable
    obtain ⟨_, _, looped, _⟩ := kernelFromElf_run_ok booted
    have loadable := loadable_of_run_ok looped
    have translates :
        ∀ page ∈ kernelPages kernel,
          ∃ frame, translatePage ready.current page = some frame := by
      intro page member
      rw [current]
      obtain ⟨header, listed, inRange⟩ := List.mem_flatMap.mp member
      rcases Nat.eq_zero_or_pos header.segmentFileSize with zero | positive
      · exact mappable.resident header listed zero page inRange
      · have turn : Turn.mk header page ∈ turns kernel :=
          mem_turns.mpr ⟨listed, positive, inRange⟩
        obtain ⟨frame, translated⟩ :=
          kernelFromElf_translates firstEmpty booted bootNeverOut turn
            (offWindow page member)
        exact ⟨frame, kept page frame translated⟩
    have leaves := onPages_userSetup empty setup
    have free :
        Free ready ((kernelPages kernel).map smallPage ++ []) := by
      rw [List.append_nil]
      refine ⟨apart_of_nodup mappable.once, ?_⟩
      intro page member
      obtain ⟨small, listed, rfl⟩ := List.mem_map.mp member
      exact unmapped_of_onPages leaves (reserved small listed)
    rcases completes_mapKernel loadable.readable loadable.ranges translates
        free with
      ⟨loaded, returned, _⟩ | ⟨_, stopped, _, out⟩
    · refine ⟨loaded, returned, ?_⟩
      intro turn member frame translated
      obtain ⟨found, translatedActive, leaf⟩ :=
        mapKernel_maps returned turn.page (turnPage turn member)
      rw [current, kept turn.page frame translated] at translatedActive
      cases translatedActive
      exact translatePage_eq_some.mpr ⟨presentWritable, leaf⟩
    · obtain ⟨index, lower, _, none⟩ := out.later grown.advances
      exact absurd none (neverOut index lower)

end Agreement

/-- A segment with file bytes, and one without on the page that is mapped for
the code of the loader. -/
def bareHeaders : List ProgramHeader :=
  [⟨.load, 0, 0x800000, 1, 1⟩, ⟨.load, 0, 0x100000, 0, 8⟩]

def bareElf : ElfFile :=
  ElfFile.layOut 0x800000 bareHeaders []

theorem bareTable : LoadTable 0x800000 bareHeaders [] := by
  decide

theorem kernelPages_bareElf : kernelPages bareElf = [⟨0x800⟩, ⟨0x100⟩] := by
  unfold kernelPages bareElf
  rw [ElfFile.loadHeaders_layOut bareTable]
  decide

/-- The table of the process translates the page of the code. -/
def translatesCode
    (run : EStateM.Result Panic (Machine RadixTable RadixTable)
      (Process RadixTable)) : Bool :=
  match run with
  | .ok process _ =>
      (translatePage process.addressSpace
        (⟨0x100⟩ : Page .size4KiB)).isSome
  | .error _ _ => false

theorem mapKernel_agrees_iff_bare :
    ∃ process final ready loaded,
      (kernelFromElf bootDescriptors bareElf 0x200000 0x200000 0).run
          bootMachine = .ok process final ∧
        (userSetup 0x200000 0x200000 0).run
            (bootedMachine process.addressSpace) = .ok () ready ∧
        (mapKernel bareElf).run ready = .ok () loaded := by
  have boots :
      ∃ process final,
        (kernelFromElf bootDescriptors bareElf 0x200000 0x200000 0).run
          bootMachine = .ok process final :=
    kernelFromElf_returns_boot (loadable_layOut bareTable)
  obtain ⟨process, final, booted⟩ := boots
  obtain ⟨ready, setup⟩ := userSetup_returns_booted process.addressSpace
  have evaluated :
      translatesCode
        ((kernelFromElf bootDescriptors bareElf 0x200000 0x200000 0).run
          bootMachine) = true := by
    decide +kernel
  rw [booted] at evaluated
  obtain ⟨frame, code⟩ := Option.isSome_iff_exists.mp evaluated
  have offWindow :
      ∀ page ∈ kernelPages bareElf, ∀ huge ∈ windowPages 0,
        Apart huge page := by
    rw [kernelPages_bareElf]
    decide
  have reserved :
      ∀ page ∈ kernelPages bareElf,
        ∀ mapped ∈ userReserved 0x200000 0x200000 0,
          Apart mapped.2 page := by
    rw [kernelPages_bareElf]
    decide +kernel
  have mappable : KernelMappable bareElf process.addressSpace := by
    constructor
    · rw [kernelPages_bareElf]
      decide
    · intro header listed zero page inRange
      rw [bareElf, ElfFile.loadHeaders_layOut bareTable] at listed
      simp only [bareHeaders, List.mem_cons, List.not_mem_nil, or_false]
        at listed
      rcases listed with rfl | rfl
      · cases zero
      · have only : page = ⟨0x100⟩ := List.mem_singleton.mp inRange
        exact ⟨frame, only ▸ code⟩
  have agrees :=
    mapKernel_agrees_iff (RadixTable.new_empty _) booted
      (bootMachine_neverOut _) offWindow (fun _ _ translated => translated)
      (RadixTable.new_empty _) reserved setup
      (fun _ _ out => by cases out)
  obtain ⟨loaded, returned, _⟩ := agrees.mpr mappable
  exact ⟨process, final, ready, loaded, booted, setup, returned⟩

/-- Two segments of which the first ends where the second begins. -/
def adjacentHeaders : List ProgramHeader :=
  [⟨.load, 0, 0x400000, 1, 0x1000⟩, ⟨.load, 0, 0x401000, 1, 1⟩]

def adjacentElf : ElfFile :=
  ElfFile.layOut 0x400000 adjacentHeaders []

theorem adjacentTable : LoadTable 0x400000 adjacentHeaders [] := by
  decide

/-- The page of the second segment is in the range of the first as well, and
the pass meets it twice. -/
theorem adjacent_segments_unmappable :
    ∃ process final ready,
      (kernelFromElf bootDescriptors adjacentElf 0x200000 0x200000 0).run
          bootMachine = .ok process final ∧
        (userSetup 0x200000 0x200000 0).run
            (bootedMachine process.addressSpace) = .ok () ready ∧
        ∀ loaded, (mapKernel adjacentElf).run ready ≠ .ok () loaded := by
  obtain ⟨process, final, booted⟩ :=
    kernelFromElf_returns_boot (loadable_layOut adjacentTable)
  obtain ⟨ready, setup⟩ := userSetup_returns_booted process.addressSpace
  refine ⟨process, final, ready, booted, setup, ?_⟩
  intro loaded returned
  obtain ⟨_, _, looped⟩ := mapKernel_run_ok returned
  have once := nodup_of_mapKernelPages looped
  rw [kernelPages, adjacentElf, ElfFile.loadHeaders_layOut adjacentTable]
    at once
  revert once
  decide

end RustKernel.Loader
