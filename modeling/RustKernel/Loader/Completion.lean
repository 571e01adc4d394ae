import RustKernel.Loader.ElfLayout
import RustKernel.Loader.KernelPass
import RustKernel.Loader.SegmentPass
import RustKernel.Paging.RadixTable

/-!
# Calls that return

Both loaders return when their pages are free, the files can be read and the
allocator does not run out.  For `kernel_from_elf`, which drops the answers of
`map_to`, the pages of the segments need not be free.
-/

namespace RustKernel.Loader

open RustKernel.Foundations
open RustKernel.Machine
open RustKernel.Memory
open RustKernel.Paging

section Loaders

variable {T C : Type} [Mapper T] [Mapper C] [LawfulMapper T] [LawfulMapper C]
variable {elf kernel : ElfFile} {descriptors : List MemoryDescriptor}
variable {kernelStackStart kernelStackEnd mem : Nat}
variable {codeFrames stackFrames : List (PhysFrame .size4KiB)}
variable {state : Machine T C}

theorem ElfFile.header_of_readable {elf : ElfFile} (readable : elf.Readable) :
    ∃ header, elf.header = .ok header := by
  unfold ElfFile.Readable ElfFile.progamHeaders at readable
  obtain ⟨header, read, _⟩ := except_bind_eq_ok.mp readable
  exact ⟨header, read⟩

/-- `kernel_from_elf` returns or stops because the allocator runs out. -/
theorem kernelFromElf_completes
    (window : ValidWindow mem)
    (code : kernelCodeFrames descriptors = .ok codeFrames)
    (stack :
      kernelStackFrames kernelStackStart kernelStackEnd = .ok stackFrames)
    (codeLow : ∀ frame ∈ codeFrames, frame.startAddress < 2 ^ 48)
    (stackLow : ∀ frame ∈ stackFrames, frame.startAddress < 2 ^ 48)
    (loadable : Loadable elf)
    (free :
      Free state
        (kernelReserved descriptors kernelStackStart kernelStackEnd mem)) :
    (∃ process final,
      (kernelFromElf descriptors elf kernelStackStart kernelStackEnd mem).run
        state = .ok process final) ∨
    ∃ fault final,
      (kernelFromElf descriptors elf kernelStackStart kernelStackEnd mem).run
        state = .error fault final ∧
      state.allocator.Answered final.allocator none := by
  have setup :
      Completes
        (kernelSetup descriptors kernelStackStart kernelStackEnd mem)
        state [] :=
    completes_kernelSetup window code stack codeLow stackLow
      (by simpa using free)
  rw [kernelFromElf_eq]
  rcases setup with ⟨ready, setupRun, _⟩ | ⟨fault, final, stopped, out⟩
  · have grown : Grows state ready :=
      (preserves_kernelSetup _ _ _ _).of_run_ok setupRun
    obtain ⟨header, read⟩ := ElfFile.header_of_readable loadable.readable
    rw [bind_run_of_ok _ setupRun, read,
      bind_run_of_ok _ (ofExcept_run (.ok header) ready)]
    rcases completes_loadSegments_ignoring loadable ready with
      ⟨final, looped, _⟩ | ⟨fault, final, stopped, out⟩
    · rw [bind_run_of_ok _ looped]
      exact Or.inl ⟨_, final, makeProcess_run header final⟩
    · rw [bind_run, stopped]
      exact Or.inr ⟨fault, final, rfl, out.later grown.advances⟩
  · rw [bind_run, stopped]
    exact Or.inr ⟨fault, final, rfl, out⟩

/-- `kernel_from_elf` returns, unless the allocator runs out. -/
theorem kernelFromElf_returns
    (window : ValidWindow mem)
    (code : kernelCodeFrames descriptors = .ok codeFrames)
    (stack :
      kernelStackFrames kernelStackStart kernelStackEnd = .ok stackFrames)
    (codeLow : ∀ frame ∈ codeFrames, frame.startAddress < 2 ^ 48)
    (stackLow : ∀ frame ∈ stackFrames, frame.startAddress < 2 ^ 48)
    (loadable : Loadable elf)
    (free :
      Free state
        (kernelReserved descriptors kernelStackStart kernelStackEnd mem))
    (neverOut :
      ∀ index, state.allocator.drawn ≤ index →
        state.allocator.answers index ≠ none) :
    ∃ process final,
      (kernelFromElf descriptors elf kernelStackStart kernelStackEnd mem).run
        state = .ok process final := by
  rcases kernelFromElf_completes window code stack codeLow stackLow loadable
      free with
    returned | ⟨_, final, _, index, lower, _, out⟩
  · exact returned
  · exact absurd out (neverOut index lower)

/-- A machine at boot, with frames from 16 MiB on still to be given. -/
def bootMachine : Machine RadixTable RadixTable :=
  Machine.start (RadixTable.new ⟨0x800⟩) (RadixTable.new ⟨0x801⟩)
    ⟨fun index => some ⟨0x1000 + index⟩, 0⟩ 0

theorem bootMachine_neverOut (after : FrameAllocator) :
    ¬ bootMachine.allocator.Answered after none := by
  rintro ⟨index, _, _, out⟩
  cases out

def bootDescriptors : List MemoryDescriptor :=
  [⟨.loaderCode, 0x100000, 0, 0⟩]

/-- Pages outside the window and the process stack are apart from both. -/
theorem bootPages_apart {rest : List (Page .size4KiB)}
    (distinct : rest.Nodup)
    (offWindow :
      ∀ huge ∈ windowPages 0, ∀ page ∈ rest, Apart huge page)
    (offStack : ∀ page ∈ rest, page ∉ getStack) :
    ((windowPages 0).map hugePage ++ (getStack ++ rest).map smallPage).Pairwise
      fun left right => Apart left.2 right.2 := by
  have windowOffStack :
      ∀ huge ∈ windowPages 0, ∀ page ∈ getStack, Apart huge page := by
    decide +kernel
  rw [List.pairwise_append]
  refine ⟨by decide, apart_of_nodup ?_, ?_⟩
  · rw [List.nodup_append']
    refine ⟨Page.rangeInclusive_nodup _ _, distinct, ?_⟩
    intro page onStack inRest
    exact offStack page inRest onStack
  · intro left ofWindow right small
    obtain ⟨huge, listed, rfl⟩ := List.mem_map.mp ofWindow
    obtain ⟨page, member, rfl⟩ := List.mem_map.mp small
    rcases List.mem_append.mp member with onStack | inRest
    · exact windowOffStack huge listed page onStack
    · exact offWindow huge listed page inRest

/-- Less than 1 GiB of memory is seen through one page. -/
theorem windowFrames_small {mem : Nat} (small : mem < 2 ^ 30) :
    windowFrames mem = windowFrames 0 := by
  have physical : mem < 2 ^ 52 := by omega
  have created :
      PhysAddr.new mem = .ok ⟨mem, physical⟩ := PhysAddr.new_eq_ok.mpr rfl
  have first :
      (PhysFrame.containingAddress ⟨mem, physical⟩ : PhysFrame .size1GiB) =
        ⟨0⟩ := by
    unfold PhysFrame.containingAddress PageSize.bytes
    rw [Nat.div_eq_of_lt (by omega)]
  unfold windowFrames
  rw [created]
  simp only [bind, Except.bind, first]
  rfl

theorem bootWindow_valid : ValidWindow 0 where
  frames := by decide
  pages := by decide

theorem kernelFromElf_returns_small {elf : ElfFile} {mem : Nat}
    (loadable : Loadable elf) (small : mem < 2 ^ 30) :
    ∃ process final,
      (kernelFromElf bootDescriptors elf 0x200000 0x200000 mem).run
        bootMachine = .ok process final := by
  have code : kernelCodeFrames bootDescriptors = .ok [⟨0x100⟩] := by
    decide
  have stack : kernelStackFrames 0x200000 0x200000 = .ok [⟨0x200⟩] := by
    decide
  have window : ValidWindow mem := by
    constructor
    · rw [windowFrames_small small]
      exact bootWindow_valid.frames
    · rw [windowFrames_small small]
      exact bootWindow_valid.pages
  have pages : windowPages mem = windowPages 0 := by
    rw [windowPages, windowFrames_small small, windowPages]
  apply kernelFromElf_returns window code stack (by decide) (by decide)
    loadable
  · apply free_of_empty (RadixTable.new_empty _)
    rw [kernelReserved, kernelSmallPages, code, stack, pages]
    apply bootPages_apart <;> decide
  · intro index _
    simp [bootMachine, Machine.start]

theorem kernelFromElf_returns_boot {elf : ElfFile} (loadable : Loadable elf) :
    ∃ process final,
      (kernelFromElf bootDescriptors elf 0x200000 0x200000 0).run
        bootMachine = .ok process final :=
  kernelFromElf_returns_small loadable (by decide)

/-- When all of its pages are free and the active table translates the pages
of the kernel, `from_elf` returns or stops because the allocator runs out. -/
theorem fromElf_completes
    (window : ValidWindow mem)
    (stack :
      kernelStackFrames kernelStackStart kernelStackEnd = .ok stackFrames)
    (stackLow : ∀ frame ∈ stackFrames, frame.startAddress < 2 ^ 48)
    (readable : kernel.Readable)
    (ranges :
      ∀ header ∈ kernel.loadHeaders, header.segmentPages = .ok header.pages)
    (translates :
      ∀ page ∈ kernelPages kernel,
        ∃ frame, translatePage state.current page = some frame)
    (loadable : Loadable elf)
    (free :
      Free state
        (userReserved kernelStackStart kernelStackEnd mem ++
          ((kernelPages kernel).map smallPage ++
            (turns elf).map fun turn => smallPage turn.page))) :
    (∃ process final,
      (fromElf elf kernel kernelStackStart kernelStackEnd mem).run state =
        .ok process final) ∨
    ∃ fault final,
      (fromElf elf kernel kernelStackStart kernelStackEnd mem).run state =
        .error fault final ∧
      state.allocator.Answered final.allocator none := by
  rw [fromElf_eq]
  rcases completes_userSetup window stack stackLow free with
    ⟨ready, setupRun, freeReady⟩ | ⟨fault, final, stopped, out⟩
  · have same : SameCurrent state ready :=
      (preserves_userSetup _ _ _).of_run_ok setupRun
    have grown : Grows state ready :=
      (preserves_userSetup _ _ _).of_run_ok setupRun
    rw [← same] at translates
    obtain ⟨kernelHeader, kernelRead⟩ := ElfFile.header_of_readable readable
    rw [bind_run_of_ok _ setupRun, kernelRead,
      bind_run_of_ok _ (ofExcept_run (.ok kernelHeader) ready)]
    rcases completes_mapKernel readable ranges translates freeReady with
      ⟨loaded, kernelRun, freeLoaded⟩ | ⟨fault, final, stopped, out⟩
    · have grown : Grows state loaded :=
        grown.trans ((preserves_mapKernel kernel).of_run_ok kernelRun)
      have looping :
          Completes (loadSegments elf tolerateMapped) loaded [] :=
        completes_loadSegments rfl loadable (by simpa using freeLoaded)
      obtain ⟨header, read⟩ := ElfFile.header_of_readable loadable.readable
      rw [bind_run_of_ok _ kernelRun, read,
        bind_run_of_ok _ (ofExcept_run (.ok header) loaded)]
      rcases looping with ⟨final, looped, _⟩ | ⟨fault, final, stopped, out⟩
      · rw [bind_run_of_ok _ looped]
        exact Or.inl ⟨_, final, makeProcess_run header final⟩
      · rw [bind_run, stopped]
        exact Or.inr ⟨fault, final, rfl, out.later grown.advances⟩
    · rw [bind_run, stopped]
      exact Or.inr ⟨fault, final, rfl, out.later grown.advances⟩
  · rw [bind_run, stopped]
    exact Or.inr ⟨fault, final, rfl, out⟩

/-- A machine that has booted, with frames from 128 MiB on still to be
given. -/
def bootedMachine (current : RadixTable) : Machine RadixTable RadixTable :=
  Machine.start (RadixTable.new ⟨0x802⟩) current
    ⟨fun index => some ⟨0x8000 + index⟩, 0⟩ 0

theorem userSetup_returns_booted (current : RadixTable) :
    ∃ ready,
      (userSetup 0x200000 0x200000 0).run (bootedMachine current) =
        .ok () ready := by
  have stack : kernelStackFrames 0x200000 0x200000 = .ok [⟨0x200⟩] := by
    decide
  have free :
      Free (bootedMachine current)
        (userReserved 0x200000 0x200000 0 ++ []) := by
    apply free_of_empty (RadixTable.new_empty _)
    rw [userReserved, userSmallPages, stack, List.append_nil]
    apply bootPages_apart <;> decide
  rcases completes_userSetup bootWindow_valid stack (by decide) free with
    ⟨ready, returned, _⟩ | ⟨_, _, _, index, _, _, out⟩
  · exact ⟨ready, returned⟩
  · cases out

end Loaders

/-! ## A kernel and a program of one page each -/

def residentHeader : ProgramHeader :=
  ⟨.load, 0, 0x800000, 1, 1⟩

def residentElf : ElfFile :=
  ElfFile.layOut 0x800000 [residentHeader] []

theorem residentTable : LoadTable 0x800000 [residentHeader] [] := by
  decide

def guestHeader : ProgramHeader :=
  ⟨.load, 0, 0x400000, 1, 1⟩

def guestElf : ElfFile :=
  ElfFile.layOut 0x400000 [guestHeader] []

theorem guestTable : LoadTable 0x400000 [guestHeader] [] := by
  decide

theorem kernelPages_residentElf : kernelPages residentElf = [⟨0x800⟩] := by
  unfold kernelPages residentElf
  rw [ElfFile.loadHeaders_layOut residentTable]
  rfl

end RustKernel.Loader
