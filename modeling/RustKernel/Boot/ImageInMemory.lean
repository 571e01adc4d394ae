import RustKernel.Boot.KernelStart
import RustKernel.Kernel.ProcessMemory

/-!
# The input files in memory

The generator packs the files, the loader takes the first one for the kernel,
and the kernel takes the second one for its driver.  What is read at the
addresses of their segments are the bytes of the files that the generator was
given, the kernel's from its start on and the driver's from its loading on.
-/

namespace RustKernel.Boot

open RustKernel.BootImage
open RustKernel.Foundations
open RustKernel.Kernel
open RustKernel.Loader
open RustKernel.Machine
open RustKernel.Memory
open RustKernel.Paging
open PageTableFrameAllocator

section Start

variable {T C : Type} [StoredMapper T] [Mapper C]
variable [LawfulMapper T] [LawfulStoredMapper T]
variable {kernel : ElfFile} {start final : Machine T C}
variable {allocator : FrameAllocator}

/-- The kernel reads its own file through its table, whatever it has done
since it was started. -/
theorem kernel_stays (resident : KernelResident kernel start final)
    (booted : (kernelSpaces final.table allocator).Booted kernel)
    (once : NeverTwice allocator.answers) {spaces : AddressSpaces T T}
    (run :
      Relation.ReflTransGen
        (SpaceStep kernel (AddressSpaces.residentFrames kernel final.table))
        (kernelSpaces final.table allocator) spaces) :
    ShowsFile kernel spaces.current fun memory =>
      spaces.contents (final.contents memory) := by
  intro header member index inFile canonical
  obtain ⟨page, inRange, frame, translated, inPage, bytes⟩ :=
    resident.image header member index inFile canonical
  have begun :
      translatePage (kernelSpaces final.table allocator).current page =
        some frame :=
    translated
  obtain ⟨flags, leaf⟩ :=
    translatePage_eq_some.mp
      ((booted.separate once).translates run begun)
  refine ⟨_, translateAddr_of_leaf leaf inPage, ?_⟩
  intro memory
  have inside :
      frame.Holds
        (frame.startAddress +
          (header.virtualAddress + index) % 2 ^ 48 % 4096) := by
    simp only [PhysFrame.Holds, PageSize.bytes]
    omega
  have held :
      frame ∈ frameHoldings
        (AddressSpaces.residentFrames kernel final.table)
        (kernelSpaces final.table allocator).current
        (kernelSpaces final.table allocator).tables .resident :=
    ⟨page, List.mem_flatMap.mpr ⟨header, member, inRange⟩, translated⟩
  have stays :=
    (booted.separate once).keeps_bytes run
      (by simp : FrameOwner.resident ≠ .active) held (final.contents memory)
      inside
  exact (bytes memory).trans (congrArg some stays.symm)

end Start

section Files

variable {T C : Type} [StoredMapper T] [StoredMapper C]

/-- A loader that has jumped has found the first file, and the kernel finds
it again and the second one. -/
theorem BootRun.takes_files (boot : BootRun T C)
    {first second : List Char × List UInt8}
    {others : List (List Char × List UInt8)} {output : OutputFile}
    (few : (first :: second :: others).length ≤ maxFiles)
    (someBytes : first.2 ≠ [])
    (fits :
      contentStart +
          (allContents ((first :: second :: others).map inputFile)).length <
        2 ^ 32)
    (generated :
      generate ((first :: second :: others).map inputFile) = .ok output)
    (packed : boot.bootImage = ⟨output.contents⟩) :
    boot.kernel = ⟨first.2⟩ ∧
      startFiles boot.bootImage = .ok (⟨first.2⟩, ⟨second.2⟩) := by
  have generates :
      ∃ again,
        generate ((first :: second :: others).map inputFile) = .ok again ∧
        Lists ⟨again.contents⟩
          (plannedHeaders ((first :: second :: others).map inputFile)
            contentStart)
          (((first :: second :: others).map inputFile).map
            InputFile.contents) :=
    lists_generate (by simpa using few) someBytes fits
  obtain ⟨again, sameInputs, lists⟩ := generates
  rw [generated] at sameInputs
  cases sameInputs
  have found := boot.found
  rw [packed, lists.findKernel, except_bind_eq_ok] at found
  obtain ⟨texts, names, kept⟩ := found
  constructor
  · exact (Option.some.inj (Except.ok.inj kept)).symm
  · rw [packed, lists.startFiles, names]
    rfl

variable [LawfulMapper T] [LawfulMapper C]
variable [LawfulStoredMapper T] [LawfulStoredMapper C]

end Files

end RustKernel.Boot
