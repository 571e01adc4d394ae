import RustKernel.Foundations.Run
import RustKernel.Machine.Address

/-!
# The firmware memory map

The descriptors that `get_memory_map` fills in, the predicate that selects
the memory the kernel may use, and the size estimate from which the direct
window onto physical memory is dimensioned.
-/

namespace RustKernel.Memory

open RustKernel.Foundations
open RustKernel.Machine

/-- `efi::MemoryType`. -/
inductive MemoryType where
  | reserved
  | loaderCode
  | loaderData
  | bootServicesCode
  | bootServicesData
  | runtimeServicesCode
  | runtimeServicesData
  | conventional
  | unusable
  | acpiReclaim
  | acpiNvs
  | memoryMappedIo
  | memoryMappedIoPortSpace
  | palCode
  | persistentMemory
  | maxMemoryType
  deriving DecidableEq, Repr

/-- `MemoryType::is_usable`. -/
def MemoryType.isUsable : MemoryType → Bool
  | .bootServicesCode => true
  | .conventional => true
  | _ => false

/-- `efi::MemoryDescriptor`; `size` counts 4 KiB pages. -/
structure MemoryDescriptor where
  memoryType : MemoryType
  physicalAddress : Nat
  virtualAddress : Nat
  size : Nat
  deriving DecidableEq, Repr

namespace MemoryDescriptor

/-- The descriptor passes the filter of the frame allocator. -/
def isUsable (descriptor : MemoryDescriptor) : Bool :=
  descriptor.memoryType.isUsable

/-- The first address after the described memory. -/
def endAddress (descriptor : MemoryDescriptor) : Nat :=
  descriptor.physicalAddress + descriptor.size * 4096

/-- The descriptor describes the byte at `address`. -/
def Covers (descriptor : MemoryDescriptor) (address : Nat) : Prop :=
  descriptor.physicalAddress ≤ address ∧ address < descriptor.endAddress

/-- Two descriptors describe no common byte. -/
def Apart (left right : MemoryDescriptor) : Prop :=
  ∀ address, ¬ (left.Covers address ∧ right.Covers address)

theorem apart_iff {left right : MemoryDescriptor} :
    left.Apart right ↔
      left.size = 0 ∨ right.size = 0 ∨
        left.endAddress ≤ right.physicalAddress ∨
        right.endAddress ≤ left.physicalAddress := by
  unfold Apart Covers endAddress
  constructor
  · intro apart
    have atLeft := apart left.physicalAddress
    have atRight := apart right.physicalAddress
    omega
  · intro separated address
    omega

instance (left right : MemoryDescriptor) : Decidable (left.Apart right) :=
  decidable_of_iff _ apart_iff.symm

/-- The entry at which the size computation stops reading the map. -/
def isPadding (descriptor : MemoryDescriptor) : Bool :=
  descriptor.physicalAddress == 0 && descriptor.virtualAddress == 0 &&
    descriptor.size == 0

end MemoryDescriptor

/-- `efi::MemoryMap`. -/
abbrev MemoryMap := List MemoryDescriptor

/-- The descriptors from which frames are taken, in map order. -/
def usableDescriptors (map : MemoryMap) : List MemoryDescriptor :=
  map.filter MemoryDescriptor.isUsable

theorem mem_usableDescriptors
    {map : MemoryMap} {descriptor : MemoryDescriptor} :
    descriptor ∈ usableDescriptors map ↔
      descriptor ∈ map ∧ descriptor.isUsable = true := by
  simp [usableDescriptors]

/-- The loop of `get_mem_size`, with `all` the size counted so far. -/
def getMemSizeFrom : MemoryMap → Nat → Except Panic Nat
  | [], all => .ok all
  | descriptor :: rest, all =>
      if descriptor.isPadding then
        .ok all
      else do
        let bytes ← checkedMul descriptor.size 4096
        let all ← checkedAdd all bytes
        getMemSizeFrom rest all

/-- `get_mem_size`. -/
def getMemSize (map : MemoryMap) : Except Panic Nat :=
  getMemSizeFrom map 0

/-- The bytes described before the first padding entry. -/
def describedBytes (map : MemoryMap) : Nat :=
  ((map.takeWhile fun descriptor => !descriptor.isPadding).map
    fun descriptor => descriptor.size * 4096).sum

theorem getMemSizeFrom_eq_ok :
    ∀ {map : MemoryMap} {all total : Nat},
      getMemSizeFrom map all = .ok total →
        total = all + describedBytes map
  | [], all, total, computed => by
      cases computed
      simp [describedBytes]
  | descriptor :: rest, all, total, computed => by
      by_cases padding : descriptor.isPadding = true
      · simp only [getMemSizeFrom, padding] at computed
        cases computed
        simp [describedBytes, padding]
      · simp only [getMemSizeFrom, padding] at computed
        obtain ⟨bytes, multiplied, computed⟩ :=
          except_bind_eq_ok.mp computed
        obtain ⟨next, added, computed⟩ := except_bind_eq_ok.mp computed
        have total_eq := getMemSizeFrom_eq_ok computed
        have bytes_eq := (checkedMul_eq_ok.mp multiplied).2
        have next_eq := (checkedAdd_eq_ok.mp added).2
        simp only [Bool.not_eq_true] at padding
        simp only [describedBytes, padding, List.takeWhile_cons,
          Bool.not_false, if_true, List.map_cons, List.sum_cons]
        simp only [describedBytes] at total_eq
        omega

/-- When it returns, `get_mem_size` is the number of described bytes. -/
theorem getMemSize_eq_ok {map : MemoryMap} {total : Nat}
    (computed : getMemSize map = .ok total) :
    total = describedBytes map := by
  simpa using getMemSizeFrom_eq_ok computed

end RustKernel.Memory
