import Mathlib.Algebra.Order.Ring.Nat
import Mathlib.Data.List.Nodup
import Mathlib.Tactic.Common

/-!
# Addresses, pages and frames

The word-level vocabulary shared by the kernel, its loader and their common
crate.  Machine words are natural numbers; the arithmetic of the source is the
checked arithmetic of its debug profile, so that an overflow is a panic.

`PhysAddr`, `VirtAddr`, `Page` and `PhysFrame` follow the types of the paging
crate that the source imports.  A canonical virtual address is determined by
its low 48 bits, and sign extension keeps the order of those bits, so a
`VirtAddr` carries them only.
-/

namespace RustKernel.Machine

/-- The ways in which the modelled code stops without returning. -/
inductive Panic where
  /-- Checked arithmetic left the range of its type. -/
  | overflow
  /-- `PhysAddr::new` was given a bit in the range 52 to 64. -/
  | physAddrInvalid
  /-- `VirtAddr::new` was given a non-canonical address. -/
  | virtAddrInvalid
  /-- `Option::unwrap` on `None` or `Result::unwrap` on `Err`. -/
  | unwrap
  /-- `expect`, `assert!` and `panic!`, with the text of the source. -/
  | message (text : String)
  /-- A slice index or range outside the slice. -/
  | sliceIndex
  /-- A raw read outside the buffer; the source has no check there. -/
  | rawRead
  /-- The processor found no page behind a pointer. -/
  | pageFault
  deriving DecidableEq, Repr

/-- The number of values of a `u64`, and of a `usize` on this target. -/
def wordSize : Nat := 2 ^ 64

/-- `a + b` on `u64` or `usize`. -/
def checkedAdd (left right : Nat) : Except Panic Nat :=
  if left + right < wordSize then .ok (left + right) else .error .overflow

/-- `a * b` on `u64` or `usize`. -/
def checkedMul (left right : Nat) : Except Panic Nat :=
  if left * right < wordSize then .ok (left * right) else .error .overflow

theorem checkedAdd_eq_ok {left right total : Nat} :
    checkedAdd left right = .ok total ↔
      left + right < wordSize ∧ total = left + right := by
  by_cases fits : left + right < wordSize
  · simp [checkedAdd, fits, eq_comm]
  · simp [checkedAdd, fits]

theorem checkedAdd_eq_error {left right : Nat} {fault : Panic}
    (stopped : checkedAdd left right = .error fault) :
    fault = .overflow := by
  unfold checkedAdd at stopped
  split at stopped
  · cases stopped
  · cases stopped
    rfl

theorem checkedMul_eq_ok {left right total : Nat} :
    checkedMul left right = .ok total ↔
      left * right < wordSize ∧ total = left * right := by
  by_cases fits : left * right < wordSize
  · simp [checkedMul, fits, eq_comm]
  · simp [checkedMul, fits]

/-- A physical address; bits 52 to 64 are zero. -/
structure PhysAddr where
  value : Nat
  inRange : value < 2 ^ 52
  deriving DecidableEq, Repr

/-- `PhysAddr::new`. -/
def PhysAddr.new (raw : Nat) : Except Panic PhysAddr :=
  if inRange : raw < 2 ^ 52 then
    .ok ⟨raw, inRange⟩
  else
    .error .physAddrInvalid

theorem PhysAddr.new_eq_ok {raw : Nat} {address : PhysAddr} :
    PhysAddr.new raw = .ok address ↔ address.value = raw := by
  unfold PhysAddr.new
  constructor
  · intro created
    split at created
    · cases created
      rfl
    · cases created
  · rintro rfl
    rw [dif_pos address.inRange]

/-- A canonical virtual address, named by its low 48 bits. -/
structure VirtAddr where
  low48 : Nat
  inRange : low48 < 2 ^ 48
  deriving DecidableEq, Repr

/-- `VirtAddr::new`: bit 47 is extended when the bits above it are clear. -/
def VirtAddr.new (raw : Nat) : Except Panic VirtAddr :=
  if inRange : raw < 2 ^ 48 then
    .ok ⟨raw, inRange⟩
  else if 2 ^ 64 - 2 ^ 47 ≤ raw ∧ raw < 2 ^ 64 then
    .ok ⟨raw % 2 ^ 48, Nat.mod_lt raw (by decide)⟩
  else
    .error .virtAddrInvalid

/-- A canonical address keeps its low 48 bits. -/
theorem VirtAddr.new_low48 {raw : Nat} {address : VirtAddr}
    (created : VirtAddr.new raw = .ok address) :
    address.low48 = raw % 2 ^ 48 := by
  unfold VirtAddr.new at created
  split at created
  · next inRange =>
      cases created
      exact (Nat.mod_eq_of_lt inRange).symm
  · split at created
    · cases created
      rfl
    · cases created

theorem VirtAddr.new_bounds {raw : Nat} {address : VirtAddr}
    (created : VirtAddr.new raw = .ok address) :
    raw < 2 ^ 48 ∨ 2 ^ 64 - 2 ^ 47 ≤ raw ∧ raw < 2 ^ 64 := by
  unfold VirtAddr.new at created
  split at created
  · next inRange => exact Or.inl inRange
  · split at created
    · next upper => exact Or.inr upper
    · cases created

theorem VirtAddr.new_eq_error {raw : Nat} {fault : Panic}
    (stopped : VirtAddr.new raw = .error fault) :
    fault = .virtAddrInvalid := by
  unfold VirtAddr.new at stopped
  split at stopped
  · cases stopped
  · split at stopped
    · cases stopped
    · cases stopped
      rfl

/-- The word is a virtual address: bits 47 to 64 agree. -/
def IsCanonical (raw : Nat) : Prop :=
  raw < 2 ^ 47 ∨ 2 ^ 64 - 2 ^ 47 ≤ raw ∧ raw < 2 ^ 64

instance (raw : Nat) : Decidable (IsCanonical raw) :=
  inferInstanceAs (Decidable (_ ∨ _))

/-- The three page sizes of the architecture. -/
inductive PageSize where
  | size4KiB
  | size2MiB
  | size1GiB
  deriving DecidableEq, Repr

/-- `PageSize::SIZE`. -/
def PageSize.bytes : PageSize → Nat
  | .size4KiB => 4096
  | .size2MiB => 4096 * 512
  | .size1GiB => 4096 * 512 * 512

theorem PageSize.bytes_pos (size : PageSize) : 0 < size.bytes := by
  cases size <;> decide

/-- A virtual page; its number is its start address divided by its size. -/
structure Page (size : PageSize) where
  number : Nat
  deriving DecidableEq, Repr

/-- A physical frame; its number is its start address divided by its size. -/
structure PhysFrame (size : PageSize) where
  number : Nat
  deriving DecidableEq, Repr

/-- `Page::containing_address`. -/
def Page.containingAddress {size : PageSize} (address : VirtAddr) :
    Page size :=
  ⟨address.low48 / size.bytes⟩

/-- `PhysFrame::containing_address`. -/
def PhysFrame.containingAddress {size : PageSize} (address : PhysAddr) :
    PhysFrame size :=
  ⟨address.value / size.bytes⟩

/-- `PhysFrame::start_address`. -/
def PhysFrame.startAddress {size : PageSize} (frame : PhysFrame size) : Nat :=
  frame.number * size.bytes

/-- The bytes of a frame. -/
def PhysFrame.Holds {size : PageSize}
    (frame : PhysFrame size) (address : Nat) : Prop :=
  frame.startAddress ≤ address ∧ address < frame.startAddress + size.bytes

instance {size : PageSize} (frame : PhysFrame size) (address : Nat) :
    Decidable (frame.Holds address) :=
  inferInstanceAs (Decidable (_ ∧ _))

theorem PhysFrame.holds_iff {size : PageSize}
    {frame : PhysFrame size} {address : Nat} :
    frame.Holds address ↔ address / size.bytes = frame.number := by
  unfold PhysFrame.Holds PhysFrame.startAddress
  rw [Nat.div_eq_iff (PageSize.bytes_pos size)]
  have positive := PageSize.bytes_pos size
  constructor
  · rintro ⟨lower, upper⟩
    exact ⟨lower, by omega⟩
  · rintro ⟨lower, upper⟩
    exact ⟨lower, by omega⟩

/-- An address lies in one frame of each size. -/
theorem PhysFrame.eq_of_holds {size : PageSize}
    {left right : PhysFrame size} {address : Nat}
    (inLeft : left.Holds address) (inRight : right.Holds address) :
    left = right := by
  rw [PhysFrame.holds_iff] at inLeft inRight
  cases left
  cases right
  simp_all

/-- `Page::range_inclusive`, as the list of pages its iterator yields. -/
def Page.rangeInclusive {size : PageSize} (first last : Page size) :
    List (Page size) :=
  (List.range' first.number (last.number + 1 - first.number)).map Page.mk

/-- `PhysFrame::range_inclusive`, as the list of frames its iterator yields. -/
def PhysFrame.rangeInclusive {size : PageSize}
    (first last : PhysFrame size) : List (PhysFrame size) :=
  (List.range' first.number (last.number + 1 - first.number)).map PhysFrame.mk

@[simp]
theorem Page.mem_rangeInclusive {size : PageSize}
    {first last page : Page size} :
    page ∈ Page.rangeInclusive first last ↔
      first.number ≤ page.number ∧ page.number ≤ last.number := by
  cases page
  simp only [Page.rangeInclusive, List.mem_map, List.mem_range'_1,
    Page.mk.injEq, exists_eq_right]
  omega

@[simp]
theorem PhysFrame.mem_rangeInclusive {size : PageSize}
    {first last frame : PhysFrame size} :
    frame ∈ PhysFrame.rangeInclusive first last ↔
      first.number ≤ frame.number ∧ frame.number ≤ last.number := by
  cases frame
  simp only [PhysFrame.rangeInclusive, List.mem_map, List.mem_range'_1,
    PhysFrame.mk.injEq, exists_eq_right]
  omega

theorem Page.rangeInclusive_nodup {size : PageSize}
    (first last : Page size) :
    (Page.rangeInclusive first last).Nodup := by
  apply List.Nodup.map
  · intro left right same
    exact Page.mk.inj same
  · exact List.nodup_range'

theorem PhysFrame.rangeInclusive_nodup {size : PageSize}
    (first last : PhysFrame size) :
    (PhysFrame.rangeInclusive first last).Nodup := by
  apply List.Nodup.map
  · intro left right same
    exact PhysFrame.mk.inj same
  · exact List.nodup_range'

/-! ## Memory regions -/

/-- `size_mb!`. -/
def sizeMb (count : Nat) : Nat := count * 1024 * 1024

/-- `size_gb!`. -/
def sizeGb (count : Nat) : Nat := count * 1024 * 1024 * 1024

/-- `size_tb!`. -/
def sizeTb (count : Nat) : Nat := count * 1024 * 1024 * 1024 * 1024

/-- `PAGE_TABLE_OFFSET`: where the kernel sees physical memory. -/
def pageTableOffset : Nat := sizeTb 10

/-- `PROCESS_STACK_ADDRESS`. -/
def processStackAddress : Nat := sizeGb 5

end RustKernel.Machine
