import RustKernel.Foundations.Run
import RustKernel.Paging.RadixTable

/-!
# Accesses to the PCI configuration space

A configuration access forms an address in the window at `CONFIG_SPACE`, maps
the page of that address on demand and dereferences it.  The address is formed
from the function that is meant, while the page is mapped to the first frame
of the segment, so that every page of a segment shows its first function.

The table of segments comes from the firmware; it is a list of segments here.
What a read returns is up to the device and is left out: an access is known by
the address that it dereferences.
-/

namespace RustKernel.Kernel

open RustKernel.Foundations
open RustKernel.Machine
open RustKernel.Paging

/-- An entry of `MCFG`. -/
structure Segment where
  address : Nat
  busStart : UInt8
  deriving DecidableEq, Repr

structure Pci where
  mcfg : Option (List Segment)

/-- `CONFIG_SPACE`. -/
def configSpace : Nat := sizeTb 1

/-- `a - b` on an unsigned type. -/
def checkedSub (left right : Nat) : Except Panic Nat :=
  if right ≤ left then .ok (left - right) else .error .overflow

theorem checkedSub_eq_ok {left right difference : Nat} :
    checkedSub left right = .ok difference ↔
      right ≤ left ∧ difference = left - right := by
  by_cases fits : right ≤ left
  · simp [checkedSub, fits, eq_comm]
  · simp [checkedSub, fits]

inductive Width where
  | u8
  | u16
  | u32
  deriving DecidableEq, Repr

/-- A volatile access through a pointer; a write has its value. -/
structure Dereference where
  width : Width
  address : Nat
  written : Option Nat
  deriving DecidableEq, Repr

/-- The active table, the frame allocator and the accesses made so far. -/
structure ConfigMachine (T : Type) where
  table : T
  allocator : FrameAllocator
  dereferenced : List Dereference

/-- The word of a virtual address, with bit 47 extended. -/
def rawAddress (address : VirtAddr) : Nat :=
  if address.low48 < 2 ^ 47 then
    address.low48
  else
    address.low48 + (2 ^ 64 - 2 ^ 48)

section Mapping

variable {T : Type} [Mapper T]

/-- `map_to` has been called on the active table. -/
def ConfigMachine.mapped {size : PageSize} (page : Page size)
    (frame : PhysFrame size) (state : ConfigMachine T) : ConfigMachine T :=
  let outcome :=
    mapTo page frame ⟨true, true, false⟩ state.table state.allocator
  { state with table := outcome.table, allocator := outcome.allocator }

/-- The loop of `map_virt`. -/
def mapPairs {size : PageSize} :
    List (PhysFrame size × Page size) →
      EStateM Panic (ConfigMachine T) (Except (MapToError size) Unit)
  | [] => return .ok ()
  | (frame, page) :: pairs => do
      let answer ← modifyGet fun state =>
        ((mapTo page frame ⟨true, true, false⟩ state.table
            state.allocator).result,
          state.mapped page frame)
      match answer with
      | .ok _ => mapPairs pairs
      | .error reason => return .error reason

/-- `map_virt`. -/
def mapVirt (size : PageSize) (phys : PhysAddr) (virt : VirtAddr)
    (length : Nat) :
    EStateM Panic (ConfigMachine T) (Except (MapToError size) Unit) := do
  let physSum ← MonadExcept.ofExcept (checkedAdd phys.value length)
  let physEnd ← MonadExcept.ofExcept (PhysAddr.new physSum)
  let virtSum ← MonadExcept.ofExcept (checkedAdd (rawAddress virt) length)
  let virtEnd ← MonadExcept.ofExcept (VirtAddr.new virtSum)
  mapPairs
    ((PhysFrame.rangeInclusive (PhysFrame.containingAddress phys)
        (PhysFrame.containingAddress physEnd)).zip
      (Page.rangeInclusive (Page.containingAddress virt)
        (Page.containingAddress virtEnd)))

end Mapping

namespace Pci

/-- `self.mcfg.unwrap()[index]`. -/
def segmentAt (pci : Pci) (index : Nat) : Except Panic Segment :=
  match pci.mcfg with
  | none => .error .unwrap
  | some segments =>
      match segments[index]? with
      | none => .error .sliceIndex
      | some segment => .ok segment

/-- `PCI::form_address`. -/
def formAddress (pci : Pci) (address bus : Nat) (device function : UInt8)
    (offset : UInt16) : Except Panic Nat := do
  let segment ← pci.segmentAt 0
  let address ← checkedAdd address
    (bus <<< 20 ||| device.toNat <<< 15 ||| function.toNat <<< 12 |||
      offset.toNat &&& 0xFFF)
  let relative ← checkedSub address segment.address
  checkedAdd relative configSpace

/-- `PCI::form_address_mut`. -/
def formAddressMut (pci : Pci) (address bus : Nat) (device function : UInt8)
    (offset : UInt16) : Except Panic Nat :=
  pci.formAddress address bus device function offset

section Accesses

variable {T : Type} [Mapper T]

/-- `PCI::map_address`; the result of `map_virt` is not looked at. -/
def mapAddress (pci : Pci) (segment : UInt16) (bus device function : UInt8) :
    EStateM Panic (ConfigMachine T) Unit := do
  let seg ← MonadExcept.ofExcept (pci.segmentAt segment.toNat)
  let relative ←
    MonadExcept.ofExcept (checkedSub bus.toNat seg.busStart.toNat)
  let address ←
    MonadExcept.ofExcept
      (pci.formAddress seg.address relative device function 0)
  let phys ← MonadExcept.ofExcept (PhysAddr.new seg.address)
  let virt ← MonadExcept.ofExcept (VirtAddr.new address)
  let _ ← mapVirt .size4KiB phys virt 4095

/-- The body of the six accesses, which differ in how the address is formed
and in what is done with it. -/
def access (pci : Pci)
    (form : Nat → Nat → UInt8 → UInt8 → UInt16 → Except Panic Nat)
    (width : Width) (written : Option Nat)
    (segment : UInt16) (bus device function : UInt8) (offset : UInt16) :
    EStateM Panic (ConfigMachine T) Unit := do
  let seg ← MonadExcept.ofExcept (pci.segmentAt segment.toNat)
  let relative ←
    MonadExcept.ofExcept (checkedSub bus.toNat seg.busStart.toNat)
  let address ←
    MonadExcept.ofExcept (form seg.address relative device function offset)
  pci.mapAddress segment bus device function
  modify fun state =>
    { state with
      dereferenced := state.dereferenced ++ [⟨width, address, written⟩] }

def readU8 (pci : Pci) (segment : UInt16) (bus device function : UInt8)
    (offset : UInt16) : EStateM Panic (ConfigMachine T) Unit :=
  pci.access pci.formAddress .u8 none segment bus device function offset

def readU16 (pci : Pci) (segment : UInt16) (bus device function : UInt8)
    (offset : UInt16) : EStateM Panic (ConfigMachine T) Unit :=
  pci.access pci.formAddress .u16 none segment bus device function offset

def readU32 (pci : Pci) (segment : UInt16) (bus device function : UInt8)
    (offset : UInt16) : EStateM Panic (ConfigMachine T) Unit :=
  pci.access pci.formAddress .u32 none segment bus device function offset

def writeU8 (pci : Pci) (segment : UInt16) (bus device function : UInt8)
    (offset : UInt16) (value : UInt8) :
    EStateM Panic (ConfigMachine T) Unit :=
  pci.access pci.formAddressMut .u8 (some value.toNat) segment bus device
    function offset

def writeU16 (pci : Pci) (segment : UInt16) (bus device function : UInt8)
    (offset : UInt16) (value : UInt16) :
    EStateM Panic (ConfigMachine T) Unit :=
  pci.access pci.formAddressMut .u16 (some value.toNat) segment bus device
    function offset

def writeU32 (pci : Pci) (segment : UInt16) (bus device function : UInt8)
    (offset : UInt16) (value : UInt32) :
    EStateM Panic (ConfigMachine T) Unit :=
  pci.access pci.formAddressMut .u32 (some value.toNat) segment bus device
    function offset

end Accesses

end Pci

/-! ## Histories of accesses -/

inductive Operation where
  | readU8
  | readU16
  | readU32
  | writeU8 (value : UInt8)
  | writeU16 (value : UInt16)
  | writeU32 (value : UInt32)
  deriving DecidableEq, Repr

structure Access where
  operation : Operation
  segment : UInt16
  bus : UInt8
  device : UInt8
  function : UInt8
  offset : UInt16
  deriving DecidableEq, Repr

def Operation.width : Operation → Width
  | .readU8 | .writeU8 _ => .u8
  | .readU16 | .writeU16 _ => .u16
  | .readU32 | .writeU32 _ => .u32

def Operation.written : Operation → Option Nat
  | .readU8 | .readU16 | .readU32 => none
  | .writeU8 value => some value.toNat
  | .writeU16 value => some value.toNat
  | .writeU32 value => some value.toNat

namespace Access

def perform {T : Type} [Mapper T] (pci : Pci) (access : Access) :
    EStateM Panic (ConfigMachine T) Unit :=
  let ⟨operation, segment, bus, device, function, offset⟩ := access
  match operation with
  | .readU8 => pci.readU8 segment bus device function offset
  | .readU16 => pci.readU16 segment bus device function offset
  | .readU32 => pci.readU32 segment bus device function offset
  | .writeU8 value => pci.writeU8 segment bus device function offset value
  | .writeU16 value => pci.writeU16 segment bus device function offset value
  | .writeU32 value => pci.writeU32 segment bus device function offset value

theorem perform_eq {T : Type} [Mapper T] (pci : Pci) (access : Access) :
    (access.perform pci : EStateM Panic (ConfigMachine T) Unit) =
      pci.access pci.formAddress access.operation.width
        access.operation.written access.segment access.bus access.device
        access.function access.offset := by
  cases access with
  | mk operation segment bus device function offset =>
      cases operation <;> rfl

/-- The number of the function in a segment that begins at a bus. -/
def functionIndex (access : Access) (busStart : UInt8) : Nat :=
  (access.bus.toNat - busStart.toNat) <<< 8 ||| access.device.toNat <<< 3 |||
    access.function.toNat

end Access

/-! ## The bits of an address -/

theorem functionBits_eq (bus device function : Nat) {offset : Nat}
    (inPage : offset < 4096) :
    (bus <<< 20 ||| device <<< 15 ||| function <<< 12 ||| offset) =
      (bus <<< 8 ||| device <<< 3 ||| function) * 4096 + offset := by
  have busShift : bus <<< 20 = bus <<< 8 <<< 12 := Nat.shiftLeft_add bus 8 12
  have deviceShift : device <<< 15 = device <<< 3 <<< 12 :=
    Nat.shiftLeft_add device 3 12
  rw [busShift, deviceShift, ← Nat.shiftLeft_or_distrib,
    ← Nat.shiftLeft_or_distrib,
    ← Nat.shiftLeft_add_eq_or_of_lt (i := 12) inPage, Nat.shiftLeft_eq]

theorem functionIndex_lt (access : Access) (busStart : UInt8) :
    access.functionIndex busStart < 2 ^ 16 := by
  have bus := access.bus.toNat_lt
  have device := access.device.toNat_lt
  have function := access.function.toNat_lt
  unfold Access.functionIndex
  apply Nat.or_lt_two_pow
  · apply Nat.or_lt_two_pow
    · rw [Nat.shiftLeft_eq]
      omega
    · rw [Nat.shiftLeft_eq]
      omega
  · omega

theorem functionIndex_eq_zero {access : Access} {busStart : UInt8}
    (inSegment : busStart.toNat ≤ access.bus.toNat) :
    access.functionIndex busStart = 0 ↔
      access.bus = busStart ∧ access.device = 0 ∧ access.function = 0 := by
  unfold Access.functionIndex
  rw [Nat.or_eq_zero_iff, Nat.or_eq_zero_iff, Nat.shiftLeft_eq_zero_iff,
    Nat.shiftLeft_eq_zero_iff]
  constructor
  · rintro ⟨⟨bus, device⟩, function⟩
    refine ⟨UInt8.toNat_inj.mp (by omega), ?_, ?_⟩
    · exact UInt8.toNat_inj.mp device
    · exact UInt8.toNat_inj.mp function
  · rintro ⟨bus, device, function⟩
    rw [bus, device, function]
    exact ⟨⟨Nat.sub_self _, rfl⟩, rfl⟩

/-! ## One access -/

section Runs

variable {T : Type} [Mapper T]

omit [Mapper T] in
/-- Adding to an address adds to its low bits. -/
theorem virtEnd_exists {virt : VirtAddr} {length : Nat}
    (fits : virt.low48 + length < 2 ^ 48) :
    ∃ sum virtEnd,
      checkedAdd (rawAddress virt) length = .ok sum ∧
        VirtAddr.new sum = .ok virtEnd ∧
        virtEnd.low48 = virt.low48 + length := by
  by_cases lower : virt.low48 < 2 ^ 47
  · refine ⟨virt.low48 + length, ⟨virt.low48 + length, fits⟩, ?_, ?_, rfl⟩
    · rw [checkedAdd_eq_ok, rawAddress, if_pos lower, wordSize]
      omega
    · rw [VirtAddr.new, dif_pos fits]
  · have low :
        (virt.low48 + (2 ^ 64 - 2 ^ 48) + length) % 2 ^ 48 =
          virt.low48 + length := by
      omega
    refine ⟨virt.low48 + (2 ^ 64 - 2 ^ 48) + length,
      ⟨_, Nat.mod_lt _ (by decide)⟩, ?_, ?_, low⟩
    · rw [checkedAdd_eq_ok, rawAddress, if_neg lower, wordSize]
      omega
    · rw [VirtAddr.new, dif_neg (by omega), if_pos (by omega)]

omit [Mapper T] in
theorem physEnd_of_aligned {phys : PhysAddr} (aligned : 4096 ∣ phys.value) :
    ∃ physEnd,
      checkedAdd phys.value 4095 = .ok (phys.value + 4095) ∧
        PhysAddr.new (phys.value + 4095) = .ok physEnd ∧
        physEnd.value = phys.value + 4095 := by
  have inRange := phys.inRange
  have fits : phys.value + 4095 < 2 ^ 52 := by omega
  refine ⟨⟨phys.value + 4095, fits⟩, ?_, ?_, rfl⟩
  · rw [checkedAdd_eq_ok, wordSize]
    omega
  · rw [PhysAddr.new_eq_ok]

/-- A page is mapped to one frame. -/
theorem mapVirt_run (phys : PhysAddr) (virt : VirtAddr)
    (physAligned : 4096 ∣ phys.value) (virtAligned : 4096 ∣ virt.low48)
    (state : ConfigMachine T) :
    ∃ answer,
      (mapVirt .size4KiB phys virt 4095).run state =
        .ok answer
          (state.mapped (⟨virt.low48 / 4096⟩ : Page .size4KiB)
            ⟨phys.value / 4096⟩) := by
  obtain ⟨physEnd, physSummed, physCreated, physLast⟩ :=
    physEnd_of_aligned physAligned
  have virtRange := virt.inRange
  have virtFits : virt.low48 + 4095 < 2 ^ 48 := by omega
  obtain ⟨virtSum, virtEnd, virtSummed, virtCreated, virtLast⟩ :=
    virtEnd_exists virtFits
  have frames :
      PhysFrame.rangeInclusive
          (PhysFrame.containingAddress phys : PhysFrame .size4KiB)
          (PhysFrame.containingAddress physEnd) =
        [⟨phys.value / 4096⟩] := by
    have count :
        (phys.value + 4095) / 4096 + 1 - phys.value / 4096 = 1 := by
      omega
    simp only [PhysFrame.rangeInclusive, PhysFrame.containingAddress,
      PageSize.bytes, physLast, count, List.range'_one, List.map_cons,
      List.map_nil]
  have pages :
      Page.rangeInclusive (Page.containingAddress virt : Page .size4KiB)
          (Page.containingAddress virtEnd) =
        [⟨virt.low48 / 4096⟩] := by
    have count :
        (virt.low48 + 4095) / 4096 + 1 - virt.low48 / 4096 = 1 := by
      omega
    simp only [Page.rangeInclusive, Page.containingAddress,
      PageSize.bytes, virtLast, count, List.range'_one, List.map_cons,
      List.map_nil]
  rw [mapVirt, physSummed, bind_run_of_ok _ (ofExcept_run (.ok _) state),
    physCreated, bind_run_of_ok _ (ofExcept_run (.ok _) state),
    virtSummed, bind_run_of_ok _ (ofExcept_run (.ok _) state),
    virtCreated, bind_run_of_ok _ (ofExcept_run (.ok _) state), frames, pages]
  rw [List.zip_cons_cons, List.zip_nil_left, mapPairs, bind_run, modifyGet_run]
  simp only
  cases
    (mapTo (⟨virt.low48 / 4096⟩ : Page .size4KiB) ⟨phys.value / 4096⟩
      ⟨true, true, false⟩ state.table state.allocator).result with
  | ok value => exact ⟨_, rfl⟩
  | error reason => exact ⟨_, rfl⟩

/-- The access goes to a function that has an address and a page. -/
structure Access.Placed (pci : Pci) (access : Access)
    (segment first : Segment) : Prop where
  listed : pci.segmentAt access.segment.toNat = .ok segment
  base : pci.segmentAt 0 = .ok first
  bus : segment.busStart.toNat ≤ access.bus.toNat
  physical : segment.address < 2 ^ 52
  above :
    first.address ≤
      segment.address + access.functionIndex segment.busStart * 4096
  below :
    segment.address + access.functionIndex segment.busStart * 4096 +
        configSpace <
      2 ^ 48 + first.address

/-- Where the window shows the function. -/
def Access.windowAddress (access : Access) (segment first : Segment) : Nat :=
  segment.address + access.functionIndex segment.busStart * 4096 -
    first.address + configSpace

omit [Mapper T] in
theorem offset_and (offset : UInt16) :
    offset.toNat &&& 0xFFF = offset.toNat % 4096 :=
  Nat.and_two_pow_sub_one_eq_mod offset.toNat 12

omit [Mapper T] in
theorem formAddress_eq_ok {pci : Pci} {access : Access} {segment : Segment}
    {offset : UInt16} {raw : Nat} :
    pci.formAddress segment.address
        (access.bus.toNat - segment.busStart.toNat) access.device
        access.function offset = .ok raw ↔
      ∃ first,
        pci.segmentAt 0 = .ok first ∧
          segment.address + (access.functionIndex segment.busStart * 4096 +
            offset.toNat % 4096) < wordSize ∧
          first.address ≤
            segment.address + (access.functionIndex segment.busStart * 4096 +
              offset.toNat % 4096) ∧
          raw =
            segment.address + (access.functionIndex segment.busStart * 4096 +
              offset.toNat % 4096) - first.address + configSpace ∧
          raw < wordSize := by
  have bits :=
    functionBits_eq (access.bus.toNat - segment.busStart.toNat)
      access.device.toNat access.function.toNat
      (Nat.mod_lt offset.toNat (by decide : 0 < 4096))
  rw [Pci.formAddress, except_bind_eq_ok, offset_and, bits]
  simp only [except_bind_eq_ok, checkedAdd_eq_ok, checkedSub_eq_ok]
  constructor
  · intro formed
    obtain ⟨first, base, _, ⟨summed, rfl⟩, _, ⟨above, rfl⟩, fits, formed⟩ :=
      formed
    refine ⟨first, base, summed, above, formed, ?_⟩
    rw [formed]
    exact fits
  · intro formed
    obtain ⟨first, base, summed, above, formed, fits⟩ := formed
    rw [formed] at fits
    exact ⟨first, base, _, ⟨summed, rfl⟩, _, ⟨above, rfl⟩, fits, formed⟩

omit [Mapper T] in
theorem Access.Placed.formAddress {pci : Pci} {access : Access}
    {segment first : Segment} (placed : access.Placed pci segment first)
    (offset : UInt16) :
    pci.formAddress segment.address
        (access.bus.toNat - segment.busStart.toNat) access.device
        access.function offset =
      .ok (access.windowAddress segment first + offset.toNat % 4096) := by
  have above := placed.above
  have below := placed.below
  have physical := placed.physical
  have index := functionIndex_lt access segment.busStart
  refine formAddress_eq_ok.mpr ⟨first, placed.base, ?_, ?_, ?_, ?_⟩
  · rw [wordSize]
    omega
  · exact Nat.le_trans above (Nat.add_le_add_left (Nat.le_add_right _ _) _)
  · rw [Access.windowAddress]
    omega
  · rw [Access.windowAddress, wordSize]
    omega

/-- The table of segments is page-aligned. -/
def Pci.Aligned (pci : Pci) : Prop :=
  ∀ index segment, pci.segmentAt index = .ok segment → 4096 ∣ segment.address

/-- The page of the window in which the function is shown. -/
def Access.page (access : Access) (segment first : Segment) :
    Page .size4KiB :=
  ⟨access.windowAddress segment first / 4096⟩

/-- The machine after the access. -/
def Access.performed (access : Access) (segment first : Segment)
    (state : ConfigMachine T) : ConfigMachine T :=
  let mapped :=
    state.mapped (access.page segment first)
      (⟨segment.address / 4096⟩ : PhysFrame .size4KiB)
  { mapped with
    dereferenced :=
      state.dereferenced ++
        [⟨access.operation.width,
          access.windowAddress segment first + access.offset.toNat % 4096,
          access.operation.written⟩] }

omit [Mapper T] in
theorem Access.Placed.windowAddress_aligned {pci : Pci} {access : Access}
    {segment first : Segment} (aligned : pci.Aligned)
    (placed : access.Placed pci segment first) :
    4096 ∣ access.windowAddress segment first := by
  have own := aligned _ _ placed.listed
  have base := aligned _ _ placed.base
  have above := placed.above
  unfold Access.windowAddress configSpace sizeTb
  omega

theorem Access.Placed.run {pci : Pci} {access : Access}
    {segment first : Segment} (aligned : pci.Aligned)
    (placed : access.Placed pci segment first) (state : ConfigMachine T) :
    (access.perform pci).run state =
      .ok () (access.performed segment first state) := by
  have subtracted :
      checkedSub access.bus.toNat segment.busStart.toNat =
        .ok (access.bus.toNat - segment.busStart.toNat) :=
    checkedSub_eq_ok.mpr ⟨placed.bus, rfl⟩
  have below := placed.below
  have above := placed.above
  have inRange : access.windowAddress segment first < 2 ^ 48 := by
    rw [Access.windowAddress]
    omega
  have phys :
      PhysAddr.new segment.address = .ok ⟨segment.address, placed.physical⟩ :=
    PhysAddr.new_eq_ok.mpr rfl
  have virt :
      VirtAddr.new (access.windowAddress segment first) =
        .ok ⟨access.windowAddress segment first, inRange⟩ := by
    rw [VirtAddr.new, dif_pos inRange]
  obtain ⟨answer, mapped⟩ :=
    mapVirt_run ⟨segment.address, placed.physical⟩
      ⟨access.windowAddress segment first, inRange⟩
      (aligned _ _ placed.listed) (placed.windowAddress_aligned aligned)
      state
  have formed := placed.formAddress 0
  have noOffset : (0 : UInt16).toNat % 4096 = 0 := by decide
  rw [noOffset, Nat.add_zero] at formed
  have mapping :
      (pci.mapAddress access.segment access.bus access.device
          access.function).run state =
        .ok ()
          (state.mapped (access.page segment first)
            (⟨segment.address / 4096⟩ : PhysFrame .size4KiB)) := by
    rw [Pci.mapAddress, placed.listed,
      bind_run_of_ok _ (ofExcept_run (.ok _) state), subtracted,
      bind_run_of_ok _ (ofExcept_run (.ok _) state), formed,
      bind_run_of_ok _ (ofExcept_run (.ok _) state), phys,
      bind_run_of_ok _ (ofExcept_run (.ok _) state), virt,
      bind_run_of_ok _ (ofExcept_run (.ok _) state), bind_run_of_ok _ mapped]
    rfl
  rw [access.perform_eq, Pci.access, placed.listed,
    bind_run_of_ok _ (ofExcept_run (.ok _) state), subtracted,
    bind_run_of_ok _ (ofExcept_run (.ok _) state),
    placed.formAddress access.offset,
    bind_run_of_ok _ (ofExcept_run (.ok _) state), bind_run_of_ok _ mapping,
    modify_run]
  rfl

/-- Every access that returns goes to a function with an address and a
page. -/
theorem placed_of_run_ok {pci : Pci} {access : Access}
    {state final : ConfigMachine T} {result : Unit}
    (returned : (access.perform pci).run state = .ok result final) :
    ∃ segment first, access.Placed pci segment first := by
  rw [access.perform_eq, Pci.access, bind_run_ok] at returned
  obtain ⟨segment, _, listed, returned⟩ := returned
  rw [ofExcept_run_ok] at listed
  obtain ⟨listed, rfl⟩ := listed
  rw [bind_run_ok] at returned
  obtain ⟨relative, _, subtracted, returned⟩ := returned
  rw [ofExcept_run_ok, checkedSub_eq_ok] at subtracted
  obtain ⟨⟨bus, rfl⟩, rfl⟩ := subtracted
  rw [bind_run_ok] at returned
  obtain ⟨pointer, _, formed, returned⟩ := returned
  rw [ofExcept_run_ok] at formed
  obtain ⟨_, rfl⟩ := formed
  rw [bind_run_ok] at returned
  obtain ⟨_, mapped, mapping, _⟩ := returned
  rw [Pci.mapAddress, listed,
    bind_run_of_ok _ (ofExcept_run (.ok _) state),
    checkedSub_eq_ok.mpr ⟨bus, rfl⟩,
    bind_run_of_ok _ (ofExcept_run (.ok _) state), bind_run_ok] at mapping
  obtain ⟨raw, _, formed, mapping⟩ := mapping
  rw [ofExcept_run_ok, formAddress_eq_ok] at formed
  obtain ⟨⟨first, base, summed, above, formed, _⟩, rfl⟩ := formed
  rw [bind_run_ok] at mapping
  obtain ⟨phys, _, physical, mapping⟩ := mapping
  rw [ofExcept_run_ok, PhysAddr.new_eq_ok] at physical
  obtain ⟨physical, rfl⟩ := physical
  rw [bind_run_ok] at mapping
  obtain ⟨virt, _, canonical, _⟩ := mapping
  rw [ofExcept_run_ok] at canonical
  have noOffset : (0 : UInt16).toNat % 4096 = 0 := by decide
  rw [noOffset, Nat.add_zero] at above formed
  have inRange := phys.inRange
  have index := functionIndex_lt access segment.busStart
  have bounds := VirtAddr.new_bounds canonical.1
  refine ⟨segment, first, listed, base, bus, by omega, above, ?_⟩
  unfold configSpace sizeTb at formed ⊢
  omega

end Runs

/-! ## Which access maps a page -/

/-- The physical address of the function that the access is meant for. -/
def Access.functionAddress (pci : Pci) (access : Access) : Option Nat :=
  match pci.segmentAt access.segment.toNat with
  | .error _ => none
  | .ok segment =>
      some (segment.address + access.functionIndex segment.busStart * 4096)

/-- The allocator does not run out. -/
def Supplied (allocator : FrameAllocator) : Prop :=
  ∀ index, allocator.drawn ≤ index → allocator.answers index ≠ none

theorem Supplied.later {before after : FrameAllocator}
    (supplied : Supplied before) (advances : before.Advances after) :
    Supplied after := by
  intro index drawn
  rw [advances.answers_eq]
  exact supplied index (Nat.le_trans advances.drawn_le drawn)

theorem Supplied.not_out {before after : FrameAllocator}
    (supplied : Supplied before) : ¬ before.Answered after none := by
  intro out
  obtain ⟨index, lower, _, answered⟩ := out
  exact supplied index lower answered

theorem Access.Placed.functionAddress {pci : Pci} {access : Access}
    {segment first : Segment} (placed : access.Placed pci segment first) :
    access.functionAddress pci =
      some
        (segment.address + access.functionIndex segment.busStart * 4096) := by
  rw [Access.functionAddress, placed.listed]

/-- Two accesses share a page exactly when they are meant for one function
address. -/
theorem Access.Placed.page_eq_iff {pci : Pci} {access other : Access}
    {segment otherSegment first otherFirst : Segment} (aligned : pci.Aligned)
    (placed : access.Placed pci segment first)
    (otherPlaced : other.Placed pci otherSegment otherFirst) :
    other.page otherSegment otherFirst = access.page segment first ↔
      other.functionAddress pci = access.functionAddress pci := by
  have sameFirst : otherFirst = first :=
    Except.ok.inj (otherPlaced.base.symm.trans placed.base)
  subst sameFirst
  have own := placed.windowAddress_aligned aligned
  have others := otherPlaced.windowAddress_aligned aligned
  have above := placed.above
  have otherAbove := otherPlaced.above
  rw [placed.functionAddress, otherPlaced.functionAddress, Access.page,
    Access.page, Page.mk.injEq, Option.some.injEq]
  unfold Access.windowAddress at own others ⊢
  omega

section Histories

variable {T : Type} [Mapper T] [LawfulMapper T]
variable {pci : Pci} {state final : ConfigMachine T}

theorem Access.performed_effect (access : Access) (segment first : Segment)
    (state : ConfigMachine T) :
    MapToEffect (access.page segment first)
      (⟨segment.address / 4096⟩ : PhysFrame .size4KiB) ⟨true, true, false⟩
      state.table state.allocator
      (mapTo (access.page segment first) ⟨segment.address / 4096⟩
        ⟨true, true, false⟩ state.table state.allocator) :=
  LawfulMapper.mapTo_effect state.table state.allocator _ _ _ rfl

theorem leaf_kept_by_access (aligned : pci.Aligned) {access : Access}
    {page : Page .size4KiB} {frame : PhysFrame .size4KiB} {result : Unit}
    (leaf : ∃ flags, entry state.table .size4KiB page = .leaf frame flags)
    (returned : (access.perform pci).run state = .ok result final) :
    ∃ flags, entry final.table .size4KiB page = .leaf frame flags := by
  obtain ⟨segment, first, placed⟩ := placed_of_run_ok returned
  rw [placed.run aligned state] at returned
  cases returned
  obtain ⟨flags, held⟩ := leaf
  obtain ⟨new, kept, _⟩ :=
    (access.performed_effect segment first state).leaf_kept held
  exact ⟨new, kept⟩

theorem leaf_kept_by_history (aligned : pci.Aligned)
    {accesses : List Access} {page : Page .size4KiB}
    {frame : PhysFrame .size4KiB} {result : Unit}
    (leaf : ∃ flags, entry state.table .size4KiB page = .leaf frame flags)
    (returned :
      (accesses.forM (Access.perform pci)).run state = .ok result final) :
    ∃ flags, entry final.table .size4KiB page = .leaf frame flags := by
  apply forM_invariant
    (fun state =>
      ∃ flags, entry state.table .size4KiB page = .leaf frame flags)
    _ leaf returned
  intro access _ before after held performed
  exact leaf_kept_by_access aligned held performed

/-- A page of the window is mapped by the first access to it, to the first
frame of the segment of that access. -/
theorem history_maps (aligned : pci.Aligned)
    {accesses : List Access} {target : Access} {segment first : Segment}
    {result : Unit} (placed : target.Placed pci segment first)
    (unmapped : Unmapped state.table (target.page segment first))
    (supplied : Supplied state.allocator)
    (returned :
      (accesses.forM (Access.perform pci)).run state = .ok result final) :
    (accesses.find? (fun access =>
        access.functionAddress pci == target.functionAddress pci) = none →
      Unmapped final.table (target.page segment first)) ∧
    ∀ earliest,
      accesses.find? (fun access =>
          access.functionAddress pci == target.functionAddress pci) =
        some earliest →
      ∃ own ownFirst flags,
        earliest.Placed pci own ownFirst ∧
          entry final.table .size4KiB (target.page segment first) =
            .leaf ⟨own.address / 4096⟩ flags := by
  induction accesses generalizing state with
  | nil =>
      rw [forM_nil_run_ok] at returned
      subst returned
      constructor
      · intro _
        exact unmapped
      · intro earliest found
        cases found
  | cons access rest inductionHypothesis =>
      rw [forM_cons_run_ok] at returned
      obtain ⟨middle, performed, looped⟩ := returned
      obtain ⟨own, ownFirst, ownPlaced⟩ := placed_of_run_ok performed
      have samePage := placed.page_eq_iff aligned ownPlaced
      rw [ownPlaced.run aligned state] at performed
      have effect := access.performed_effect own ownFirst state
      by_cases hit : access.functionAddress pci = target.functionAddress pci
      · rw [List.find?_cons_of_pos (by simpa using hit)]
        constructor
        · intro absent
          cases absent
        intro earliest found
        cases found
        have page := samePage.mpr hit
        rw [page] at effect
        have mapped :=
          (effect.mapped
            (effect.ok_of_unmapped unmapped supplied.not_out)).2
        rw [← page] at mapped ⊢
        have leaf :
            ∃ flags,
              entry middle.table .size4KiB (access.page own ownFirst) =
                .leaf ⟨own.address / 4096⟩ flags := by
          cases performed
          exact ⟨_, mapped⟩
        obtain ⟨flags, kept⟩ := leaf_kept_by_history aligned leaf looped
        exact ⟨own, ownFirst, flags, ownPlaced, kept⟩
      · rw [List.find?_cons_of_neg (by simpa using hit)]
        have apart :
            Apart (access.page own ownFirst) (target.page segment first) :=
          apart_iff_ne.mpr (fun page => hit (samePage.mp page))
        apply inductionHypothesis _ _ looped
        · cases performed
          exact effect.unmapped_kept unmapped apart
        · cases performed
          exact supplied.later effect.advances

/-- The access goes to the first function of its segment. -/
def Access.AtSegmentStart (pci : Pci) (access : Access) : Prop :=
  ∃ segment,
    pci.segmentAt access.segment.toNat = .ok segment ∧
      access.bus = segment.busStart ∧ access.device = 0 ∧ access.function = 0

omit [Mapper T] [LawfulMapper T] in
theorem Access.Placed.atSegmentStart_iff {access : Access}
    {segment first : Segment} (placed : access.Placed pci segment first) :
    access.AtSegmentStart pci ↔
      access.functionAddress pci = some segment.address := by
  have zero := functionIndex_eq_zero placed.bus
  rw [placed.functionAddress, Option.some.injEq]
  constructor
  · intro atStart
    obtain ⟨listed, found, origin⟩ := atStart
    have same : listed = segment :=
      Except.ok.inj (found.symm.trans placed.listed)
    subst same
    rw [zero.mpr origin]
    omega
  · intro same
    exact ⟨segment, placed.listed, zero.mp (by omega)⟩

/-- A mapped page of the window translates its canonical addresses. -/
theorem translatePointer_of_leaf (aligned : pci.Aligned) {access : Access}
    {segment first : Segment} (placed : access.Placed pci segment first)
    {table : T} {frame : PhysFrame .size4KiB} {flags : PageTableFlags}
    (leaf :
      entry table .size4KiB (access.page segment first) = .leaf frame flags)
    {offset : Nat} (inPage : offset < 4096) :
    translatePointer table (access.windowAddress segment first + offset) =
      if access.windowAddress segment first < 2 ^ 47 then
        some (frame.startAddress + offset)
      else
        none := by
  have pageAligned := placed.windowAddress_aligned aligned
  have below : access.windowAddress segment first < 2 ^ 48 := by
    have above := placed.above
    have below := placed.below
    rw [Access.windowAddress]
    omega
  by_cases lower : access.windowAddress segment first < 2 ^ 47
  · have low :
        (access.windowAddress segment first + offset) % 2 ^ 48 =
          access.windowAddress segment first + offset := by
      omega
    have last :
        (access.windowAddress segment first + offset) % 4096 = offset := by
      omega
    have canonical :
        IsCanonical (access.windowAddress segment first + offset) :=
      Or.inl (by omega)
    have inside :
        (access.windowAddress segment first + offset) / 4096 =
          (access.page segment first).number := by
      change _ = access.windowAddress segment first / 4096
      omega
    rw [translatePointer, if_pos canonical, if_pos lower, low,
      translateAddr_of_leaf leaf inside, last]
  · have notCanonical :
        ¬ IsCanonical (access.windowAddress segment first + offset) := by
      unfold IsCanonical
      omega
    rw [translatePointer, if_neg notCanonical, if_neg lower]

/-- An access reaches the function that it is meant for exactly when its
address is canonical and the first access to the page was to the first
function of a segment. -/
theorem access_reaches_iff (aligned : pci.Aligned)
    {history : List Access} {current : Access} {segment first : Segment}
    (placed : current.Placed pci segment first)
    (inPage : current.offset.toNat < 4096)
    (unmapped : Unmapped state.table (current.page segment first))
    (supplied : Supplied state.allocator)
    (ran : (history.forM (Access.perform pci)).run state = .ok () final) :
    ∃ reached pointer,
      (current.perform pci).run final = .ok () reached ∧
        reached.dereferenced =
          final.dereferenced ++
            [⟨current.operation.width, pointer,
              current.operation.written⟩] ∧
        (translatePointer reached.table pointer =
            some
              (segment.address +
                ((current.bus.toNat - segment.busStart.toNat) <<< 20 |||
                  current.device.toNat <<< 15 |||
                  current.function.toNat <<< 12 |||
                  current.offset.toNat)) ↔
          current.windowAddress segment first < 2 ^ 47 ∧
            ∀ earliest,
              (history ++ [current]).find? (fun access =>
                  access.functionAddress pci ==
                    current.functionAddress pci) =
                some earliest →
              earliest.AtSegmentStart pci) := by
  have performed := placed.run aligned final
  refine ⟨_, _, performed, rfl, ?_⟩
  have all :
      ((history ++ [current]).forM (Access.perform pci)).run state =
        .ok () (current.performed segment first final) :=
    forM_append_run_ok.mpr
      ⟨final, ran,
        forM_cons_run_ok.mpr ⟨_, performed, forM_nil_run_ok.mpr rfl⟩⟩
  have mapping := (history_maps aligned placed unmapped supplied all).2
  cases found :
      (history ++ [current]).find? (fun access =>
        access.functionAddress pci == current.functionAddress pci) with
  | none =>
      rw [List.find?_eq_none] at found
      exact absurd (by simp) (found current (by simp))
  | some earliest =>
      obtain ⟨own, ownFirst, flags, ownPlaced, leaf⟩ := mapping earliest found
      have hit : earliest.functionAddress pci = current.functionAddress pci :=
        by simpa using List.find?_some found
      have bits :=
        functionBits_eq (current.bus.toNat - segment.busStart.toNat)
          current.device.toNat current.function.toNat inPage
      have whole : own.address / 4096 * 4096 = own.address :=
        Nat.div_mul_cancel (aligned _ _ ownPlaced.listed)
      have started :
          earliest.AtSegmentStart pci ↔
            own.address =
              segment.address +
                current.functionIndex segment.busStart * 4096 := by
        rw [ownPlaced.atSegmentStart_iff, hit, placed.functionAddress,
          Option.some.injEq, eq_comm]
      rw [Nat.mod_eq_of_lt inPage,
        translatePointer_of_leaf aligned placed leaf inPage, bits]
      simp only [Option.some.injEq, forall_eq', started]
      by_cases lower : current.windowAddress segment first < 2 ^ 47
      · rw [if_pos lower, Option.some.injEq, PhysFrame.startAddress,
          PageSize.bytes, whole, Access.functionIndex]
        omega
      · rw [if_neg lower]
        constructor
        · intro absent
          cases absent
        · intro both
          exact absurd both.1 lower

end Histories

/-! ## A machine with one segment -/

def oneSegment : Pci := ⟨some [⟨0xE0000000, 0⟩]⟩

theorem oneSegment_aligned : oneSegment.Aligned := by
  intro index segment listed
  cases index with
  | zero =>
      cases listed
      decide
  | succ index => cases listed

/-- No page of the window is mapped. -/
def freshWindow : ConfigMachine RadixTable :=
  ⟨RadixTable.new ⟨0x800⟩, ⟨fun index => some ⟨0x1000 + index⟩, 0⟩, []⟩

/-- Reads the vendor of the first function of a device. -/
def vendorOf (device : UInt8) : Access :=
  ⟨.readU16, 0, 0, device, 0, 0⟩

theorem access_reaches_iff_hostBridge :
    ∃ probed reached pointer,
      ((vendorOf 0).perform oneSegment).run freshWindow = .ok () probed ∧
        ((vendorOf 0).perform oneSegment).run probed = .ok () reached ∧
        reached.dereferenced =
          probed.dereferenced ++ [⟨.u16, pointer, none⟩] ∧
        translatePointer reached.table pointer = some 0xE0000000 := by
  have placed :
      (vendorOf 0).Placed oneSegment ⟨0xE0000000, 0⟩ ⟨0xE0000000, 0⟩ := by
    constructor <;> decide
  have probing := placed.run oneSegment_aligned freshWindow
  have probe :
      ([vendorOf 0].forM (Access.perform oneSegment)).run freshWindow =
        .ok () _ :=
    forM_cons_run_ok.mpr ⟨_, probing, forM_nil_run_ok.mpr rfl⟩
  have reaches :=
    access_reaches_iff oneSegment_aligned placed (by decide)
      (unmapped_of_empty (RadixTable.new_empty _) _)
      (fun index _ => by simp [freshWindow]) probe
  obtain ⟨reached, pointer, performed, logged, translates⟩ := reaches
  refine ⟨_, reached, pointer, probing, performed, logged, ?_⟩
  apply translates.mpr
  refine ⟨by decide, ?_⟩
  intro earliest found
  cases found
  exact ⟨⟨0xE0000000, 0⟩, rfl, rfl, rfl, rfl⟩

/-- The second device of the segment is shown as the first. -/
theorem second_device_shows_first :
    ∃ reached pointer,
      ((vendorOf 1).perform oneSegment).run freshWindow = .ok () reached ∧
        reached.dereferenced = [⟨.u16, pointer, none⟩] ∧
        translatePointer reached.table pointer = some 0xE0000000 ∧
        0xE0000000 + (0 <<< 20 ||| 1 <<< 15 ||| 0 <<< 12 ||| 0) ≠
          0xE0000000 := by
  have placed :
      (vendorOf 1).Placed oneSegment ⟨0xE0000000, 0⟩ ⟨0xE0000000, 0⟩ := by
    constructor <;> decide
  have performed := placed.run oneSegment_aligned freshWindow
  have ran :
      ([vendorOf 1].forM (Access.perform oneSegment)).run freshWindow =
        .ok () _ :=
    forM_cons_run_ok.mpr ⟨_, performed, forM_nil_run_ok.mpr rfl⟩
  have mapping :=
    (history_maps oneSegment_aligned placed
      (unmapped_of_empty (RadixTable.new_empty _) _)
      (fun index _ => by simp [freshWindow]) ran).2
  obtain ⟨own, ownFirst, flags, ownPlaced, leaf⟩ :=
    mapping (vendorOf 1) (by decide)
  have same : own = ⟨0xE0000000, 0⟩ :=
    Except.ok.inj (ownPlaced.listed.symm.trans placed.listed)
  subst same
  refine ⟨_, _, performed, rfl, ?_, by decide⟩
  rw [translatePointer_of_leaf oneSegment_aligned placed leaf (by decide),
    if_pos (by decide)]
  decide

end RustKernel.Kernel
