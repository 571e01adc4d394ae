import RustKernel.Foundations.Recording
import RustKernel.Kernel.MapVirt

/-!
# Enumeration of the PCI functions

`traverse_devices` reads the vendor of the first function of every device of
every bus of every segment, and calls back for the functions that answer.
`gather_devices` adds a device to the list of the kernel in each call.

The accesses to the configuration spaces are a parameter, so that the walk can
be run over the machine of the kernel or beside a record.  The interrupt
routing comes from the interpreter of the firmware's tables and is a parameter
as well.
-/

namespace RustKernel.Kernel

open RustKernel.Foundations
open RustKernel.Machine
open RustKernel.Paging

/-- The four numbers that name a function. -/
structure FunctionAddress where
  segment : UInt16
  bus : UInt8
  device : UInt8
  function : UInt8
  deriving DecidableEq, Repr

/-- The lexicographic order. -/
def FunctionAddress.Before (left right : FunctionAddress) : Prop :=
  left.segment < right.segment ∨
    left.segment = right.segment ∧
      (left.bus < right.bus ∨
        left.bus = right.bus ∧
          (left.device < right.device ∨
            left.device = right.device ∧ left.function < right.function))

theorem FunctionAddress.Before.ne {left right : FunctionAddress}
    (before : left.Before right) : left ≠ right := by
  intro same
  subst same
  rcases before with segment | ⟨_, bus | ⟨_, device | ⟨_, function⟩⟩⟩
  · exact UInt16.lt_irrefl _ segment
  · exact UInt8.lt_irrefl _ bus
  · exact UInt8.lt_irrefl _ device
  · exact UInt8.lt_irrefl _ function

/-- The first function of the same device. -/
def FunctionAddress.first (address : FunctionAddress) : FunctionAddress :=
  { address with function := 0 }

/-- The accesses of `PCI` that the drivers use. -/
structure ConfigAccess (σ : Type) where
  readU8 : FunctionAddress → UInt16 → EStateM Panic σ UInt8
  readU16 : FunctionAddress → UInt16 → EStateM Panic σ UInt16
  readU32 : FunctionAddress → UInt16 → EStateM Panic σ UInt32
  writeU32 : FunctionAddress → UInt16 → UInt32 → EStateM Panic σ Unit

namespace Pci

def vendorId : UInt16 := 0x00
def deviceId : UInt16 := 0x02
def subclass : UInt16 := 0x0A
def classCode : UInt16 := 0x0B
def headerType : UInt16 := 0x0E
def bar0 : UInt16 := 0x10
def intLine : UInt16 := 0x3C
def intPin : UInt16 := 0x3D

/-- `self.mcfg.unwrap()`. -/
def segments (pci : Pci) : Except Panic (List Segment) :=
  match pci.mcfg with
  | none => .error .unwrap
  | some segments => .ok segments

theorem segments_some (segments : List Segment) :
    (⟨some segments⟩ : Pci).segments = .ok segments := rfl

end Pci

/-- A range of `u8`. -/
def numbers (first count : Nat) : List UInt8 :=
  (List.range' first count).map UInt8.ofNat

section Traversal

variable {σ : Type} (config : ConfigAccess σ)
  (callback : FunctionAddress → EStateM Panic σ Unit)

/-- `PCI::check_function`. -/
def checkFunction (address : FunctionAddress) : EStateM Panic σ Unit :=
  callback address

/-- The body of the loop over the functions after the first one. -/
def checkLaterFunction (address : FunctionAddress) : EStateM Panic σ Unit := do
  let vendor ← config.readU16 address Pci.vendorId
  if vendor ≠ 0xFFFF then
    checkFunction callback address

/-- `PCI::check_device`, once the vendor of the first function is read. -/
def checkFunctions (segment : UInt16) (bus device : UInt8) (vendor : UInt16) :
    EStateM Panic σ Unit :=
  if vendor = 0xFFFF then
    return ()
  else do
    checkFunction callback ⟨segment, bus, device, 0⟩
    let headerType ← config.readU8 ⟨segment, bus, device, 0⟩ Pci.headerType
    if headerType &&& 0x80 ≠ 0 then
      (numbers 1 7).forM fun function =>
        checkLaterFunction config callback ⟨segment, bus, device, function⟩

/-- `PCI::check_device`. -/
def checkDevice (segment : UInt16) (bus device : UInt8) :
    EStateM Panic σ Unit := do
  let vendor ← config.readU16 ⟨segment, bus, device, 0⟩ Pci.vendorId
  checkFunctions config callback segment bus device vendor

/-- The buses and devices of one segment. -/
def checkSegment (segment : UInt16) : EStateM Panic σ Unit :=
  (numbers 0 256).forM fun bus =>
    (numbers 0 32).forM fun device =>
      checkDevice config callback segment bus device

/-- `PCI::traverse_devices`; the index of a segment is cut to a `u16`. -/
def traverseDevices (pci : Pci) : EStateM Panic σ Unit := do
  let segments ← MonadExcept.ofExcept pci.segments
  (List.range segments.length).forM fun index =>
    checkSegment config callback (UInt16.ofNat index)

end Traversal

/-! ## Devices -/

structure IoPortDescriptor where
  memoryRange : UInt16 × UInt16
  baseAlignment : UInt8
  decodesFullAddress : Bool
  rangeLength : UInt8
  deriving DecidableEq, Repr

inductive MemoryRangeDescriptor where
  | fixedLocation (isWritable : Bool) (baseAddress rangeLength : UInt32)
  | fixedLocation64 (isWritable : Bool) (baseAddress rangeLength : UInt64)
  deriving DecidableEq, Repr

/-- The resources of a device; `I` describes an interrupt. -/
inductive Resource (I : Type) where
  | irq (descriptor : I)
  | ioPort (descriptor : IoPortDescriptor)
  | memoryRange (descriptor : MemoryRangeDescriptor)

/-- `A` is the type of values of the firmware's tables. -/
inductive DeviceType (A : Type) where
  | pciDevice (address : FunctionAddress)
  | generic (hid : A)

structure Device (A I : Type) where
  deviceType : DeviceType A
  resource : List (Resource I)

section Bars

variable {σ I : Type}

/-- `!word + 1` on `u32`. -/
def negateU32 (word : UInt32) : Except Panic UInt32 :=
  if word = 0 then .error .overflow else .ok (~~~word + 1)

/-- `!word + 1` on `u64`. -/
def negateU64 (word : UInt64) : Except Panic UInt64 :=
  if word = 0 then .error .overflow else .ok (~~~word + 1)

/-- `left + right - 1` on `u16`. -/
def lastPort (left right : UInt16) : Except Panic UInt16 :=
  if left.toNat + right.toNat < 2 ^ 16 then
    if left + right = 0 then .error .overflow else .ok (left + right - 1)
  else
    .error .overflow

/-- `left + right` on `u64`. -/
def addU64 (left right : UInt64) : Except Panic UInt64 :=
  if left.toNat + right.toNat < 2 ^ 64 then
    .ok (left + right)
  else
    .error .overflow

/-- `BAR`. -/
structure Bar where
  data : UInt32

namespace Bar

def used (bar : Bar) : Prop := bar.data ≠ 0

def isIo (bar : Bar) : Prop := bar.data &&& 1 ≠ 0

def getAddress (bar : Bar) : UInt32 := bar.data &&& 0xFFFFFFF0

def getIo (bar : Bar) : UInt32 := bar.data &&& 0xFFFFFFFC

def is64bit (bar : Bar) : Prop := bar.data >>> 1 &&& 3 = 2

instance (bar : Bar) : Decidable bar.used :=
  inferInstanceAs (Decidable (bar.data ≠ 0))

instance (bar : Bar) : Decidable bar.isIo :=
  inferInstanceAs (Decidable (bar.data &&& 1 ≠ 0))

instance (bar : Bar) : Decidable bar.is64bit :=
  inferInstanceAs (Decidable (bar.data >>> 1 &&& 3 = 2))

/-- The ports of a register whose length reads back as `barl`. -/
def ioPort (bar : Bar) (barl : UInt32) : Except Panic (Resource I) := do
  let negated ← negateU32 (barl &&& 0xFFFFFFFC)
  let last ← lastPort bar.getIo.toUInt16 negated.toUInt16
  return .ioPort ⟨(bar.getIo.toUInt16, last), 1, false,
    negated.toUInt16.toUInt8⟩

/-- The memory of a pair of registers. -/
def memory64 (bar nar : Bar) (barl narl : UInt32) :
    Except Panic (Resource I) := do
  let length ← negateU32 (barl &&& 0xFFFFFFF0)
  let nlength ← negateU64 (narl.toUInt64 &&& 0xFFFFFFF0)
  let rangeLength ← addU64 length.toUInt64 nlength
  return .memoryRange
    (.fixedLocation64 true
      (bar.getAddress.toUInt64 + nar.getAddress.toUInt64 <<< 32) rangeLength)

def memory32 (bar : Bar) (barl : UInt32) : Except Panic (Resource I) := do
  let length ← negateU32 (barl &&& 0xFFFFFFF0)
  return .memoryRange (.fixedLocation true bar.getAddress length)

end Bar

variable (config : ConfigAccess σ)

/-- The register, and what it reads back after all its bits are written. -/
def probeBar (address : FunctionAddress) (offset : UInt16) :
    EStateM Panic σ (Bar × UInt32) := do
  let bar ← config.readU32 address offset
  config.writeU32 address offset 0xFFFFFFFF
  let barl ← config.readU32 address offset
  return (⟨bar⟩, barl)

/-- One turn of the loop of `get_bars`: the resource, and how many registers
are passed over. -/
def barResource (address : FunctionAddress) (index : Nat) :
    EStateM Panic σ (Option (Resource I) × Nat) := do
  let (bar, barl) ← probeBar config address (Pci.bar0 + 4 * .ofNat index)
  if ¬ bar.used then
    return (none, 0)
  else if bar.isIo then
    let resource ← MonadExcept.ofExcept (bar.ioPort barl)
    return (some resource, 0)
  else if bar.is64bit then
    let (nar, narl) ←
      probeBar config address (Pci.bar0 + 4 * .ofNat (index + 1))
    let resource ← MonadExcept.ofExcept (bar.memory64 nar barl narl)
    return (some resource, 1)
  else
    let resource ← MonadExcept.ofExcept (bar.memory32 barl)
    return (some resource, 0)

/-- The loop of `get_bars`. -/
def barsFrom (address : FunctionAddress) (toVal index : Nat) :
    EStateM Panic σ (List (Resource I)) :=
  if _inside : index < toVal then do
    let (resource, passed) ← barResource config address index
    let later ← barsFrom address toVal (index + 1 + passed)
    return resource.toList ++ later
  else
    return []
termination_by toVal - index

/-- `PCI::get_bars`. -/
def getBars (address : FunctionAddress) :
    EStateM Panic σ (List (Resource I)) := do
  let headerType ← config.readU8 address Pci.headerType
  let ptype := headerType &&& 0x7F
  if ptype = 0 then
    barsFrom config address 6 0
  else if ptype = 1 then
    barsFrom config address 2 0
  else
    return []

end Bars

section Gathering

variable {σ A I : Type}

inductive Pin where
  | intA
  | intB
  | intC
  | intD
  deriving DecidableEq, Repr

/-- The routing of interrupts, by the interpreter of the firmware's tables. -/
structure Routing (σ I : Type) where
  Table : Type
  fromPrtPath : String → EStateM Panic σ (Option Table)
  route : Table → UInt16 → UInt16 → Pin → EStateM Panic σ (Option I)

def pinOf (intline : UInt8) : Except Panic Pin :=
  if intline = 1 then .ok .intA
  else if intline = 2 then .ok .intB
  else if intline = 3 then .ok .intC
  else if intline = 4 then .ok .intD
  else .error (.message "Unkown pin!")

def unwrapOr (panic : Panic) {α : Type} : Option α → Except Panic α
  | none => .error panic
  | some value => .ok value

/-- The interrupt of a function whose pin is `intline`. -/
def interruptResources (routing : Routing σ I) (address : FunctionAddress)
    (table : routing.Table) (intline : UInt8) :
    EStateM Panic σ (List (Resource I)) :=
  if 0 < intline then do
    let pin ← MonadExcept.ofExcept (pinOf intline)
    let found ←
      routing.route table address.device.toUInt16 address.function.toUInt16 pin
    let route ← MonadExcept.ofExcept
      (unwrapOr (.message "Unable to map pci to interrupt") found)
    return [.irq route]
  else
    return []

/-- What the callback of `gather_devices` finds out about a function.  The
class, the numbers and the interrupt line are only printed. -/
def functionResources (config : ConfigAccess σ) (routing : Routing σ I)
    (address : FunctionAddress) : EStateM Panic σ (List (Resource I)) := do
  let _ ← config.readU8 address Pci.classCode
  let _ ← config.readU8 address Pci.subclass
  let _ ← config.readU16 address Pci.deviceId
  let _ ← config.readU16 address Pci.vendorId
  let _ ← config.readU8 address Pci.intLine
  let intline ← config.readU8 address Pci.intPin
  let found ← routing.fromPrtPath "\\_SB_.PCI0._PRT"
  let table ← MonadExcept.ofExcept (unwrapOr .unwrap found)
  let interrupts ← interruptResources routing address table intline
  let bars ← getBars config address
  return interrupts ++ bars

/-- `add_device`. -/
def addDevice (device : Device A I) :
    EStateM Panic (σ × List (Device A I)) Unit :=
  modify fun state => (state.1, state.2 ++ [device])

/-- The callback of `gather_devices`. -/
def gatherDevice (config : ConfigAccess σ) (routing : Routing σ I)
    (address : FunctionAddress) :
    EStateM Panic (σ × List (Device A I)) Unit := do
  let resource ← beside (functionResources config routing address)
  addDevice ⟨.pciDevice address, resource⟩

/-- The same accesses beside a second state. -/
def ConfigAccess.beside {τ : Type} (config : ConfigAccess σ) :
    ConfigAccess (σ × τ) where
  readU8 address offset := Foundations.beside (config.readU8 address offset)
  readU16 address offset := Foundations.beside (config.readU16 address offset)
  readU32 address offset := Foundations.beside (config.readU32 address offset)
  writeU32 address offset value :=
    Foundations.beside (config.writeU32 address offset value)

/-- `gather_devices`. -/
def gatherDevices (pci : Pci) (config : ConfigAccess σ)
    (routing : Routing σ I) : EStateM Panic (σ × List (Device A I)) Unit :=
  traverseDevices config.beside (gatherDevice config routing) pci

def Device.isAt (device : Device A I) (address : FunctionAddress) : Bool :=
  match device.deviceType with
  | .pciDevice other => decide (other = address)
  | .generic _ => false

/-- `search_pci_device`. -/
def searchPciDevice (devices : List (Device A I))
    (address : FunctionAddress) : Option (Device A I) :=
  devices.find? fun device => device.isAt address

end Gathering

/-! ## The functions that are present -/

/-- The bytes that the configuration spaces hold. -/
abbrev ConfigSpaces := FunctionAddress → Nat → UInt8

namespace ConfigSpaces

variable (spaces : ConfigSpaces)

def u8At (address : FunctionAddress) (offset : UInt16) : UInt8 :=
  spaces address offset.toNat

def u16At (address : FunctionAddress) (offset : UInt16) : UInt16 :=
  (spaces address offset.toNat).toUInt16 |||
    (spaces address (offset.toNat + 1)).toUInt16 <<< 8

def u32At (address : FunctionAddress) (offset : UInt16) : UInt32 :=
  (spaces.u16At address offset).toUInt32 |||
    (spaces.u16At address (offset + 2)).toUInt32 <<< 16

def vendor (address : FunctionAddress) : UInt16 :=
  spaces.u16At address Pci.vendorId

def header (address : FunctionAddress) : UInt8 :=
  spaces.u8At address Pci.headerType

end ConfigSpaces

/-- The address is one of a table with `count` segments. -/
structure FunctionAddress.Listed (count : Nat) (address : FunctionAddress) :
    Prop where
  segment : address.segment.toNat < count
  device : address.device.toNat < 32
  function : address.function.toNat < 8

/-- The device has a first function, and the function is that one or shows a
vendor in a device of several functions. -/
def FunctionAddress.Present (spaces : ConfigSpaces) (count : Nat)
    (address : FunctionAddress) : Prop :=
  address.Listed count ∧ spaces.vendor address.first ≠ 0xFFFF ∧
    (address.function = 0 ∨
      (spaces.header address.first).toNat.testBit 7 = true ∧
        spaces.vendor address ≠ 0xFFFF)

/-- The function alone, when it shows a vendor. -/
def shownFunction (spaces : ConfigSpaces) (address : FunctionAddress) :
    List FunctionAddress :=
  if spaces.vendor address ≠ 0xFFFF then [address] else []

def laterFunctions (spaces : ConfigSpaces) (segment : UInt16)
    (bus device : UInt8) : List FunctionAddress :=
  (numbers 1 7).flatMap fun function =>
    shownFunction spaces ⟨segment, bus, device, function⟩

def presentFunctions (spaces : ConfigSpaces) (segment : UInt16)
    (bus device : UInt8) : List FunctionAddress :=
  if spaces.vendor ⟨segment, bus, device, 0⟩ = 0xFFFF then
    []
  else
    ⟨segment, bus, device, 0⟩ ::
      if spaces.header ⟨segment, bus, device, 0⟩ &&& 0x80 ≠ 0 then
        laterFunctions spaces segment bus device
      else
        []

/-- The functions of a segment, in the order of the walk. -/
def segmentFunctions (spaces : ConfigSpaces) (segment : UInt16) :
    List FunctionAddress :=
  (numbers 0 256).flatMap fun bus =>
    (numbers 0 32).flatMap fun device =>
      presentFunctions spaces segment bus device

def allFunctions (spaces : ConfigSpaces) (count : Nat) :
    List FunctionAddress :=
  (List.range count).flatMap fun index =>
    segmentFunctions spaces (UInt16.ofNat index)

theorem mem_numbers {first count : Nat} (fits : first + count ≤ 256)
    {number : UInt8} :
    number ∈ numbers first count ↔
      first ≤ number.toNat ∧ number.toNat < first + count := by
  have bound := number.toNat_lt
  rw [numbers, List.mem_map]
  constructor
  · intro listed
    obtain ⟨value, inRange, rfl⟩ := listed
    rw [List.mem_range'_1] at inRange
    rw [UInt8.toNat_ofNat', Nat.mod_eq_of_lt (by omega)]
    exact inRange
  · intro inRange
    exact ⟨number.toNat, List.mem_range'_1.mpr inRange, UInt8.ofNat_toNat⟩

theorem numbers_pairwise {first count : Nat} (fits : first + count ≤ 256) :
    (numbers first count).Pairwise (· < ·) := by
  rw [numbers, List.pairwise_map]
  refine List.Pairwise.imp_of_mem ?_ List.pairwise_lt_range'
  intro left right leftMember rightMember ordered
  rw [List.mem_range'_1] at leftMember rightMember
  rw [UInt8.lt_iff_toNat_lt, UInt8.toNat_ofNat', UInt8.toNat_ofNat',
    Nat.mod_eq_of_lt (by omega), Nat.mod_eq_of_lt (by omega)]
  exact ordered

theorem firstFunction_lt : (0 : UInt8).toNat < 8 := by decide

theorem and_0x80 (header : UInt8) :
    header &&& 0x80 ≠ 0 ↔ header.toNat.testBit 7 = true := by
  have each :
      ∀ value < 256,
        UInt8.ofNat value &&& 0x80 ≠ 0 ↔ value.testBit 7 = true := by
    decide +kernel
  have own := each header.toNat header.toNat_lt
  rw [UInt8.ofNat_toNat] at own
  exact own

section Members

variable {spaces : ConfigSpaces} {count : Nat} {segment : UInt16}
  {bus device : UInt8} {address : FunctionAddress}

theorem mem_shownFunction {shown : FunctionAddress} :
    address ∈ shownFunction spaces shown ↔
      address = shown ∧ spaces.vendor address ≠ 0xFFFF := by
  by_cases missing : spaces.vendor shown = 0xFFFF
  · rw [shownFunction, if_neg (not_not.mpr missing)]
    constructor
    · intro listed
      cases listed
    · intro present
      obtain ⟨rfl, there⟩ := present
      exact absurd missing there
  · rw [shownFunction, if_pos missing, List.mem_singleton]
    constructor
    · intro same
      subst same
      exact ⟨rfl, missing⟩
    · intro present
      exact present.1

theorem mem_laterFunctions :
    address ∈ laterFunctions spaces segment bus device ↔
      address.segment = segment ∧ address.bus = bus ∧
        address.device = device ∧ 1 ≤ address.function.toNat ∧
        address.function.toNat < 8 ∧ spaces.vendor address ≠ 0xFFFF := by
  have inRange (function : UInt8) :
      function ∈ numbers 1 7 ↔
        1 ≤ function.toNat ∧ function.toNat < 1 + 7 :=
    mem_numbers (by decide)
  simp only [laterFunctions, List.mem_flatMap, mem_shownFunction, inRange]
  constructor
  · intro listed
    obtain ⟨function, ⟨lower, upper⟩, rfl, there⟩ := listed
    exact ⟨rfl, rfl, rfl, lower, upper, there⟩
  · intro present
    obtain ⟨ownSegment, ownBus, ownDevice, function⟩ := address
    obtain ⟨rfl, rfl, rfl, lower, upper, there⟩ := present
    exact ⟨function, ⟨lower, upper⟩, rfl, there⟩

theorem mem_presentFunctions :
    address ∈ presentFunctions spaces segment bus device ↔
      address.segment = segment ∧ address.bus = bus ∧
        address.device = device ∧ address.function.toNat < 8 ∧
        spaces.vendor address.first ≠ 0xFFFF ∧
        (address.function = 0 ∨
          (spaces.header address.first).toNat.testBit 7 = true ∧
            spaces.vendor address ≠ 0xFFFF) := by
  obtain ⟨ownSegment, ownBus, ownDevice, function⟩ := address
  have zero : function = 0 ↔ function.toNat = 0 := UInt8.toNat_inj.symm
  by_cases missing : spaces.vendor ⟨segment, bus, device, 0⟩ = 0xFFFF
  · rw [presentFunctions, if_pos missing]
    constructor
    · intro listed
      cases listed
    · intro present
      obtain ⟨rfl, rfl, rfl, _, there, _⟩ := present
      exact absurd missing there
  · rw [presentFunctions, if_neg missing, List.mem_cons,
      FunctionAddress.mk.injEq]
    constructor
    · intro listed
      rcases listed with ⟨rfl, rfl, rfl, rfl⟩ | later
      · exact ⟨rfl, rfl, rfl, firstFunction_lt, missing, Or.inl rfl⟩
      · by_cases several :
            spaces.header ⟨segment, bus, device, 0⟩ &&& 0x80 ≠ 0
        · rw [if_pos several] at later
          obtain ⟨rfl, rfl, rfl, _, upper, there⟩ := mem_laterFunctions.mp later
          exact ⟨rfl, rfl, rfl, upper, missing,
            Or.inr ⟨(and_0x80 _).mp several, there⟩⟩
        · rw [if_neg several] at later
          cases later
    · intro present
      rcases present with ⟨rfl, rfl, rfl, upper, _, first | ⟨several, there⟩⟩
      · exact Or.inl ⟨rfl, rfl, rfl, first⟩
      · by_cases first : function = 0
        · exact Or.inl ⟨rfl, rfl, rfl, first⟩
        · right
          have bit :=
            (and_0x80 (spaces.header ⟨ownSegment, ownBus, ownDevice, 0⟩)).mpr
              several
          rw [if_pos bit]
          have lower : 1 ≤ function.toNat := by
            rw [zero] at first
            omega
          exact mem_laterFunctions.mpr
            ⟨rfl, rfl, rfl, lower, upper, there⟩

theorem mem_segmentFunctions :
    address ∈ segmentFunctions spaces segment ↔
      address.segment = segment ∧ address.device.toNat < 32 ∧
        address.function.toNat < 8 ∧
        spaces.vendor address.first ≠ 0xFFFF ∧
        (address.function = 0 ∨
          (spaces.header address.first).toNat.testBit 7 = true ∧
            spaces.vendor address ≠ 0xFFFF) := by
  have buses (bus : UInt8) :
      bus ∈ numbers 0 256 ↔ 0 ≤ bus.toNat ∧ bus.toNat < 0 + 256 :=
    mem_numbers (by decide)
  have devices (device : UInt8) :
      device ∈ numbers 0 32 ↔ 0 ≤ device.toNat ∧ device.toNat < 0 + 32 :=
    mem_numbers (by decide)
  simp only [segmentFunctions, List.mem_flatMap, mem_presentFunctions, buses,
    devices]
  constructor
  · intro listed
    obtain ⟨bus, _, device, inRange, rfl, rfl, rfl, function, present⟩ := listed
    exact ⟨rfl, by omega, function, present⟩
  · intro listed
    obtain ⟨rfl, inRange, function, present⟩ := listed
    have bus := address.bus.toNat_lt
    exact ⟨address.bus, by omega, address.device, by omega, rfl, rfl, rfl,
      function, present⟩

theorem mem_allFunctions (few : count ≤ 65536) :
    address ∈ allFunctions spaces count ↔ address.Present spaces count := by
  simp only [allFunctions, List.mem_flatMap, List.mem_range,
    mem_segmentFunctions]
  constructor
  · intro listed
    obtain ⟨index, inRange, same, device, function, present⟩ := listed
    have segment : address.segment.toNat = index := by
      rw [same, UInt16.toNat_ofNat', Nat.mod_eq_of_lt (by omega)]
    exact ⟨⟨by omega, device, function⟩, present⟩
  · intro present
    obtain ⟨⟨segment, device, function⟩, present⟩ := present
    exact ⟨address.segment.toNat, segment, UInt16.ofNat_toNat.symm, device,
      function, present⟩

theorem laterFunctions_pairwise :
    (laterFunctions spaces segment bus device).Pairwise
      FunctionAddress.Before := by
  rw [laterFunctions, List.pairwise_flatMap]
  constructor
  · intro function _
    unfold shownFunction
    split <;> simp
  · apply (numbers_pairwise (by decide : 1 + 7 ≤ 256)).imp
    intro left right ordered first firstMember second secondMember
    rw [(mem_shownFunction.mp firstMember).1,
      (mem_shownFunction.mp secondMember).1]
    exact Or.inr ⟨rfl, Or.inr ⟨rfl, Or.inr ⟨rfl, ordered⟩⟩⟩

theorem presentFunctions_pairwise :
    (presentFunctions spaces segment bus device).Pairwise
      FunctionAddress.Before := by
  unfold presentFunctions
  split
  · exact List.Pairwise.nil
  · rw [List.pairwise_cons]
    split
    · refine ⟨?_, laterFunctions_pairwise⟩
      intro later member
      obtain ⟨rfl, rfl, rfl, positive, _⟩ := mem_laterFunctions.mp member
      refine Or.inr ⟨rfl, Or.inr ⟨rfl, Or.inr ⟨rfl, ?_⟩⟩⟩
      exact UInt8.lt_iff_toNat_lt.mpr positive
    · refine ⟨?_, List.Pairwise.nil⟩
      intro later member
      cases member

theorem segmentFunctions_pairwise :
    (segmentFunctions spaces segment).Pairwise FunctionAddress.Before := by
  rw [segmentFunctions, List.pairwise_flatMap]
  constructor
  · intro bus _
    rw [List.pairwise_flatMap]
    constructor
    · intro device _
      exact presentFunctions_pairwise
    · apply (numbers_pairwise (by decide : 0 + 32 ≤ 256)).imp
      intro left right ordered first firstMember second secondMember
      obtain ⟨rfl, rfl, rfl, _⟩ := mem_presentFunctions.mp firstMember
      obtain ⟨segment, bus, rfl, _⟩ := mem_presentFunctions.mp secondMember
      exact Or.inr ⟨segment.symm, Or.inr ⟨bus.symm, Or.inl ordered⟩⟩
  · apply (numbers_pairwise (by decide : 0 + 256 ≤ 256)).imp
    intro left right ordered first firstMember second secondMember
    obtain ⟨_, _, firstMember⟩ := List.mem_flatMap.mp firstMember
    obtain ⟨_, _, secondMember⟩ := List.mem_flatMap.mp secondMember
    obtain ⟨rfl, rfl, _⟩ := mem_presentFunctions.mp firstMember
    obtain ⟨segment, rfl, _⟩ := mem_presentFunctions.mp secondMember
    exact Or.inr ⟨segment.symm, Or.inl ordered⟩

theorem allFunctions_pairwise (few : count ≤ 65536) :
    (allFunctions spaces count).Pairwise FunctionAddress.Before := by
  rw [allFunctions, List.pairwise_flatMap]
  constructor
  · intro index _
    exact segmentFunctions_pairwise
  · refine List.Pairwise.imp_of_mem ?_ List.pairwise_lt_range
    intro left right leftMember rightMember ordered first firstMember second
      secondMember
    rw [List.mem_range] at leftMember rightMember
    left
    rw [(mem_segmentFunctions.mp firstMember).1,
      (mem_segmentFunctions.mp secondMember).1, UInt16.lt_iff_toNat_lt,
      UInt16.toNat_ofNat', UInt16.toNat_ofNat', Nat.mod_eq_of_lt (by omega),
      Nat.mod_eq_of_lt (by omega)]
    exact ordered

end Members

/-! ## The walk over registers that do not change -/

/-- The reads that decide the walk return, with the registers of the function
that is meant. -/
structure ConfigAccess.Shows {σ : Type} (config : ConfigAccess σ)
    (spaces : ConfigSpaces) (count : Nat) : Prop where
  vendor :
    ∀ address, address.Listed count → ∀ state, ∃ next,
      (config.readU16 address Pci.vendorId).run state =
        .ok (spaces.vendor address) next
  header :
    ∀ address, address.Listed count → ∀ state, ∃ next,
      (config.readU8 address Pci.headerType).run state =
        .ok (spaces.header address) next

/-- The accesses to the function return, reads with its registers. -/
structure ConfigAccess.Answers {σ : Type} (config : ConfigAccess σ)
    (spaces : ConfigSpaces) (address : FunctionAddress) : Prop where
  readU8 :
    ∀ offset state, ∃ next,
      (config.readU8 address offset).run state =
        .ok (spaces.u8At address offset) next
  readU16 :
    ∀ offset state, ∃ next,
      (config.readU16 address offset).run state =
        .ok (spaces.u16At address offset) next
  readU32 :
    ∀ offset state, ∃ next,
      (config.readU32 address offset).run state =
        .ok (spaces.u32At address offset) next
  writeU32 :
    ∀ offset value state, ∃ next,
      (config.writeU32 address offset value).run state = .ok () next

theorem ConfigAccess.Shows.beside {σ τ : Type} {config : ConfigAccess σ}
    {spaces : ConfigSpaces} {count : Nat}
    (shows : config.Shows spaces count) :
    (config.beside : ConfigAccess (σ × τ)).Shows spaces count where
  vendor address listed state := by
    obtain ⟨next, returned⟩ := shows.vendor address listed state.1
    exact ⟨_, beside_run_of_ok state.2 returned⟩
  header address listed state := by
    obtain ⟨next, returned⟩ := shows.header address listed state.1
    exact ⟨_, beside_run_of_ok state.2 returned⟩

/-- Reads leave the record of calls alone, and each call adds itself. -/
structure Recorded {σ : Type} (config : ConfigAccess σ)
    (callback : FunctionAddress → EStateM Panic σ Unit)
    (called : σ → List FunctionAddress) : Prop where
  readU8 :
    ∀ address offset state value next,
      (config.readU8 address offset).run state = .ok value next →
        called next = called state
  readU16 :
    ∀ address offset state value next,
      (config.readU16 address offset).run state = .ok value next →
        called next = called state
  callback :
    ∀ address state next,
      (callback address).run state = .ok () next →
        called next = called state ++ [address]

section Walks

variable {σ : Type} {config : ConfigAccess σ}
  {callback : FunctionAddress → EStateM Panic σ Unit}
  {called : σ → List FunctionAddress} {spaces : ConfigSpaces} {count : Nat}
  {segment : UInt16} {bus device : UInt8} {state final : σ}

theorem ConfigAccess.Shows.vendor_eq (shows : config.Shows spaces count)
    {address : FunctionAddress} (listed : address.Listed count)
    {value : UInt16}
    (returned :
      (config.readU16 address Pci.vendorId).run state = .ok value final) :
    value = spaces.vendor address := by
  obtain ⟨next, shown⟩ := shows.vendor address listed state
  rw [shown] at returned
  cases returned
  rfl

theorem ConfigAccess.Shows.header_eq (shows : config.Shows spaces count)
    {address : FunctionAddress} (listed : address.Listed count)
    {value : UInt8}
    (returned :
      (config.readU8 address Pci.headerType).run state = .ok value final) :
    value = spaces.header address := by
  obtain ⟨next, shown⟩ := shows.header address listed state
  rw [shown] at returned
  cases returned
  rfl

theorem checkLaterFunction_appends (shows : config.Shows spaces count)
    (recorded : Recorded config callback called) {address : FunctionAddress}
    (listed : address.Listed count)
    (returned :
      (checkLaterFunction config callback address).run state = .ok () final) :
    called final = called state ++ shownFunction spaces address := by
  rw [checkLaterFunction, bind_run_ok] at returned
  obtain ⟨vendor, middle, read, returned⟩ := returned
  have kept := recorded.readU16 _ _ _ _ _ read
  rw [shows.vendor_eq listed read] at returned
  by_cases there : spaces.vendor address ≠ 0xFFFF
  · rw [if_pos there] at returned
    rw [recorded.callback _ _ _ returned, kept, shownFunction, if_pos there]
  · rw [if_neg there, pure_run_ok] at returned
    rw [← returned.2, kept, shownFunction, if_neg there, List.append_nil]

theorem laterFunctions_appends (shows : config.Shows spaces count)
    (recorded : Recorded config callback called)
    (inRange : segment.toNat < count) (low : device.toNat < 32)
    (returned :
      ((numbers 1 7).forM fun function =>
          checkLaterFunction config callback
            ⟨segment, bus, device, function⟩).run state = .ok () final) :
    called final =
      called state ++ laterFunctions spaces segment bus device := by
  apply forM_appends _ _ returned
  intro function member before after checked
  have bounds := (mem_numbers (by decide)).mp member
  exact checkLaterFunction_appends shows recorded
    ⟨inRange, low, bounds.2⟩ checked

theorem checkDevice_appends (shows : config.Shows spaces count)
    (recorded : Recorded config callback called)
    (inRange : segment.toNat < count) (low : device.toNat < 32)
    (returned :
      (checkDevice config callback segment bus device).run state =
        .ok () final) :
    called final =
      called state ++ presentFunctions spaces segment bus device := by
  have listed :
      FunctionAddress.Listed count ⟨segment, bus, device, 0⟩ :=
    ⟨inRange, low, firstFunction_lt⟩
  rw [checkDevice, bind_run_ok] at returned
  obtain ⟨vendor, probed, read, returned⟩ := returned
  have kept := recorded.readU16 _ _ _ _ _ read
  rw [shows.vendor_eq listed read, checkFunctions] at returned
  by_cases missing : spaces.vendor ⟨segment, bus, device, 0⟩ = 0xFFFF
  · rw [if_pos missing, pure_run_ok] at returned
    rw [← returned.2, kept, presentFunctions, if_pos missing, List.append_nil]
  · rw [if_neg missing, bind_run_ok] at returned
    obtain ⟨_, notified, called, returned⟩ := returned
    have first := recorded.callback _ _ _ called
    rw [bind_run_ok] at returned
    obtain ⟨header, typed, typeRead, returned⟩ := returned
    have typeKept := recorded.readU8 _ _ _ _ _ typeRead
    rw [shows.header_eq listed typeRead] at returned
    rw [presentFunctions, if_neg missing]
    by_cases several : spaces.header ⟨segment, bus, device, 0⟩ &&& 0x80 ≠ 0
    · rw [if_pos several] at returned
      rw [laterFunctions_appends shows recorded inRange low returned,
        typeKept, first, kept, if_pos several, List.append_assoc,
        List.singleton_append]
    · rw [if_neg several, pure_run_ok] at returned
      rw [← returned.2, typeKept, first, kept, if_neg several]

theorem checkSegment_appends (shows : config.Shows spaces count)
    (recorded : Recorded config callback called)
    (inRange : segment.toNat < count)
    (returned :
      (checkSegment config callback segment).run state = .ok () final) :
    called final = called state ++ segmentFunctions spaces segment := by
  apply forM_appends _ _ returned
  intro bus _ before after busChecked
  apply forM_appends _ _ busChecked
  intro device member early late checked
  have bounds := (mem_numbers (by decide)).mp member
  exact checkDevice_appends shows recorded inRange (by omega) checked

/-- A walk that returns has called back for the functions that are present,
in their order. -/
theorem traverseDevices_appends {segments : List Segment}
    (few : segments.length ≤ 65536)
    (shows : config.Shows spaces segments.length)
    (recorded : Recorded config callback called)
    (returned :
      (traverseDevices config callback ⟨some segments⟩).run state =
        .ok () final) :
    called final = called state ++ allFunctions spaces segments.length := by
  rw [traverseDevices, bind_run_ok] at returned
  obtain ⟨listed, _, unwrapped, returned⟩ := returned
  rw [ofExcept_run_ok] at unwrapped
  obtain ⟨unwrapped, rfl⟩ := unwrapped
  cases unwrapped
  apply forM_appends _ _ returned
  intro index member before after checked
  rw [List.mem_range] at member
  apply checkSegment_appends shows recorded _ checked
  rw [UInt16.toNat_ofNat', Nat.mod_eq_of_lt (by omega)]
  exact member

theorem checkLaterFunction_returns (shows : config.Shows spaces count)
    {address : FunctionAddress} (listed : address.Listed count)
    (calls :
      spaces.vendor address ≠ 0xFFFF → Returns (callback address)) :
    Returns (checkLaterFunction config callback address) := by
  intro state
  obtain ⟨probed, read⟩ := shows.vendor address listed state
  rw [checkLaterFunction, bind_run_of_ok _ read]
  by_cases there : spaces.vendor address ≠ 0xFFFF
  · rw [if_pos there]
    exact calls there probed
  · rw [if_neg there]
    exact Returns.pure () probed

theorem checkDevice_returns (shows : config.Shows spaces count)
    (calls :
      ∀ address, address.Present spaces count → Returns (callback address))
    (inRange : segment.toNat < count) (low : device.toNat < 32) :
    Returns (checkDevice config callback segment bus device) := by
  intro state
  have listed :
      FunctionAddress.Listed count ⟨segment, bus, device, 0⟩ :=
    ⟨inRange, low, firstFunction_lt⟩
  obtain ⟨probed, read⟩ := shows.vendor _ listed state
  rw [checkDevice, bind_run_of_ok _ read, checkFunctions]
  by_cases missing : spaces.vendor ⟨segment, bus, device, 0⟩ = 0xFFFF
  · rw [if_pos missing]
    exact Returns.pure () probed
  · obtain ⟨_, notified, called⟩ :=
      calls ⟨segment, bus, device, 0⟩ ⟨listed, missing, Or.inl rfl⟩
        probed
    obtain ⟨typed, typeRead⟩ := shows.header _ listed notified
    rw [if_neg missing, checkFunction, bind_run_of_ok _ called,
      bind_run_of_ok _ typeRead]
    by_cases several : spaces.header ⟨segment, bus, device, 0⟩ &&& 0x80 ≠ 0
    · rw [if_pos several]
      apply Returns.forM
      intro function member
      have bounds := (mem_numbers (by decide)).mp member
      have own :
          FunctionAddress.Listed count ⟨segment, bus, device, function⟩ :=
        ⟨inRange, low, bounds.2⟩
      apply checkLaterFunction_returns shows own
      intro there
      exact calls _
        ⟨own, missing, Or.inr ⟨(and_0x80 _).mp several, there⟩⟩
    · rw [if_neg several]
      exact Returns.pure () typed

theorem traverseDevices_returns {segments : List Segment}
    (few : segments.length ≤ 65536)
    (shows : config.Shows spaces segments.length)
    (calls :
      ∀ address, address.Present spaces segments.length →
        Returns (callback address)) :
    Returns (traverseDevices config callback ⟨some segments⟩) := by
  intro state
  rw [traverseDevices, Pci.segments_some,
    bind_run_of_ok _ (ofExcept_run (.ok segments) state)]
  apply Returns.forM
  intro index member
  rw [List.mem_range] at member
  apply Returns.forM
  intro bus _
  apply Returns.forM
  intro device low
  have bounds := (mem_numbers (by decide)).mp low
  apply checkDevice_returns shows calls _ (by omega)
  rw [UInt16.toNat_ofNat', Nat.mod_eq_of_lt (by omega)]
  exact member

/-- The callback, with a note of each call. -/
def noted (callback : FunctionAddress → EStateM Panic σ Unit)
    (address : FunctionAddress) :
    EStateM Panic (σ × List FunctionAddress) Unit :=
  noting address (callback address)

theorem noted_recorded (config : ConfigAccess σ)
    (callback : FunctionAddress → EStateM Panic σ Unit) :
    Recorded config.beside (noted callback) Prod.snd where
  readU8 _ _ _ _ _ returned := (beside_run_ok.mp returned).2
  readU16 _ _ _ _ _ returned := (beside_run_ok.mp returned).2
  callback _ _ _ returned := (noting_run_ok.mp returned).2

end Walks

/-! ## Search in the gathered devices -/

section Search

variable {σ A I : Type}

def Device.pciAddress (device : Device A I) : Option FunctionAddress :=
  match device.deviceType with
  | .pciDevice address => some address
  | .generic _ => none

theorem Device.isAt_iff {device : Device A I} {address : FunctionAddress} :
    device.isAt address = true ↔ device.pciAddress = some address := by
  obtain ⟨deviceType, resource⟩ := device
  cases deviceType with
  | pciDevice other => simp [Device.isAt, Device.pciAddress]
  | generic hid => simp [Device.isAt, Device.pciAddress]

theorem searchPciDevice_isSome {devices : List (Device A I)}
    {address : FunctionAddress} :
    (searchPciDevice devices address).isSome = true ↔
      address ∈ devices.filterMap Device.pciAddress := by
  rw [searchPciDevice, List.find?_isSome, List.mem_filterMap]
  simp only [Device.isAt_iff]

theorem gatherDevice_recorded (config : ConfigAccess σ)
    (routing : Routing σ I) :
    Recorded config.beside (gatherDevice config routing)
      (fun state : σ × List (Device A I) =>
        state.2.filterMap Device.pciAddress) where
  readU8 _ _ _ _ _ returned := by rw [(beside_run_ok.mp returned).2]
  readU16 _ _ _ _ _ returned := by rw [(beside_run_ok.mp returned).2]
  callback address state next returned := by
    rw [gatherDevice, bind_run_ok] at returned
    obtain ⟨resource, middle, found, added⟩ := returned
    rw [addDevice, modify_run] at added
    cases added
    rw [(beside_run_ok.mp found).2, List.filterMap_append]
    rfl

end Search

/-! ## The accesses of the kernel -/

section Window

variable {T : Type} [Mapper T] {pci : Pci}

def FunctionAddress.access (address : FunctionAddress)
    (operation : Operation) (offset : UInt16) : Access :=
  ⟨operation, address.segment, address.bus, address.device, address.function,
    offset⟩

/-- The accesses through the window, which shows the bytes of `spaces`. -/
def Pci.config (pci : Pci) (spaces : ConfigSpaces) :
    ConfigAccess (ConfigMachine T) where
  readU8 address offset := do
    (address.access .readU8 offset).perform pci
    return spaces.u8At address offset
  readU16 address offset := do
    (address.access .readU16 offset).perform pci
    return spaces.u16At address offset
  readU32 address offset := do
    (address.access .readU32 offset).perform pci
    return spaces.u32At address offset
  writeU32 address offset value :=
    (address.access (.writeU32 value) offset).perform pci

/-- The functions of the table lie in the window. -/
def Pci.Placed (pci : Pci) (count : Nat) : Prop :=
  ∀ address : FunctionAddress, address.Listed count →
    ∀ operation offset, ∃ segment first,
      (address.access operation offset).Placed pci segment first

theorem perform_returns (aligned : pci.Aligned) {access : Access}
    (placed : ∃ segment first, access.Placed pci segment first)
    (state : ConfigMachine T) :
    ∃ next, (access.perform pci).run state = .ok () next := by
  obtain ⟨segment, first, placed⟩ := placed
  exact ⟨_, placed.run aligned state⟩

theorem read_returns {α : Type} (aligned : pci.Aligned) {access : Access}
    (placed : ∃ segment first, access.Placed pci segment first) (value : α)
    (state : ConfigMachine T) :
    ∃ next,
      (do access.perform pci; return value :
          EStateM Panic (ConfigMachine T) α).run state = .ok value next := by
  obtain ⟨next, performed⟩ := perform_returns aligned placed state
  exact ⟨next, bind_run_of_ok _ performed⟩

theorem Pci.config_answers (pci : Pci) (aligned : pci.Aligned) {count : Nat}
    (placed : pci.Placed count) (spaces : ConfigSpaces)
    {address : FunctionAddress} (listed : address.Listed count) :
    (pci.config spaces : ConfigAccess (ConfigMachine T)).Answers spaces
      address where
  readU8 offset state :=
    read_returns aligned (placed address listed .readU8 offset) _ state
  readU16 offset state :=
    read_returns aligned (placed address listed .readU16 offset) _ state
  readU32 offset state :=
    read_returns aligned (placed address listed .readU32 offset) _ state
  writeU32 offset value state :=
    perform_returns aligned (placed address listed (.writeU32 value) offset)
      state

theorem Pci.config_shows (pci : Pci) (aligned : pci.Aligned) {count : Nat}
    (placed : pci.Placed count) (spaces : ConfigSpaces) :
    (pci.config spaces : ConfigAccess (ConfigMachine T)).Shows spaces
      count where
  vendor _ listed state :=
    (pci.config_answers aligned placed spaces listed).readU16 vendorId state
  header _ listed state :=
    (pci.config_answers aligned placed spaces listed).readU8 headerType state

end Window

/-! ## Functions without resources -/

section Plain

variable {σ A I : Type} {config : ConfigAccess σ} {spaces : ConfigSpaces}
  {address : FunctionAddress}

/-- The function has no interrupt pin, and its registers are unused. -/
structure WithoutResources (spaces : ConfigSpaces)
    (address : FunctionAddress) : Prop where
  pin : spaces.u8At address Pci.intPin = 0
  type : spaces.u8At address Pci.headerType &&& 0x7F = 0
  bars : ∀ index < 6, spaces.u32At address (Pci.bar0 + 4 * .ofNat index) = 0

theorem barsFrom_returns {toVal : Nat}
    (unused :
      ∀ index < toVal, ∀ state, ∃ barl next,
        (probeBar config address (Pci.bar0 + 4 * .ofNat index)).run state =
          .ok (⟨0⟩, barl) next)
    (index : Nat) :
    Returns (barsFrom config address toVal index :
      EStateM Panic σ (List (Resource I))) := by
  induction distance : toVal - index generalizing index with
  | zero =>
      intro state
      rw [barsFrom, dif_neg (by omega)]
      exact Returns.pure _ state
  | succ rest inductionHypothesis =>
      intro state
      obtain ⟨barl, probed, returned⟩ := unused index (by omega) state
      obtain ⟨later, final, looped⟩ :=
        inductionHypothesis (index + 1 + 0) (by omega) probed
      have turn :
          (barResource config address index :
              EStateM Panic σ (Option (Resource I) × Nat)).run state =
            .ok (none, 0) probed := by
        rw [barResource, bind_run_of_ok _ returned]
        rfl
      rw [barsFrom, dif_pos (by omega), bind_run_of_ok _ turn,
        bind_run_of_ok _ looped]
      exact Returns.pure _ final

theorem probeBar_run (answers : config.Answers spaces address)
    (offset : UInt16) (state : σ) :
    ∃ barl next,
      (probeBar config address offset).run state =
        .ok (⟨spaces.u32At address offset⟩, barl) next := by
  obtain ⟨probed, read⟩ := answers.readU32 offset state
  obtain ⟨written, wrote⟩ := answers.writeU32 offset 0xFFFFFFFF probed
  obtain ⟨final, reread⟩ := answers.readU32 offset written
  refine ⟨spaces.u32At address offset, final, ?_⟩
  rw [probeBar, bind_run_of_ok _ read, bind_run_of_ok _ wrote,
    bind_run_of_ok _ reread]
  rfl

theorem getBars_returns (answers : config.Answers spaces address)
    (plain : WithoutResources spaces address) :
    Returns (getBars config address :
      EStateM Panic σ (List (Resource I))) := by
  intro state
  obtain ⟨typed, read⟩ := answers.readU8 Pci.headerType state
  rw [getBars, bind_run_of_ok _ read, if_pos plain.type]
  apply barsFrom_returns
  intro index inRange before
  obtain ⟨barl, after, probed⟩ :=
    probeBar_run answers (Pci.bar0 + 4 * .ofNat index) before
  rw [plain.bars index inRange] at probed
  exact ⟨barl, after, probed⟩

theorem functionResources_returns (answers : config.Answers spaces address)
    (plain : WithoutResources spaces address) {routing : Routing σ I}
    (routed :
      ∀ state, ∃ table next,
        (routing.fromPrtPath "\\_SB_.PCI0._PRT").run state =
          .ok (some table) next) :
    Returns (functionResources config routing address) := by
  intro state
  obtain ⟨first, readClass⟩ := answers.readU8 Pci.classCode state
  obtain ⟨second, readSubclass⟩ := answers.readU8 Pci.subclass first
  obtain ⟨third, readDevice⟩ := answers.readU16 Pci.deviceId second
  obtain ⟨fourth, readVendor⟩ := answers.readU16 Pci.vendorId third
  obtain ⟨fifth, readLine⟩ := answers.readU8 Pci.intLine fourth
  obtain ⟨sixth, readPin⟩ := answers.readU8 Pci.intPin fifth
  obtain ⟨table, seventh, loaded⟩ := routed sixth
  obtain ⟨bars, final, found⟩ := getBars_returns answers plain seventh
  rw [functionResources, bind_run_of_ok _ readClass,
    bind_run_of_ok _ readSubclass, bind_run_of_ok _ readDevice,
    bind_run_of_ok _ readVendor, bind_run_of_ok _ readLine,
    bind_run_of_ok _ readPin, bind_run_of_ok _ loaded, plain.pin, unwrapOr,
    bind_run_of_ok _ (ofExcept_run (.ok table) seventh), interruptResources,
    if_neg (by decide), pure_bind, bind_run_of_ok _ found]
  exact Returns.pure _ final

theorem gatherDevice_returns (answers : config.Answers spaces address)
    (plain : WithoutResources spaces address) {routing : Routing σ I}
    (routed :
      ∀ state, ∃ table next,
        (routing.fromPrtPath "\\_SB_.PCI0._PRT").run state =
          .ok (some table) next) :
    Returns (gatherDevice config routing address :
      EStateM Panic (σ × List (Device A I)) Unit) := by
  intro state
  obtain ⟨resource, middle, found⟩ :=
    (functionResources_returns answers plain routed).beside state
  rw [gatherDevice, bind_run_of_ok _ found]
  exact ⟨(), _, modify_run _ middle⟩

end Plain

/-- The walk calls back once for each function that is present, in ascending
order, and the gathered devices are those functions. -/
theorem traverseDevices_exact {σ : Type} {config : ConfigAccess σ}
    {spaces : ConfigSpaces} {segments : List Segment}
    (few : segments.length ≤ 65536)
    (shows : config.Shows spaces segments.length) :
    (∀ callback machine,
      (∀ address, address.Present spaces segments.length →
        Returns (callback address)) →
      ∃ final calls,
        (traverseDevices config.beside (noted callback)
            ⟨some segments⟩).run (machine, []) = .ok () (final, calls) ∧
          calls.Pairwise FunctionAddress.Before ∧ calls.Nodup ∧
          ∀ address,
            address ∈ calls ↔ address.Present spaces segments.length) ∧
    ∀ (A I : Type) (routing : Routing σ I) (machine final : σ)
      (devices gathered : List (Device A I)),
      (∀ device ∈ devices, device.pciAddress = none) →
        (gatherDevices ⟨some segments⟩ config routing).run
            (machine, devices) = .ok () (final, gathered) →
          ∀ address,
            (searchPciDevice gathered address).isSome = true ↔
              address.Present spaces segments.length := by
  constructor
  · intro callback machine calls
    obtain ⟨_, ⟨final, called⟩, returned⟩ :=
      traverseDevices_returns few shows.beside
        (fun address present => (calls address present).noting address)
        (machine, [])
    have appended : called = [] ++ allFunctions spaces segments.length :=
      traverseDevices_appends few shows.beside
        (noted_recorded config callback) returned
    rw [List.nil_append] at appended
    have ordered : called.Pairwise FunctionAddress.Before := by
      rw [appended]
      exact allFunctions_pairwise few
    refine ⟨final, called, returned, ordered,
      ordered.imp FunctionAddress.Before.ne, ?_⟩
    · intro address
      rw [appended]
      exact mem_allFunctions few
  · intro A I routing machine final devices gathered before returned address
    have walked :=
      traverseDevices_appends few shows.beside
        (gatherDevice_recorded config routing) returned
    have appended :
        gathered.filterMap Device.pciAddress =
          devices.filterMap Device.pciAddress ++
            allFunctions spaces segments.length := walked
    have none : devices.filterMap Device.pciAddress = [] :=
      List.filterMap_eq_nil_iff.mpr before
    rw [none, List.nil_append] at appended
    rw [searchPciDevice_isSome, appended]
    exact mem_allFunctions few

/-! ## A host bridge and a device of several functions -/

theorem oneSegment_placed : oneSegment.Placed 1 := by
  intro address listed operation offset
  have segment : address.segment.toNat = 0 := by
    have inRange := listed.segment
    omega
  have found :
      oneSegment.segmentAt address.segment.toNat = .ok ⟨0xE0000000, 0⟩ := by
    rw [segment]
    rfl
  refine ⟨⟨0xE0000000, 0⟩, ⟨0xE0000000, 0⟩, found, rfl, Nat.zero_le _, ?_,
    Nat.le_add_right _ _, ?_⟩
  · decide
  · have index := functionIndex_lt (address.access operation offset) 0
    change
      0xE0000000 + (address.access operation offset).functionIndex 0 * 4096 +
          2 ^ 40 < 2 ^ 48 + 0xE0000000
    omega

def bridgeFunctions : List FunctionAddress :=
  [⟨0, 0, 0, 0⟩, ⟨0, 0, 31, 0⟩, ⟨0, 0, 31, 2⟩, ⟨0, 0, 31, 3⟩]

/-- Device 0 has one function; device 31 has the functions 0, 2 and 3. -/
def bridgeSpaces : ConfigSpaces := fun address offset =>
  if address ∈ bridgeFunctions then
    if offset = 0 then 0x86
    else if offset = 1 then 0x80
    else if offset = 0x0E ∧ address.device = 31 then 0x80
    else 0
  else
    0xFF

theorem FunctionAddress.Present.vendor {spaces : ConfigSpaces} {count : Nat}
    {address : FunctionAddress} (present : address.Present spaces count) :
    spaces.vendor address ≠ 0xFFFF := by
  rcases present with ⟨_, there, zero | ⟨_, shown⟩⟩
  · obtain ⟨segment, bus, device, function⟩ := address
    cases zero
    exact there
  · exact shown

theorem bridgeSpaces_plain {address : FunctionAddress} {count : Nat}
    (present : address.Present bridgeSpaces count) :
    WithoutResources bridgeSpaces address := by
  have member : address ∈ bridgeFunctions := by
    by_contra absent
    apply present.vendor
    rw [ConfigSpaces.vendor, ConfigSpaces.u16At, bridgeSpaces, bridgeSpaces,
      if_neg absent, if_neg absent]
    decide
  have each :
      ∀ address ∈ bridgeFunctions,
        bridgeSpaces.u8At address Pci.intPin = 0 ∧
          bridgeSpaces.u8At address Pci.headerType &&& 0x7F = 0 ∧
          ∀ index < 6,
            bridgeSpaces.u32At address (Pci.bar0 + 4 * .ofNat index) = 0 := by
    decide
  obtain ⟨pin, type, bars⟩ := each address member
  exact ⟨pin, type, bars⟩

def constantRouting {σ : Type} : Routing σ Unit where
  Table := Unit
  fromPrtPath _ := return some ()
  route _ _ _ _ := return none

theorem traverseDevices_exact_bridge :
    ∃ final calls last gathered,
      (traverseDevices (oneSegment.config bridgeSpaces).beside
          (noted fun _ => pure ()) oneSegment).run (freshWindow, []) =
          .ok () (final, calls) ∧
        calls.Pairwise FunctionAddress.Before ∧
        ⟨0, 0, 31, 2⟩ ∈ calls ∧ ⟨0, 0, 31, 1⟩ ∉ calls ∧
        (gatherDevices oneSegment (oneSegment.config bridgeSpaces)
            constantRouting).run
            (freshWindow, ([] : List (Device Empty Unit))) =
          .ok () (last, gathered) ∧
        (searchPciDevice gathered ⟨0, 0, 31, 2⟩).isSome = true ∧
        (searchPciDevice gathered ⟨0, 0, 31, 1⟩).isSome = false := by
  have shows :
      (oneSegment.config bridgeSpaces :
          ConfigAccess (ConfigMachine RadixTable)).Shows bridgeSpaces
        ([⟨0xE0000000, 0⟩] : List Segment).length :=
    oneSegment.config_shows oneSegment_aligned oneSegment_placed _
  have enumerated := traverseDevices_exact (by decide) shows
  have third : FunctionAddress.Present bridgeSpaces 1 ⟨0, 0, 31, 2⟩ := by
    refine ⟨⟨by decide, by decide, by decide⟩, by decide, Or.inr ?_⟩
    decide
  have second : ¬ FunctionAddress.Present bridgeSpaces 1 ⟨0, 0, 31, 1⟩ := by
    intro present
    exact present.vendor (by decide)
  obtain ⟨final, calls, walked, ordered, _, called⟩ :=
    enumerated.1 (fun _ => pure ()) freshWindow
      (fun _ _ => Returns.pure ())
  have gathering :
      Returns (gatherDevices oneSegment (oneSegment.config bridgeSpaces)
        constantRouting :
          EStateM Panic
            (ConfigMachine RadixTable × List (Device Empty Unit)) Unit) := by
    apply traverseDevices_returns (by decide) shows.beside
    intro address present
    exact gatherDevice_returns
      (oneSegment.config_answers oneSegment_aligned oneSegment_placed _
        present.1)
      (bridgeSpaces_plain present) (fun state => ⟨(), state, rfl⟩)
  obtain ⟨_, ⟨last, gathered⟩, returned⟩ := gathering (freshWindow, [])
  have found :=
    enumerated.2 Empty Unit constantRouting freshWindow last [] gathered
      (by simp) returned
  refine ⟨final, calls, last, gathered, walked, ordered,
    (called _).mpr third, ?_, returned, (found _).mpr third, ?_⟩
  · exact fun member => second ((called _).mp member)
  · rw [← Bool.not_eq_true, found]
    exact second

end RustKernel.Kernel
