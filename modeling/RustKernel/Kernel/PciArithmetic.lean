import RustKernel.Kernel.PciEnumeration

/-!
# The arithmetic of the walk over the PCI functions

`traverse_devices` counts the buses of every segment from 0, while an access
subtracts the first bus of its segment; and every segment is shown at its
distance from the base of the first segment.  Both subtractions are checked.
-/

namespace RustKernel.Kernel

open RustKernel.Foundations
open RustKernel.Machine
open RustKernel.Paging

/-- The address arithmetic of an access at the offset. -/
def Pci.addressOf (pci : Pci) (access : Access) (offset : UInt16) :
    Except Panic Nat := do
  let segment ← pci.segmentAt access.segment.toNat
  let relative ← checkedSub access.bus.toNat segment.busStart.toNat
  pci.formAddress segment.address relative access.device access.function offset

/-- The arithmetic of the access overflows, in the access itself or in
`map_address`, whose offset is 0. -/
def Access.Wraps (pci : Pci) (access : Access) : Prop :=
  pci.addressOf access access.offset = .error .overflow ∨
    pci.addressOf access 0 = .error .overflow

/-- The accesses, with a note of each one that is begun. -/
def ConfigAccess.logged {σ : Type} (config : ConfigAccess σ) :
    ConfigAccess (σ × List Access) where
  readU8 address offset :=
    noting (address.access .readU8 offset) (config.readU8 address offset)
  readU16 address offset :=
    noting (address.access .readU16 offset) (config.readU16 address offset)
  readU32 address offset :=
    noting (address.access .readU32 offset) (config.readU32 address offset)
  writeU32 address offset value :=
    noting (address.access (.writeU32 value) offset)
      (config.writeU32 address offset value)

/-- The segment counts its buses from 0 and lies at or above the first one. -/
def Segment.InOrder (first segment : Segment) : Prop :=
  segment.busStart = 0 ∧ first.address ≤ segment.address

/-- The last device of the last bus, and so the whole segment, has addresses
and pages. -/
def Segment.Walkable (first segment : Segment) : Prop :=
  segment.address + 4095 < 2 ^ 52 ∧
    segment.address - first.address + 0xFFF8000 + configSpace + 4095 < 2 ^ 48

/-- Each segment that the walk comes to is in order.  The index of a segment
is cut to a `u16`, so that the walk comes to 65536 segments at most. -/
def SegmentsInOrder (segments : List Segment) : Prop :=
  ∀ first, segments[0]? = some first →
    ∀ index segment, index < 65536 → segments[index]? = some segment →
      (∀ earlier other, earlier < index → segments[earlier]? = some other →
        first.Walkable other) →
      first.InOrder segment

/-! ## One access -/

section Accesses

variable {pci : Pci} {access : Access} {segment first : Segment}

/-- The access goes to a segment in order. -/
structure Access.InSegment (pci : Pci) (access : Access)
    (segment first : Segment) : Prop where
  listed : pci.segmentAt access.segment.toNat = .ok segment
  base : pci.segmentAt 0 = .ok first
  bounded : segment.address + 2 ^ 28 < 2 ^ 63

/-- Where the window shows the first byte of the function. -/
def Access.shownAt (access : Access) (segment first : Segment) : Nat :=
  segment.address + access.functionIndex segment.busStart * 4096 -
    first.address + configSpace

theorem Access.InSegment.formAddress
    (inSegment : access.InSegment pci segment first)
    (inOrder : first.InOrder segment) (offset : UInt16) :
    pci.formAddress segment.address
        (access.bus.toNat - segment.busStart.toNat) access.device
        access.function offset =
      .ok (access.shownAt segment first + offset.toNat % 4096) := by
  have above := inOrder.2
  have bounded := inSegment.bounded
  have index := functionIndex_lt access segment.busStart
  refine formAddress_eq_ok.mpr ⟨first, inSegment.base, ?_, ?_, ?_, ?_⟩
  · rw [wordSize]
    omega
  · omega
  · rw [Access.shownAt]
    omega
  · rw [Access.shownAt, wordSize, configSpace, sizeTb]
    omega

theorem Segment.InOrder.bus (inOrder : first.InOrder segment) (bus : UInt8) :
    checkedSub bus.toNat segment.busStart.toNat =
      .ok (bus.toNat - segment.busStart.toNat) := by
  rw [inOrder.1]
  exact checkedSub_eq_ok.mpr ⟨Nat.zero_le _, rfl⟩

theorem Access.InSegment.addressOf
    (inSegment : access.InSegment pci segment first)
    (inOrder : first.InOrder segment) (offset : UInt16) :
    pci.addressOf access offset =
      .ok (access.shownAt segment first + offset.toNat % 4096) := by
  rw [Pci.addressOf, except_bind_eq_ok]
  refine ⟨segment, inSegment.listed, ?_⟩
  rw [except_bind_eq_ok]
  exact ⟨_, inOrder.bus access.bus, inSegment.formAddress inOrder offset⟩

theorem Access.InSegment.not_wraps
    (inSegment : access.InSegment pci segment first)
    (inOrder : first.InOrder segment) : ¬ access.Wraps pci := by
  intro wraps
  rcases wraps with own | mapped
  · rw [inSegment.addressOf inOrder] at own
    cases own
  · rw [inSegment.addressOf inOrder] at mapped
    cases mapped

/-- The first access to a segment wraps unless the segment is in order. -/
theorem Access.InSegment.inOrder
    (inSegment : access.InSegment pci segment first)
    (bus : access.bus = 0) (device : access.device = 0)
    (function : access.function = 0) (notWraps : ¬ access.Wraps pci) :
    first.InOrder segment := by
  have start : access.bus.toNat = 0 := by
    rw [bus]
    rfl
  have bounded := inSegment.bounded
  by_contra disorder
  apply notWraps
  right
  rw [Pci.addressOf, except_bind_eq_error]
  right
  refine ⟨segment, inSegment.listed, ?_⟩
  rw [except_bind_eq_error]
  by_cases zero : segment.busStart.toNat = 0
  · right
    refine ⟨0, checkedSub_eq_ok.mpr ⟨by omega, by omega⟩, ?_⟩
    have below : ¬ first.address ≤ segment.address := by
      intro above
      exact disorder ⟨UInt8.toNat_inj.mp zero, above⟩
    have summed :
        checkedAdd segment.address
            (0 <<< 20 ||| access.device.toNat <<< 15 |||
              access.function.toNat <<< 12 |||
              (0 : UInt16).toNat &&& 0xFFF) =
          .ok segment.address := by
      rw [device, function]
      refine checkedAdd_eq_ok.mpr ⟨?_, rfl⟩
      change segment.address + 0 < wordSize
      rw [wordSize]
      omega
    have underflows :
        checkedSub segment.address first.address = .error .overflow := by
      rw [checkedSub, if_neg below]
    rw [Pci.formAddress, except_bind_eq_error]
    right
    refine ⟨first, inSegment.base, ?_⟩
    rw [except_bind_eq_error]
    right
    refine ⟨segment.address, summed, ?_⟩
    rw [except_bind_eq_error]
    exact Or.inl underflows
  · left
    rw [checkedSub, if_neg (by omega)]

end Accesses

section Runs

variable {T : Type} [Mapper T] {pci : Pci} {access : Access}
  {segment first : Segment}

/-- The loop of `map_virt` does not panic. -/
theorem mapPairs_run {size : PageSize}
    (pairs : List (PhysFrame size × Page size)) (state : ConfigMachine T) :
    ∃ answer final, (mapPairs pairs).run state = .ok answer final := by
  induction pairs generalizing state with
  | nil => exact ⟨.ok (), state, rfl⟩
  | cons pair pairs inductionHypothesis =>
      obtain ⟨frame, page⟩ := pair
      rw [mapPairs, bind_run, modifyGet_run]
      simp only
      cases
        (mapTo page frame ⟨true, true, false⟩ state.table
          state.allocator).result with
      | ok value => exact inductionHypothesis _
      | error reason => exact ⟨.error reason, _, rfl⟩

theorem Access.InSegment.mapAddress_returns
    (inSegment : access.InSegment pci segment first)
    (inOrder : first.InOrder segment) (state : ConfigMachine T) :
    (∃ next,
      (pci.mapAddress access.segment access.bus access.device
          access.function).run state = .ok () next) ↔
      segment.address + 4095 < 2 ^ 52 ∧
        access.shownAt segment first + 4095 < 2 ^ 48 := by
  have bounded := inSegment.bounded
  have index := functionIndex_lt access segment.busStart
  have shown : access.shownAt segment first < 2 ^ 64 - 2 ^ 47 := by
    rw [Access.shownAt, configSpace, sizeTb]
    omega
  have formed := inSegment.formAddress inOrder 0
  have noOffset : (0 : UInt16).toNat % 4096 = 0 := by decide
  rw [noOffset, Nat.add_zero] at formed
  rw [Pci.mapAddress, inSegment.listed,
    bind_run_of_ok _ (ofExcept_run (.ok _) state),
    inOrder.bus access.bus,
    bind_run_of_ok _ (ofExcept_run (.ok _) state), formed,
    bind_run_of_ok _ (ofExcept_run (.ok _) state)]
  constructor
  · intro returned
    obtain ⟨next, returned⟩ := returned
    simp only [bind_run_ok, ofExcept_run_ok, PhysAddr.new_eq_ok,
      mapVirt_run_ok] at returned
    obtain
      ⟨phys, _, ⟨physical, rfl⟩, virt, _, ⟨created, rfl⟩, _, _, ⟨physFits,
        virtFits, _⟩, _⟩ :=
        returned
    have low := VirtAddr.new_low48 created
    have bounds := VirtAddr.new_bounds created
    omega
  · intro fits
    have physical : segment.address < 2 ^ 52 := by omega
    have virtual : access.shownAt segment first < 2 ^ 48 := by omega
    have phys :
        PhysAddr.new segment.address = .ok ⟨segment.address, physical⟩ :=
      PhysAddr.new_eq_ok.mpr rfl
    have virt :
        VirtAddr.new (access.shownAt segment first) =
          .ok ⟨access.shownAt segment first, virtual⟩ := by
      rw [VirtAddr.new, dif_pos virtual]
    obtain ⟨answer, final, mapped⟩ :=
      mapPairs_run
        (mapVirtPairs .size4KiB ⟨segment.address, physical⟩
          ⟨access.shownAt segment first, virtual⟩ 4095) state
    have ran := mapVirt_run_ok.mpr ⟨fits.1, fits.2, mapped⟩
    rw [phys, bind_run_of_ok _ (ofExcept_run (.ok _) state), virt,
      bind_run_of_ok _ (ofExcept_run (.ok _) state), bind_run_of_ok _ ran]
    exact ⟨final, rfl⟩

/-- An access in order returns when its page can be mapped. -/
theorem Access.InSegment.perform_returns
    (inSegment : access.InSegment pci segment first)
    (inOrder : first.InOrder segment) (state : ConfigMachine T) :
    (∃ next, (access.perform pci).run state = .ok () next) ↔
      segment.address + 4095 < 2 ^ 52 ∧
        access.shownAt segment first + 4095 < 2 ^ 48 := by
  rw [← inSegment.mapAddress_returns inOrder state, access.perform_eq,
    Pci.access, inSegment.listed,
    bind_run_of_ok _ (ofExcept_run (.ok _) state),
    inOrder.bus access.bus,
    bind_run_of_ok _ (ofExcept_run (.ok _) state),
    inSegment.formAddress inOrder,
    bind_run_of_ok _ (ofExcept_run (.ok _) state)]
  constructor
  · intro returned
    obtain ⟨next, returned⟩ := returned
    obtain ⟨_, middle, mapped, _⟩ := bind_run_ok.mp returned
    exact ⟨middle, mapped⟩
  · intro returned
    obtain ⟨next, mapped⟩ := returned
    rw [bind_run_of_ok _ mapped]
    exact ⟨_, modify_run _ next⟩

end Runs

/-! ## The functions of a segment in the window -/

theorem functionIndex_first (access : Access)
    (device : access.device.toNat < 32) (function : access.function = 0) :
    access.functionIndex 0 =
      access.bus.toNat * 256 + access.device.toNat * 8 := by
  have low : access.device.toNat <<< 3 < 2 ^ 8 := by
    rw [Nat.shiftLeft_eq]
    omega
  have noBus : (0 : UInt8).toNat = 0 := rfl
  rw [Access.functionIndex, function, noBus, Nat.or_zero, Nat.sub_zero,
    ← Nat.shiftLeft_add_eq_or_of_lt low, Nat.shiftLeft_eq, Nat.shiftLeft_eq]

/-- All first functions of a walkable segment can be accessed. -/
theorem Segment.Walkable.shown {segment first : Segment}
    (walkable : first.Walkable segment) (inOrder : first.InOrder segment)
    {access : Access} (device : access.device.toNat < 32)
    (function : access.function = 0) :
    access.shownAt segment first + 4095 < 2 ^ 48 := by
  have bus := access.bus.toNat_lt
  have above := inOrder.2
  have fits := walkable.2
  rw [Access.shownAt, inOrder.1, functionIndex_first access device function]
  omega

/-- A segment whose last device can be accessed is walkable. -/
theorem walkable_of_last {segment first : Segment}
    (inOrder : first.InOrder segment) {access : Access}
    (bus : access.bus = 255) (device : access.device = 31)
    (function : access.function = 0)
    (fits :
      segment.address + 4095 < 2 ^ 52 ∧
        access.shownAt segment first + 4095 < 2 ^ 48) :
    first.Walkable segment := by
  have busNumber : access.bus.toNat = 255 := by
    rw [bus]
    rfl
  have deviceNumber : access.device.toNat = 31 := by
    rw [device]
    rfl
  have above := inOrder.2
  obtain ⟨physical, fits⟩ := fits
  rw [Access.shownAt, inOrder.1,
    functionIndex_first access (by omega) function, busNumber,
    deviceNumber] at fits
  exact ⟨physical, by omega⟩

/-! ## Walks -/

section Keeping

variable {σ : Type} {config : ConfigAccess σ}
  {callback : FunctionAddress → EStateM Panic σ Unit} {P : σ → Prop}
  {segment : UInt16}

theorem checkFunctions_keeps {bus device : UInt8}
    (readU8 :
      ∀ address offset, address.segment = segment →
        Keeps P (config.readU8 address offset))
    (readU16 :
      ∀ address offset, address.segment = segment →
        Keeps P (config.readU16 address offset))
    (called : ∀ address, Keeps P (callback address)) (vendor : UInt16) :
    Keeps P (checkFunctions config callback segment bus device vendor) := by
  rw [checkFunctions]
  by_cases missing : vendor = 0xFFFF
  · rw [if_pos missing]
    exact Preserves.pure ()
  · rw [if_neg missing]
    apply Preserves.bind (called _)
    intro _
    apply Preserves.bind (readU8 _ _ rfl)
    intro header
    by_cases several : header &&& 0x80 ≠ 0
    · rw [if_pos several]
      apply Preserves.forM
      intro function _
      apply Preserves.bind (readU16 _ _ rfl)
      intro vendor
      by_cases there : vendor ≠ 0xFFFF
      · rw [if_pos there]
        exact called _
      · rw [if_neg there]
        exact Preserves.pure ()
    · rw [if_neg several]
      exact Preserves.pure ()

/-- The walk of a segment keeps what its reads and the callback keep. -/
theorem checkSegment_keeps
    (readU8 :
      ∀ address offset, address.segment = segment →
        Keeps P (config.readU8 address offset))
    (readU16 :
      ∀ address offset, address.segment = segment →
        Keeps P (config.readU16 address offset))
    (called : ∀ address, Keeps P (callback address)) :
    Keeps P (checkSegment config callback segment) := by
  apply Preserves.forM
  intro bus _
  apply Preserves.forM
  intro device _
  apply Preserves.bind (readU16 _ _ rfl)
  exact checkFunctions_keeps readU8 readU16 called

/-- The walk of a segment begins with a read of its first vendor. -/
theorem checkSegment_establishes
    (first :
      Establishes P (config.readU16 ⟨segment, 0, 0, 0⟩ Pci.vendorId))
    (readU8 : ∀ address offset, Keeps P (config.readU8 address offset))
    (readU16 : ∀ address offset, Keeps P (config.readU16 address offset))
    (called : ∀ address, Keeps P (callback address)) :
    Establishes P (checkSegment config callback segment) := by
  have device (bus device : UInt8) :
      Keeps P (checkDevice config callback segment bus device) := by
    apply Preserves.bind (readU16 _ _)
    exact checkFunctions_keeps (fun address offset _ => readU8 address offset)
      (fun address offset _ => readU16 address offset) called
  have buses : numbers 0 256 = 0 :: numbers 1 255 := rfl
  have devices : numbers 0 32 = 0 :: numbers 1 31 := rfl
  rw [checkSegment, buses]
  apply Establishes.forM_cons
  · rw [devices]
    apply Establishes.forM_cons
    · apply Establishes.bind first
      exact checkFunctions_keeps
        (fun address offset _ => readU8 address offset)
        (fun address offset _ => readU16 address offset) called
    · intro later _
      exact device 0 later
  · intro later _
    apply Preserves.forM
    intro number _
    exact device later number

end Keeping

theorem segmentAt_eq_ok {segments : List Segment} {index : Nat}
    {segment : Segment} :
    (⟨some segments⟩ : Pci).segmentAt index = .ok segment ↔
      segments[index]? = some segment := by
  cases found : segments[index]? with
  | none => simp [Pci.segmentAt, found]
  | some other => simp [Pci.segmentAt, found]

/-- No access wraps. -/
def Unwrapped (pci : Pci) (begun : List Access) : Prop :=
  ∀ access ∈ begun, ¬ access.Wraps pci

theorem Unwrapped.append {pci : Pci} {access : Access}
    (notWraps : ¬ access.Wraps pci) (begun : List Access)
    (unwrapped : Unwrapped pci begun) :
    Unwrapped pci (begun ++ [access]) := by
  intro other member
  rcases List.mem_append.mp member with earlier | last
  · exact unwrapped other earlier
  · rw [List.mem_singleton.mp last]
    exact notWraps

section Walk

variable {T : Type} [Mapper T] {segments : List Segment}
  {first segment : Segment} {index : Nat}
  {spaces : ConfigSpaces}
  {callback : FunctionAddress → EStateM Panic (ConfigMachine T) Unit}
  {state final : ConfigMachine T × List Access}

/-- The walk of one segment; the callback runs on the machine. -/
def walkSegment (segments : List Segment) (spaces : ConfigSpaces)
    (callback : FunctionAddress → EStateM Panic (ConfigMachine T) Unit)
    (index : Nat) : EStateM Panic (ConfigMachine T × List Access) Unit :=
  checkSegment ((⟨some segments⟩ : Pci).config spaces).logged
    (fun address => beside (callback address)) (UInt16.ofNat index)

omit [Mapper T] in
theorem inSegment_of_getElem?
    (bounded : ∀ segment ∈ segments, segment.address + 2 ^ 28 < 2 ^ 63)
    (base : segments[0]? = some first)
    (found : segments[index % 65536]? = some segment) {access : Access}
    (same : access.segment = UInt16.ofNat index) :
    access.InSegment ⟨some segments⟩ segment first := by
  refine ⟨segmentAt_eq_ok.mpr ?_, segmentAt_eq_ok.mpr base, ?_⟩
  · rw [same, UInt16.toNat_ofNat']
    exact found
  · exact bounded segment (List.mem_of_getElem? found)

theorem walkSegment_unwrapped
    (bounded : ∀ segment ∈ segments, segment.address + 2 ^ 28 < 2 ^ 63)
    (base : segments[0]? = some first)
    (found : segments[index % 65536]? = some segment)
    (inOrder : first.InOrder segment) :
    Keeps
      (fun state : ConfigMachine T × List Access =>
        Unwrapped ⟨some segments⟩ state.2)
      (walkSegment segments spaces callback index) := by
  have notWraps (address : FunctionAddress)
      (same : address.segment = UInt16.ofNat index) (operation : Operation)
      (offset : UInt16) :
      ¬ (address.access operation offset).Wraps ⟨some segments⟩ :=
    (inSegment_of_getElem? bounded base found same).not_wraps inOrder
  apply checkSegment_keeps
  · intro address offset same
    exact noting_keeps (Unwrapped.append (notWraps address same _ offset)) _
  · intro address offset same
    exact noting_keeps (Unwrapped.append (notWraps address same _ offset)) _
  · intro address
    exact beside_keeps (Unwrapped ⟨some segments⟩) _

/-- A segment whose walk returns is walkable. -/
theorem walkSegment_returned
    (bounded : ∀ segment ∈ segments, segment.address + 2 ^ 28 < 2 ^ 63)
    (base : segments[0]? = some first)
    (found : segments[index % 65536]? = some segment)
    (inOrder : first.InOrder segment) {result : Unit}
    (returned :
      (walkSegment segments spaces callback index).run state =
        .ok result final) :
    first.Walkable segment := by
  obtain ⟨_, _, busChecked⟩ :=
    forM_run_ok_mem returned
      ((mem_numbers (by decide)).mpr (by decide : 0 ≤ (255 : UInt8).toNat ∧
        (255 : UInt8).toNat < 0 + 256))
  obtain ⟨_, _, checked⟩ :=
    forM_run_ok_mem busChecked
      ((mem_numbers (by decide)).mpr (by decide : 0 ≤ (31 : UInt8).toNat ∧
        (31 : UInt8).toNat < 0 + 32))
  rw [checkDevice, bind_run_ok] at checked
  obtain ⟨vendor, middle, read, _⟩ := checked
  obtain ⟨_, reached, performed, _⟩ := bind_run_ok.mp (noting_run_ok.mp read).1
  have last :
      ((⟨UInt16.ofNat index, 255, 31, 0⟩ : FunctionAddress).access .readU16
        Pci.vendorId).InSegment ⟨some segments⟩ segment first :=
    inSegment_of_getElem? bounded base found rfl
  exact walkable_of_last inOrder rfl rfl rfl
    ((last.perform_returns inOrder _).mp ⟨reached, performed⟩)

/-- Every segment that the walk has gone past is walkable. -/
def Passed (segments : List Segment) (first : Segment) (index : Nat) : Prop :=
  ∀ earlier other, earlier < index → earlier < 65536 →
    segments[earlier]? = some other → first.Walkable other

omit [Mapper T] in
/-- The segment that an index of the walk is cut to is in order. -/
theorem SegmentsInOrder.inOrder (ordered : SegmentsInOrder segments)
    (base : segments[0]? = some first) (passed : Passed segments first index)
    (found : segments[index % 65536]? = some segment) :
    first.InOrder segment := by
  have cut : index % 65536 < 65536 := Nat.mod_lt _ (by decide)
  have below : index % 65536 ≤ index := Nat.mod_le _ _
  apply ordered first base (index % 65536) segment cut found
  intro earlier other before listed
  exact passed earlier other (by omega) (by omega) listed

/-- One turn of the walk: nothing wraps, and a turn that returns has gone past
its segment. -/
theorem walkSegment_turn (spaces : ConfigSpaces)
    (callback : FunctionAddress → EStateM Panic (ConfigMachine T) Unit)
    (ordered : SegmentsInOrder segments)
    (bounded : ∀ segment ∈ segments, segment.address + 2 ^ 28 < 2 ^ 63)
    (base : segments[0]? = some first) (passed : Passed segments first index)
    (inRange : index < segments.length)
    (unwrapped : Unwrapped ⟨some segments⟩ state.2) :
    (∃ next,
      (walkSegment segments spaces callback index).run state = .ok () next ∧
        Passed segments first (index + 1) ∧
        Unwrapped ⟨some segments⟩ next.2) ∨
    ∃ fault next,
      (walkSegment segments spaces callback index).run state =
          .error fault next ∧
        Unwrapped ⟨some segments⟩ next.2 := by
  have below : index % 65536 ≤ index := Nat.mod_le _ _
  rcases List.getElem?_eq_some_iff.mpr
      ⟨(by omega : index % 65536 < segments.length), rfl⟩ with found
  have inOrder := ordered.inOrder base passed found
  have kept :
      Unwrapped ⟨some segments⟩
        (finalState
          ((walkSegment segments spaces callback index).run state)).2 :=
    walkSegment_unwrapped bounded base found inOrder state unwrapped
  cases ran : (walkSegment segments spaces callback index).run state with
  | error fault next =>
      rw [ran] at kept
      exact Or.inr ⟨fault, next, rfl, kept⟩
  | ok value next =>
      rw [ran] at kept
      refine Or.inl ⟨next, rfl, ?_, kept⟩
      intro earlier other before cut listed
      by_cases last : earlier = index
      · subst last
        rw [← Nat.mod_eq_of_lt cut] at listed
        have walkable := walkSegment_returned bounded base found inOrder ran
        rw [found] at listed
        cases listed
        exact walkable
      · exact passed earlier other (by omega) cut listed

/-- The walk over all segments, beside the accesses that it begins. -/
def walk (segments : List Segment) (spaces : ConfigSpaces)
    (callback : FunctionAddress → EStateM Panic (ConfigMachine T) Unit) :
    EStateM Panic (ConfigMachine T × List Access) Unit :=
  traverseDevices ((⟨some segments⟩ : Pci).config spaces).logged
    (fun address => beside (callback address)) ⟨some segments⟩

theorem walk_run (state : ConfigMachine T × List Access) :
    (walk segments spaces callback).run state =
      ((List.range segments.length).forM
        (walkSegment segments spaces callback)).run state := by
  rw [walk, traverseDevices, Pci.segments_some,
    bind_run_of_ok _ (ofExcept_run (.ok segments) state)]
  rfl

/-- The walk has the indices `rest` before it, has gone past the others, and
has begun no access that wraps. -/
def UnwrappedBefore (segments : List Segment) (first : Segment)
    (rest : List Nat) (state : ConfigMachine T × List Access) : Prop :=
  ∃ index,
    rest = List.range' index (segments.length - index) ∧
      Passed segments first index ∧ Unwrapped ⟨some segments⟩ state.2

theorem walk_unwrapped (ordered : SegmentsInOrder segments)
    (bounded : ∀ segment ∈ segments, segment.address + 2 ^ 28 < 2 ^ 63)
    (base : segments[0]? = some first)
    (unwrapped : Unwrapped ⟨some segments⟩ state.2) :
    Unwrapped ⟨some segments⟩
      (finalState ((walk segments spaces callback).run state)).2 := by
  have turn (index : Nat) (rest : List Nat)
      (before : ConfigMachine T × List Access)
      (ahead : UnwrappedBefore segments first (index :: rest) before) :
      (∃ next,
        (walkSegment segments spaces callback index).run before =
            .ok () next ∧
          UnwrappedBefore segments first rest next) ∨
      ∃ fault next,
        (walkSegment segments spaces callback index).run before =
            .error fault next ∧
          Unwrapped ⟨some segments⟩ next.2 := by
    obtain ⟨own, indices, passed, held⟩ := ahead
    have inRange : own < segments.length := by
      by_contra ended
      rw [Nat.sub_eq_zero_of_le (by omega)] at indices
      cases indices
    have count :
        segments.length - own = segments.length - (own + 1) + 1 := by
      omega
    rw [count, List.range'_succ, List.cons.injEq] at indices
    obtain ⟨rfl, later⟩ := indices
    rcases walkSegment_turn spaces callback ordered bounded base passed
        inRange held with
      ⟨next, returned, further, kept⟩ | stopped
    · exact Or.inl ⟨next, returned, _, later, further, kept⟩
    · exact Or.inr stopped
  have start :
      UnwrappedBefore segments first (List.range segments.length) state := by
    refine ⟨0, List.range_eq_range', ?_, unwrapped⟩
    intro earlier other before
    omega
  rw [walk_run]
  rcases forM_returns (UnwrappedBefore segments first)
      (fun state => Unwrapped ⟨some segments⟩ state.2) turn start with
    ⟨final, returned, _, _, _, held⟩ | ⟨_, final, stopped, held⟩
  · rw [returned]
    exact held
  · rw [stopped]
    exact held

/-- Configuration spaces in which no function is present. -/
def noFunctions : ConfigSpaces := fun _ _ => 0xFF

omit [Mapper T] in
theorem noFunctions_u16At (address : FunctionAddress) (offset : UInt16) :
    noFunctions.u16At address offset = 0xFFFF := by
  have word : (0xFF : UInt8).toUInt16 ||| (0xFF : UInt8).toUInt16 <<< 8 =
      0xFFFF := by decide
  exact word

/-- A walkable segment in order is walked to its end when no function is
present. -/
theorem walkSegment_returns
    (bounded : ∀ segment ∈ segments, segment.address + 2 ^ 28 < 2 ^ 63)
    (base : segments[0]? = some first)
    (found : segments[index % 65536]? = some segment)
    (inOrder : first.InOrder segment) (walkable : first.Walkable segment) :
    Returns (walkSegment segments noFunctions callback index) := by
  apply Returns.forM
  intro bus _
  apply Returns.forM
  intro device member before
  have low := (mem_numbers (by decide)).mp member
  have placed :
      ((⟨UInt16.ofNat index, bus, device, 0⟩ : FunctionAddress).access
        .readU16 Pci.vendorId).InSegment ⟨some segments⟩ segment first :=
    inSegment_of_getElem? bounded base found rfl
  obtain ⟨next, performed⟩ :=
    (placed.perform_returns inOrder before.1).mpr
      ⟨walkable.1, walkable.shown inOrder low.2 rfl⟩
  have answered :
      (((⟨some segments⟩ : Pci).config noFunctions).readU16
          ⟨UInt16.ofNat index, bus, device, 0⟩ Pci.vendorId).run before.1 =
        .ok 0xFFFF next := by
    simp only [Pci.config]
    rw [bind_run_of_ok _ performed, noFunctions_u16At]
    rfl
  have read :
      (((⟨some segments⟩ : Pci).config noFunctions).logged.readU16
          ⟨UInt16.ofNat index, bus, device, 0⟩ Pci.vendorId).run before =
        .ok 0xFFFF (next, _) :=
    noting_run_ok.mpr ⟨answered, rfl⟩
  rw [checkDevice, bind_run_of_ok _ read, checkFunctions, if_pos rfl]
  exact Returns.pure () _

theorem walkSegment_keeps (entry : Access) :
    Keeps (fun state : ConfigMachine T × List Access => entry ∈ state.2)
      (walkSegment segments spaces callback index) := by
  apply checkSegment_keeps
  · intro address offset _
    exact noting_keeps_mem entry _ _
  · intro address offset _
    exact noting_keeps_mem entry _ _
  · intro address
    exact beside_keeps (fun begun => entry ∈ begun) _

/-- The access with which the walk of a segment begins. -/
def firstAccess (index : Nat) : Access :=
  (⟨UInt16.ofNat index, 0, 0, 0⟩ : FunctionAddress).access .readU16
    Pci.vendorId

theorem walkSegment_begins (segments : List Segment) (spaces : ConfigSpaces)
    (callback : FunctionAddress → EStateM Panic (ConfigMachine T) Unit)
    (index : Nat) :
    Establishes
      (fun state : ConfigMachine T × List Access =>
        firstAccess index ∈ state.2)
      (walkSegment segments spaces callback index) := by
  apply checkSegment_establishes
  · exact noting_establishes (firstAccess index) _
  · intro address offset
    exact noting_keeps_mem (firstAccess index) _ _
  · intro address offset
    exact noting_keeps_mem (firstAccess index) _ _
  · intro address
    exact beside_keeps (fun begun => firstAccess index ∈ begun) _

/-- The walk comes to a segment when the walks of the segments before it
return. -/
theorem walk_begins (inRange : index < segments.length)
    (returns :
      ∀ earlier < index,
        Returns (walkSegment segments spaces callback earlier)) :
    firstAccess index ∈
      (finalState ((walk segments spaces callback).run state)).2 := by
  have indices :
      List.range segments.length =
        List.range index ++
          index :: List.range' (index + 1) (segments.length - index - 1) := by
    have parts :=
      List.range'_append_1 (s := 0) (m := index)
        (n := segments.length - index - 1 + 1)
    rw [Nat.zero_add, List.range'_succ] at parts
    have count :
        index + (segments.length - index - 1 + 1) = segments.length := by
      omega
    rw [List.range_eq_range', List.range_eq_range', parts, count]
  have front :
      Returns ((List.range index).forM
        (walkSegment segments spaces callback)) := by
    apply Returns.forM
    intro earlier member
    exact returns earlier (List.mem_range.mp member)
  obtain ⟨_, middle, walked⟩ := front state
  have later :
      ∀ next ∈ List.range' (index + 1) (segments.length - index - 1),
        Keeps
          (fun state : ConfigMachine T × List Access =>
            firstAccess index ∈ state.2)
          (walkSegment segments spaces callback next) :=
    fun _ _ => walkSegment_keeps _
  have begun :=
    Establishes.forM_cons
      (walkSegment_begins segments spaces callback index) later middle
  rw [List.forM_eq_forM] at walked begun
  rw [walk_run, indices, List.forM_eq_forM, List.forM_append,
    bind_run_of_ok _ walked]
  exact begun

/-- A walk in which nothing wraps, whatever the functions, finds its segments
in order. -/
theorem segmentsInOrder_of_unwrapped
    (bounded : ∀ segment ∈ segments, segment.address + 2 ^ 28 < 2 ^ 63)
    (never :
      Unwrapped ⟨some segments⟩
        (finalState
          ((walk segments noFunctions callback).run state)).2) :
    SegmentsInOrder segments := by
  intro first base index
  induction index using Nat.strongRecOn with
  | ind index inductionHypothesis =>
      intro segment cut found passed
      have inRange : index < segments.length :=
        (List.getElem?_eq_some_iff.mp found).1
      have cutFound : segments[index % 65536]? = some segment := by
        rw [Nat.mod_eq_of_lt cut]
        exact found
      have returns (earlier : Nat) (before : earlier < index) :
          Returns (walkSegment segments noFunctions callback earlier) := by
        have earlierCut : earlier < 65536 := by omega
        rcases List.getElem?_eq_some_iff.mpr
            ⟨Nat.lt_trans before inRange, rfl⟩ with earlierFound
        generalize segments[earlier] = other at earlierFound
        have inOrder :=
          inductionHypothesis earlier before other earlierCut earlierFound
            fun first segment further listed =>
              passed first segment (Nat.lt_trans further before) listed
        have walkable := passed earlier other before earlierFound
        rw [← Nat.mod_eq_of_lt earlierCut] at earlierFound
        exact walkSegment_returns bounded base earlierFound inOrder walkable
      have inSegment :
          (firstAccess index).InSegment ⟨some segments⟩ segment first :=
        inSegment_of_getElem? bounded base cutFound rfl
      exact inSegment.inOrder rfl rfl rfl
        (never _ (walk_begins inRange returns))

end Walk

/-- The arithmetic of the walk never wraps exactly when each segment that the
walk comes to counts its buses from 0 and does not lie below the first one. -/
theorem traverseDevices_unwrapped_iff {T : Type} [Mapper T]
    {segments : List Segment}
    (bounded : ∀ segment ∈ segments, segment.address + 2 ^ 28 < 2 ^ 63)
    (machine : ConfigMachine T) :
    (∀ spaces callback, ∀ access ∈
        (finalState
          ((walk segments spaces callback).run (machine, []))).2,
      ¬ access.Wraps ⟨some segments⟩) ↔
      SegmentsInOrder segments := by
  constructor
  · intro never
    exact segmentsInOrder_of_unwrapped bounded
      (never noFunctions fun _ => pure ())
  · intro ordered spaces callback
    cases base : segments[0]? with
    | none =>
        have empty : segments = [] :=
          List.eq_nil_of_length_eq_zero
            (Nat.le_zero.mp (List.getElem?_eq_none_iff.mp base))
        subst empty
        intro access begun
        cases begun
    | some first =>
        apply walk_unwrapped ordered bounded base
        intro access begun
        cases begun

theorem traverseDevices_unwrapped_oneSegment :
    Unwrapped ⟨some [⟨0xE0000000, 0⟩]⟩
      (finalState
        ((walk [⟨0xE0000000, 0⟩] bridgeSpaces fun _ => pure ()).run
          (freshWindow, []))).2 := by
  have ordered : SegmentsInOrder [⟨0xE0000000, 0⟩] := by
    intro first base index segment _ found _
    cases base
    cases index with
    | zero =>
        cases found
        exact ⟨rfl, Nat.le_refl _⟩
    | succ index => cases found
  exact (traverseDevices_unwrapped_iff (by decide) freshWindow).mpr ordered
    bridgeSpaces fun _ => pure ()

/-- The buses of the segment are counted from 1. -/
theorem traverseDevices_wraps_lateBus :
    ∃ access ∈
        (finalState
          ((walk [⟨0xE0000000, 1⟩] noFunctions fun _ => pure ()).run
            (freshWindow, []))).2,
      access.Wraps ⟨some [⟨0xE0000000, 1⟩]⟩ := by
  refine ⟨firstAccess 0, ?_, Or.inl (by decide)⟩
  apply walk_begins (by decide)
  intro earlier before
  cases before

end RustKernel.Kernel
