import RustKernel.Kernel.Pci
import RustKernel.Paging.Translation

/-!
# What `map_virt` maps

`map_virt` zips an inclusive range of frames with an inclusive range of pages.
When the physical and the virtual address agree within a page, both ranges have
the same length and stay in step, so that every address of the range is
translated by the same distance.
-/

namespace RustKernel.Kernel

open RustKernel.Foundations
open RustKernel.Machine
open RustKernel.Paging

/-! ## Ranges in step -/

theorem getElem?_range'_eq_some {first count distance number : Nat} :
    (List.range' first count)[distance]? = some number ↔
      distance < count ∧ first + distance = number := by
  rw [List.getElem?_eq_some_iff]
  simp [List.getElem_range']

/-- The pairs of two zipped ranges lie at the same distance from their first
elements. -/
theorem mem_zip_rangeInclusive {size : PageSize}
    {firstFrame lastFrame : PhysFrame size} {firstPage lastPage : Page size}
    {pair : PhysFrame size × Page size} :
    pair ∈ (PhysFrame.rangeInclusive firstFrame lastFrame).zip
        (Page.rangeInclusive firstPage lastPage) ↔
      ∃ distance,
        firstFrame.number + distance ≤ lastFrame.number ∧
          firstPage.number + distance ≤ lastPage.number ∧
          pair =
            (⟨firstFrame.number + distance⟩,
              ⟨firstPage.number + distance⟩) := by
  obtain ⟨frame, page⟩ := pair
  rw [List.mem_iff_getElem?]
  simp only [List.getElem?_zip_eq_some, PhysFrame.rangeInclusive,
    Page.rangeInclusive, List.getElem?_map, Option.map_eq_some_iff,
    getElem?_range'_eq_some, Prod.mk.injEq]
  constructor
  · intro found
    obtain ⟨distance, ⟨_, ⟨frameBound, rfl⟩, rfl⟩, _, ⟨pageBound, rfl⟩, rfl⟩ :=
      found
    exact ⟨distance, by omega, by omega, rfl, rfl⟩
  · intro inStep
    obtain ⟨distance, frameBound, pageBound, rfl, rfl⟩ := inStep
    exact ⟨distance, ⟨_, ⟨by omega, rfl⟩, rfl⟩, _, ⟨by omega, rfl⟩, rfl⟩

theorem zip_rangeInclusive_pairwise {size : PageSize}
    (frames : List (PhysFrame size)) (first last : Page size) :
    (frames.zip (Page.rangeInclusive first last)).Pairwise
      (fun left right => left.2 ≠ right.2) := by
  rw [List.pairwise_iff_getElem]
  intro left right leftBound rightBound ordered same
  rw [List.getElem_zip, List.getElem_zip] at same
  have equal :=
    (List.Nodup.getElem_inj_iff (Page.rangeInclusive_nodup first last)).mp same
  omega

/-- Two addresses that agree within a block cross the ends of blocks
together. -/
theorem div_add_of_mod_eq {left right unit : Nat} (positive : 0 < unit)
    (agree : left % unit = right % unit) (offset : Nat) :
    (left + offset) / unit + right / unit =
        (right + offset) / unit + left / unit ∧
      (left + offset) % unit = (right + offset) % unit := by
  have leftSplit := Nat.div_add_mod left unit
  have rightSplit := Nat.div_add_mod right unit
  constructor
  · have leftSum :
        left + offset = unit * (left / unit) + (left % unit + offset) := by
      omega
    have rightSum :
        right + offset = unit * (right / unit) + (left % unit + offset) := by
      omega
    rw [leftSum, rightSum, Nat.mul_add_div positive, Nat.mul_add_div positive]
    omega
  · rw [Nat.add_mod, agree, ← Nat.add_mod]

/-! ## The loop -/

section Loop

variable {T : Type} [Mapper T] {size : PageSize}
variable {frame : PhysFrame size} {page : Page size}
variable {pairs : List (PhysFrame size × Page size)}
variable {state final : ConfigMachine T}

theorem mapPairs_nil_ok :
    (mapPairs ([] : List (PhysFrame size × Page size))).run state =
        .ok (.ok ()) final ↔
      state = final := by
  rw [mapPairs, pure_run_ok]
  simp

theorem mapPairs_cons_ok :
    (mapPairs ((frame, page) :: pairs)).run state = .ok (.ok ()) final ↔
      (mapTo page frame ⟨true, true, false⟩ state.table
          state.allocator).result = .ok () ∧
        (mapPairs pairs).run (state.mapped page frame) =
          .ok (.ok ()) final := by
  rw [mapPairs, bind_run, modifyGet_run]
  simp only
  cases
    (mapTo page frame ⟨true, true, false⟩ state.table
      state.allocator).result with
  | ok value => simp
  | error reason =>
      simp only [pure_run_ok]
      simp

variable [LawfulMapper T]

/-- The effect of the call that one turn makes. -/
theorem mapped_effect (page : Page size) (frame : PhysFrame size)
    (state : ConfigMachine T) :
    MapToEffect page frame ⟨true, true, false⟩ state.table state.allocator
      (mapTo page frame ⟨true, true, false⟩ state.table state.allocator) :=
  LawfulMapper.mapTo_effect state.table state.allocator page frame _ rfl

theorem mapPairs_leaf_kept
    (mapped : (mapPairs pairs).run state = .ok (.ok ()) final)
    {flags : PageTableFlags}
    (leaf : entry state.table size page = .leaf frame flags) :
    entry final.table size page = .leaf frame flags := by
  induction pairs generalizing state with
  | nil =>
      rw [mapPairs_nil_ok] at mapped
      rw [← mapped]
      exact leaf
  | cons pair pairs inductionHypothesis =>
      obtain ⟨nextFrame, nextPage⟩ := pair
      rw [mapPairs_cons_ok] at mapped
      have effect := mapped_effect nextPage nextFrame state
      obtain ⟨new, kept, same⟩ := effect.leaf_kept leaf
      rw [same (by simp [mapped.1])] at kept
      exact inductionHypothesis mapped.2 kept

/-- A loop that ends well has mapped its pairs. -/
theorem mapPairs_leaves
    (mapped : (mapPairs pairs).run state = .ok (.ok ()) final)
    {pair : PhysFrame size × Page size} (member : pair ∈ pairs) :
    entry final.table size pair.2 = .leaf pair.1 ⟨true, true, false⟩ := by
  induction pairs generalizing state with
  | nil => cases member
  | cons head pairs inductionHypothesis =>
      obtain ⟨frame, page⟩ := head
      rw [mapPairs_cons_ok] at mapped
      have effect := mapped_effect page frame state
      rcases List.mem_cons.mp member with rfl | later
      · exact mapPairs_leaf_kept mapped.2 (effect.mapped mapped.1).2
      · exact inductionHypothesis mapped.2 later

theorem mapPairs_translate_kept
    (mapped : (mapPairs pairs).run state = .ok (.ok ()) final)
    {address : Nat}
    (outside : ∀ pair ∈ pairs, address / size.bytes ≠ pair.2.number) :
    translate final.table address = translate state.table address := by
  induction pairs generalizing state with
  | nil =>
      rw [mapPairs_nil_ok] at mapped
      rw [mapped]
  | cons pair pairs inductionHypothesis =>
      obtain ⟨frame, page⟩ := pair
      rw [mapPairs_cons_ok] at mapped
      have effect := mapped_effect page frame state
      rw [inductionHypothesis mapped.2 fun later member =>
        outside later (by simp [member])]
      exact effect.translate_kept mapped.1 (outside (frame, page) (by simp))

/-- A loop over unmapped pages ends well. -/
theorem mapPairs_returns
    (distinct : pairs.Pairwise (fun left right => left.2 ≠ right.2))
    (unmapped : ∀ pair ∈ pairs, Unmapped state.table pair.2)
    (supplied : Supplied state.allocator) :
    ∃ final, (mapPairs pairs).run state = .ok (.ok ()) final ∧
      Supplied final.allocator ∧
      ∀ page : Page size, Unmapped state.table page →
        (∀ pair ∈ pairs, pair.2 ≠ page) → Unmapped final.table page := by
  induction pairs generalizing state with
  | nil =>
      exact ⟨state, mapPairs_nil_ok.mpr rfl, supplied,
        fun page unmapped _ => unmapped⟩
  | cons pair pairs inductionHypothesis =>
      obtain ⟨frame, page⟩ := pair
      rw [List.pairwise_cons] at distinct
      have effect := mapped_effect page frame state
      have succeeded :=
        effect.ok_of_unmapped (unmapped (frame, page) (by simp))
          supplied.not_out
      have stillUnmapped :
          ∀ pair ∈ pairs, Unmapped (state.mapped page frame).table pair.2 := by
        intro later member
        exact effect.unmapped_kept (unmapped later (by simp [member]))
          (apart_iff_ne.mpr (distinct.1 later member))
      obtain ⟨final, mapped, finalSupplied, others⟩ :=
        inductionHypothesis distinct.2 stillUnmapped
          (supplied.later effect.advances)
      refine ⟨final, mapPairs_cons_ok.mpr ⟨succeeded, mapped⟩, finalSupplied, ?_⟩
      intro other otherUnmapped different
      apply others other
      · exact effect.unmapped_kept otherUnmapped
          (apart_iff_ne.mpr (different (frame, page) (by simp)))
      · intro later member
        exact different later (by simp [member])

end Loop

/-! ## The call -/

section Call

variable {T : Type} [Mapper T] {size : PageSize}
variable {phys : PhysAddr} {virt : VirtAddr} {length : Nat}
variable {state final : ConfigMachine T}

/-- The frames and pages that `map_virt` pairs. -/
def mapVirtPairs (size : PageSize) (phys : PhysAddr) (virt : VirtAddr)
    (length : Nat) : List (PhysFrame size × Page size) :=
  (PhysFrame.rangeInclusive ⟨phys.value / size.bytes⟩
      ⟨(phys.value + length) / size.bytes⟩).zip
    (Page.rangeInclusive ⟨virt.low48 / size.bytes⟩
      ⟨(virt.low48 + length) / size.bytes⟩)

/-- Adding within the range of addresses adds to the low bits. -/
theorem virtEnd_low48 {sum : Nat} {virtEnd : VirtAddr}
    (short : length < 2 ^ 52)
    (summed : checkedAdd (rawAddress virt) length = .ok sum)
    (created : VirtAddr.new sum = .ok virtEnd) :
    virtEnd.low48 = virt.low48 + length := by
  rw [checkedAdd_eq_ok, wordSize] at summed
  have low := VirtAddr.new_low48 created
  have bounds := VirtAddr.new_bounds created
  have inRange := virt.inRange
  unfold rawAddress at summed
  split at summed <;> omega

/-- A call that does not panic is the loop over its pairs. -/
theorem mapVirt_run_ok {answer : Except (MapToError size) Unit} :
    (mapVirt size phys virt length).run state = .ok answer final ↔
      phys.value + length < 2 ^ 52 ∧ virt.low48 + length < 2 ^ 48 ∧
        (mapPairs (mapVirtPairs size phys virt length)).run state =
          .ok answer final := by
  unfold mapVirt
  simp only [bind_run_ok, ofExcept_run_ok, checkedAdd_eq_ok,
    PhysAddr.new_eq_ok]
  constructor
  · intro returned
    obtain
      ⟨_, _, ⟨⟨_, rfl⟩, rfl⟩, physEnd, _, ⟨physEq, rfl⟩, virtSum, _,
        ⟨virtSummed, rfl⟩, virtEnd, _, ⟨virtCreated, rfl⟩, mapped⟩ :=
        returned
    have physBound := physEnd.inRange
    rw [physEq] at physBound
    have virtEq :=
      virtEnd_low48 (by omega) (checkedAdd_eq_ok.mpr virtSummed) virtCreated
    have virtBound := virtEnd.inRange
    rw [virtEq] at virtBound
    refine ⟨physBound, virtBound, ?_⟩
    simpa only [PhysFrame.containingAddress, Page.containingAddress, physEq,
      virtEq, mapVirtPairs] using mapped
  · intro bounded
    obtain ⟨physBound, virtBound, mapped⟩ := bounded
    obtain ⟨virtSum, virtEnd, virtSummed, virtCreated, virtEq⟩ :=
      virtEnd_exists virtBound
    rw [checkedAdd_eq_ok] at virtSummed
    refine ⟨_, _, ⟨⟨?_, rfl⟩, rfl⟩, ⟨_, physBound⟩, _, ⟨rfl, rfl⟩, virtSum, _,
      ⟨virtSummed, rfl⟩, virtEnd, _, ⟨virtCreated, rfl⟩, ?_⟩
    · rw [wordSize]
      omega
    · simpa only [PhysFrame.containingAddress, Page.containingAddress,
        virtEq, mapVirtPairs] using mapped

theorem mem_mapVirtPairs {pair : PhysFrame size × Page size} :
    pair ∈ mapVirtPairs size phys virt length ↔
      ∃ distance,
        phys.value / size.bytes + distance ≤
            (phys.value + length) / size.bytes ∧
          virt.low48 / size.bytes + distance ≤
            (virt.low48 + length) / size.bytes ∧
          pair =
            (⟨phys.value / size.bytes + distance⟩,
              ⟨virt.low48 / size.bytes + distance⟩) :=
  mem_zip_rangeInclusive

/-- Addresses at one distance from the two starts lie in a pair. -/
theorem mapVirtPairs_inStep
    (agree : phys.value % size.bytes = virt.low48 % size.bytes)
    {index : Nat} (within : index ≤ length) :
    (⟨(phys.value + index) / size.bytes⟩,
        ⟨(virt.low48 + index) / size.bytes⟩) ∈
      mapVirtPairs size phys virt length := by
  have inStep := (div_add_of_mod_eq size.bytes_pos agree index).1
  have physFirst :=
    Nat.div_le_div_right (c := size.bytes) (Nat.le_add_right phys.value index)
  have physLast :=
    Nat.div_le_div_right (c := size.bytes)
      (Nat.add_le_add_left within phys.value)
  have virtLast :=
    Nat.div_le_div_right (c := size.bytes)
      (Nat.add_le_add_left within virt.low48)
  have frameEq :
      phys.value / size.bytes +
          ((phys.value + index) / size.bytes - phys.value / size.bytes) =
        (phys.value + index) / size.bytes := by
    omega
  have pageEq :
      virt.low48 / size.bytes +
          ((phys.value + index) / size.bytes - phys.value / size.bytes) =
        (virt.low48 + index) / size.bytes := by
    omega
  refine mem_mapVirtPairs.mpr
    ⟨(phys.value + index) / size.bytes - phys.value / size.bytes, ?_⟩
  rw [frameEq, pageEq]
  exact ⟨physLast, virtLast, rfl⟩

/-- Over unmapped pages, with frames for the tables, the call returns `Ok`. -/
theorem mapVirt_returns [LawfulMapper T]
    (physFits : phys.value + length < 2 ^ 52)
    (virtFits : virt.low48 + length < 2 ^ 48)
    (unmapped :
      ∀ pair ∈ mapVirtPairs size phys virt length,
        Unmapped state.table pair.2)
    (supplied : Supplied state.allocator) :
    ∃ final, (mapVirt size phys virt length).run state = .ok (.ok ()) final ∧
      Supplied final.allocator ∧
      ∀ page : Page size, Unmapped state.table page →
        (∀ pair ∈ mapVirtPairs size phys virt length, pair.2 ≠ page) →
          Unmapped final.table page := by
  obtain ⟨final, mapped, finalSupplied, others⟩ :=
    mapPairs_returns (zip_rangeInclusive_pairwise _ _ _) unmapped
      supplied
  exact ⟨final, mapVirt_run_ok.mpr ⟨physFits, virtFits, mapped⟩,
    finalSupplied, others⟩

theorem rawAddress_mod (virt : VirtAddr) (size : PageSize) :
    rawAddress virt % size.bytes = virt.low48 % size.bytes := by
  unfold rawAddress
  cases size <;> simp only [PageSize.bytes] <;> split <;> omega

theorem rawAddress_add {index : Nat} (fits : virt.low48 + index < 2 ^ 48) :
    ∃ address, VirtAddr.new (rawAddress virt + index) = .ok address ∧
      address.low48 = virt.low48 + index := by
  obtain ⟨sum, address, summed, created, low⟩ := virtEnd_exists fits
  rw [checkedAdd_eq_ok] at summed
  rw [summed.2] at created
  exact ⟨address, created, low⟩

/-- A page and a frame that hold addresses which agree within a page translate
one to the other. -/
theorem translate_of_agree [LawfulMapper T] {table : T}
    {address target : Nat} {flags : PageTableFlags}
    (agree : address % size.bytes = target % size.bytes)
    (leaf :
      entry table size ⟨address / size.bytes⟩ =
        .leaf ⟨target / size.bytes⟩ flags) :
    translate table address = some (target, flags) := by
  rw [translate_of_leaf leaf, PhysFrame.startAddress, agree,
    Nat.div_add_mod']

/-- Every address of the range is translated by the distance between the
physical and the virtual address, and no other translation changes.  A call
that returns `Ok` has found each of its pages unmapped. -/
theorem mapVirt_translates [LawfulMapper T]
    (agree : phys.value % size.bytes = rawAddress virt % size.bytes)
    (mapped :
      (mapVirt size phys virt length).run state = .ok (.ok ()) final) :
    (∀ index ≤ length, ∃ address,
      VirtAddr.new (rawAddress virt + index) = .ok address ∧
        translate final.table address.low48 =
          some (phys.value + index, ⟨true, true, false⟩)) ∧
    ∀ address : VirtAddr,
      Page.containingAddress address ∉
          Page.rangeInclusive (⟨virt.low48 / size.bytes⟩ : Page size)
            ⟨(virt.low48 + length) / size.bytes⟩ →
        translate final.table address.low48 =
          translate state.table address.low48 := by
  rw [rawAddress_mod] at agree
  rw [mapVirt_run_ok] at mapped
  obtain ⟨physBound, virtBound, mapped⟩ := mapped
  have positive := size.bytes_pos
  constructor
  · intro index within
    have indexBound : virt.low48 + index < 2 ^ 48 := by omega
    obtain ⟨address, created, low⟩ := rawAddress_add indexBound
    refine ⟨address, created, ?_⟩
    rw [low]
    have sameOffset := (div_add_of_mod_eq positive agree index).2
    have leaf := mapPairs_leaves mapped (mapVirtPairs_inStep agree within)
    exact translate_of_agree sameOffset.symm leaf
  · intro address outside
    apply mapPairs_translate_kept mapped
    intro pair member inPage
    rw [mem_mapVirtPairs] at member
    obtain ⟨distance, _, pageBound, rfl⟩ := member
    apply outside
    rw [Page.mem_rangeInclusive]
    simp only [Page.containingAddress] at inPage ⊢
    omega

end Call

/-- The end of the range is the first byte of a further page. -/
theorem mapVirt_translates_toBoundary :
    ∃ final,
      (mapVirt .size2MiB ⟨0x40200000, by decide⟩ ⟨0x1900000000, by decide⟩
          0x400000).run freshWindow = .ok (.ok ()) final ∧
        (∀ index ≤ 0x400000, ∃ address,
          VirtAddr.new (rawAddress ⟨0x1900000000, by decide⟩ + index) =
              .ok address ∧
            translate final.table address.low48 =
              some (0x40200000 + index, ⟨true, true, false⟩)) ∧
        ∀ address : VirtAddr,
          Page.containingAddress address ∉
              Page.rangeInclusive (⟨0x1900000000 / 0x200000⟩ : Page .size2MiB)
                ⟨(0x1900000000 + 0x400000) / 0x200000⟩ →
            translate final.table address.low48 =
              translate freshWindow.table address.low48 := by
  have returns :
      ∃ final,
        (mapVirt .size2MiB ⟨0x40200000, by decide⟩ ⟨0x1900000000, by decide⟩
          0x400000).run freshWindow = .ok (.ok ()) final ∧ _ :=
    mapVirt_returns (by decide) (by decide)
      (fun pair _ => unmapped_of_empty (RadixTable.new_empty _) pair.2)
      (fun index _ => by simp [freshWindow])
  obtain ⟨final, mapped, _⟩ := returns
  exact ⟨final, mapped, mapVirt_translates (by decide) mapped⟩

end RustKernel.Kernel
