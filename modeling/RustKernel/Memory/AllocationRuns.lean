import Mathlib.Data.List.Nodup
import Mathlib.Data.List.Count
import RustKernel.Memory.PageTableFrameAllocator

/-!
# Runs of the page-table frame allocator

A run is any number of `allocate_frame` calls.  The abstract view of a map is
`usableFrames`, the frames of its usable descriptors in map order; the answers
of every run are an initial piece of it.
-/

namespace RustKernel.Memory

open RustKernel.Foundations
open RustKernel.Machine
open PageTableFrameAllocator

/-! ## The frames of a map -/

/-- The frames of one descriptor, in address order. -/
def descriptorFrames (descriptor : MemoryDescriptor) :
    List (PhysFrame .size4KiB) :=
  (List.range' (descriptor.physicalAddress / 4096) descriptor.size).map
    PhysFrame.mk

/-- `PageTableFrameAllocator::usable_frames`. -/
def usableFrames (map : MemoryMap) : List (PhysFrame .size4KiB) :=
  (usableDescriptors map).flatMap descriptorFrames

/-- All bytes of the frame are described by the descriptor. -/
def FrameInside
    (frame : PhysFrame .size4KiB) (descriptor : MemoryDescriptor) : Prop :=
  ∀ address, frame.Holds address → descriptor.Covers address

theorem frameInside_iff
    {frame : PhysFrame .size4KiB} {descriptor : MemoryDescriptor} :
    FrameInside frame descriptor ↔
      descriptor.physicalAddress ≤ frame.startAddress ∧
        frame.startAddress + 4096 ≤ descriptor.endAddress := by
  unfold FrameInside PhysFrame.Holds MemoryDescriptor.Covers
  simp only [PageSize.bytes]
  constructor
  · intro inside
    have first := inside frame.startAddress (by omega)
    have last := inside (frame.startAddress + 4095) (by omega)
    omega
  · intro within address held
    omega

instance (frame : PhysFrame .size4KiB) (descriptor : MemoryDescriptor) :
    Decidable (FrameInside frame descriptor) :=
  decidable_of_iff _ frameInside_iff.symm

/-- The usable part of a map is page aligned, free of overlaps, and its end
addresses are representable. -/
structure WellFormedMap (map : MemoryMap) : Prop where
  aligned :
    ∀ descriptor ∈ usableDescriptors map,
      descriptor.physicalAddress % 4096 = 0
  apart : (usableDescriptors map).Pairwise MemoryDescriptor.Apart
  representable :
    ∀ descriptor ∈ usableDescriptors map, descriptor.endAddress < wordSize

theorem mem_descriptorFrames
    {descriptor : MemoryDescriptor} {frame : PhysFrame .size4KiB} :
    frame ∈ descriptorFrames descriptor ↔
      descriptor.physicalAddress / 4096 ≤ frame.number ∧
        frame.number < descriptor.physicalAddress / 4096 + descriptor.size := by
  cases frame
  simp [descriptorFrames]

theorem frameInside_iff_mem
    {descriptor : MemoryDescriptor} {frame : PhysFrame .size4KiB}
    (aligned : descriptor.physicalAddress % 4096 = 0) :
    FrameInside frame descriptor ↔ frame ∈ descriptorFrames descriptor := by
  rw [mem_descriptorFrames, frameInside_iff]
  unfold MemoryDescriptor.endAddress PhysFrame.startAddress
  simp only [PageSize.bytes]
  omega

theorem descriptorFrames_disjoint
    {left right : MemoryDescriptor}
    (leftAligned : left.physicalAddress % 4096 = 0)
    (rightAligned : right.physicalAddress % 4096 = 0)
    (apart : left.Apart right) :
    List.Disjoint (descriptorFrames left) (descriptorFrames right) := by
  intro frame inLeft inRight
  have held : frame.Holds frame.startAddress := by
    unfold PhysFrame.Holds
    simp [PageSize.bytes]
  apply apart frame.startAddress
  constructor
  · exact (frameInside_iff_mem leftAligned).mpr inLeft _ held
  · exact (frameInside_iff_mem rightAligned).mpr inRight _ held

theorem descriptorFrames_nodup (descriptor : MemoryDescriptor) :
    (descriptorFrames descriptor).Nodup := by
  unfold descriptorFrames
  apply List.Nodup.map
  · intro left right same
    exact PhysFrame.mk.inj same
  · exact List.nodup_range'

theorem usableFrames_nodup {map : MemoryMap}
    (aligned :
      ∀ descriptor ∈ usableDescriptors map,
        descriptor.physicalAddress % 4096 = 0)
    (apart : (usableDescriptors map).Pairwise MemoryDescriptor.Apart) :
    (usableFrames map).Nodup := by
  unfold usableFrames
  rw [List.nodup_flatMap]
  refine ⟨fun descriptor _ => descriptorFrames_nodup descriptor, ?_⟩
  apply apart.imp_of_mem
  intro left right leftMember rightMember separated
  exact descriptorFrames_disjoint (aligned left leftMember)
    (aligned right rightMember) separated

/-! ## Pending frames -/

/-- What one usable descriptor contributes to a run. -/
def regionFrames (descriptor : MemoryDescriptor) :
    List (Except Panic (PhysFrame .size4KiB)) :=
  (regionAddresses descriptor).map fun entry => entry.bind frameAt

/-- The pending frames of an allocator that has entered no region. -/
def pendingFrames (descriptors : List MemoryDescriptor) :
    List (Except Panic (PhysFrame .size4KiB)) :=
  (usableDescriptors descriptors).flatMap regionFrames

theorem pending_of_front_none
    (map : MemoryMap) (descriptors : List MemoryDescriptor) :
    (PageTableFrameAllocator.mk map ⟨none, descriptors⟩).pending =
      pendingFrames descriptors := by
  simp only [PageTableFrameAllocator.pending, Addresses.pending,
    pendingFrames, List.nil_append, List.map_flatMap]
  rfl

theorem addressRange_eq_ok
    {descriptor : MemoryDescriptor} {range : AddressRange} :
    addressRange descriptor = .ok range ↔
      descriptor.endAddress < wordSize ∧
        range = ⟨descriptor.physicalAddress, descriptor.endAddress⟩ := by
  unfold addressRange MemoryDescriptor.endAddress
  simp only [except_bind_eq_ok, checkedMul_eq_ok, checkedAdd_eq_ok, pure,
    Except.pure, Except.ok.injEq]
  constructor
  · rintro ⟨bytes, ⟨_, rfl⟩, stop, ⟨fits, rfl⟩, rfl⟩
    exact ⟨fits, rfl⟩
  · rintro ⟨fits, rfl⟩
    exact ⟨_, ⟨by omega, rfl⟩, _, ⟨fits, rfl⟩, rfl⟩

theorem frameAt_eq_ok
    {address : Nat} {frame : PhysFrame .size4KiB} :
    frameAt address = .ok frame ↔
      address < 2 ^ 52 ∧ frame = ⟨address / 4096⟩ := by
  unfold frameAt
  cases created : PhysAddr.new address with
  | error fault =>
      constructor
      · intro found
        cases found
      · rintro ⟨inRange, _⟩
        rw [PhysAddr.new_eq_ok.mpr (rfl : PhysAddr.value ⟨address, inRange⟩ = _)]
          at created
        cases created
  | ok physical =>
      have value := PhysAddr.new_eq_ok.mp created
      subst value
      simp only [Except.ok.injEq, PhysFrame.containingAddress, PageSize.bytes]
      constructor
      · rintro rfl
        exact ⟨physical.inRange, rfl⟩
      · rintro ⟨_, rfl⟩
        rfl

theorem regionFrames_of_representable
    {descriptor : MemoryDescriptor}
    (representable : descriptor.endAddress < wordSize) :
    regionFrames descriptor =
      (List.range descriptor.size).map fun index =>
        frameAt (descriptor.physicalAddress + 4096 * index) := by
  have computed :
      addressRange descriptor =
        .ok ⟨descriptor.physicalAddress, descriptor.endAddress⟩ :=
    addressRange_eq_ok.mpr ⟨representable, rfl⟩
  have length :
      (descriptor.endAddress - descriptor.physicalAddress + 4095) / 4096 =
        descriptor.size := by
    unfold MemoryDescriptor.endAddress
    omega
  simp only [regionFrames, regionAddresses, computed, AddressRange.stepBy,
    StepBy.remaining, if_true, length, List.map_map]
  apply List.ext_getElem
  · simp
  · intro index _ _
    simp [Except.bind]

theorem regionFrames_of_overflow
    {descriptor : MemoryDescriptor}
    (overflows : ¬ descriptor.endAddress < wordSize) :
    ∃ fault, regionFrames descriptor = [.error fault] := by
  cases computed : addressRange descriptor with
  | error fault =>
      exact ⟨fault, by simp [regionFrames, regionAddresses, computed,
        Except.bind]⟩
  | ok range => exact absurd (addressRange_eq_ok.mp computed).1 overflows

/-- A region presents its frames up to the first address that is not
physical. -/
theorem regionFrames_presents (descriptor : MemoryDescriptor) :
    Presents (regionFrames descriptor) (descriptorFrames descriptor) := by
  by_cases representable : descriptor.endAddress < wordSize
  · have listed :
        descriptorFrames descriptor =
          (List.range descriptor.size).map fun index =>
            ⟨descriptor.physicalAddress / 4096 + index⟩ := by
      simp [descriptorFrames, List.range'_eq_map_range]
    rw [regionFrames_of_representable representable, listed]
    apply Presents.of_map
    intro index _ frame converted
    rw [(frameAt_eq_ok.mp converted).2]
    congr 1
    omega
  · obtain ⟨fault, single⟩ := regionFrames_of_overflow representable
    rw [single]
    exact Presents.fault fault _ _

theorem pendingFrames_presents (descriptors : List MemoryDescriptor) :
    Presents (pendingFrames descriptors) (usableFrames descriptors) :=
  Presents.flatMap fun descriptor _ => regionFrames_presents descriptor

/-- Successive answers of a new allocator are the usable frames in order. -/
theorem allocateFrames_eq
    {map : MemoryMap} {descriptors : List MemoryDescriptor} {count : Nat}
    {answers : List (Option (PhysFrame .size4KiB))}
    {after : PageTableFrameAllocator}
    (returned :
      allocateFrames count ⟨map, ⟨none, descriptors⟩⟩ =
        .ok (answers, after)) :
    answers =
      ((usableFrames descriptors).take count).map some ++
        List.replicate (count - (usableFrames descriptors).length) none := by
  apply allocateFrame_produces.takeNext_eq _ returned
  rw [pending_of_front_none]
  exact pendingFrames_presents descriptors

theorem mem_usableFrames
    {map : MemoryMap} {frame : PhysFrame .size4KiB} :
    frame ∈ usableFrames map ↔
      ∃ descriptor ∈ usableDescriptors map,
        frame ∈ descriptorFrames descriptor := by
  simp [usableFrames]

/-- The items of a run from a fresh walk are the first usable frames. -/
theorem itemsOf_allocateFrames
    {map : MemoryMap} {descriptors : List MemoryDescriptor} {count : Nat}
    {answers : List (Option (PhysFrame .size4KiB))}
    {after : PageTableFrameAllocator}
    (returned :
      allocateFrames count ⟨map, ⟨none, descriptors⟩⟩ =
        .ok (answers, after)) :
    itemsOf answers = (usableFrames descriptors).take count := by
  rw [allocateFrames_eq returned, itemsOf_map_some_append_replicate]

/-- Below the physical address limit no call panics. -/
theorem allocateFrames_total
    {map : MemoryMap}
    (physical :
      ∀ descriptor ∈ usableDescriptors map,
        descriptor.endAddress ≤ 2 ^ 52)
    (count : Nat) :
    ∃ answers after, allocateFrames count (new map) = .ok (answers, after) := by
  apply allocateFrame_produces.takeNext_total
  intro entry member
  rw [new, pending_of_front_none] at member
  obtain ⟨descriptor, usable, member⟩ := List.mem_flatMap.mp member
  have bounded := physical descriptor usable
  have representable : descriptor.endAddress < wordSize := by
    unfold wordSize
    omega
  rw [regionFrames_of_representable representable] at member
  obtain ⟨index, within, rfl⟩ := List.mem_map.mp member
  rw [List.mem_range] at within
  unfold MemoryDescriptor.endAddress at bounded
  exact ⟨_, frameAt_eq_ok.mpr ⟨by omega, rfl⟩⟩

/-- Once `none` is answered, every usable frame has been answered before it. -/
theorem usableFrames_returned_of_none
    {map : MemoryMap} {count index : Nat}
    {answers : List (Option (PhysFrame .size4KiB))}
    {after : PageTableFrameAllocator}
    (returned : allocateFrames count (new map) = .ok (answers, after))
    (drained : answers[index]? = some none) :
    itemsOf (answers.take index) = usableFrames map := by
  rw [allocateFrames_eq returned] at drained ⊢
  obtain ⟨padded, taken⟩ := itemsOf_take_of_drained drained
  rw [taken, List.take_of_length_le]
  omega

/-! ## Frames that can be returned -/

/-- Every frame of the descriptor has a physical address. -/
def MemoryDescriptor.Physical (descriptor : MemoryDescriptor) : Prop :=
  descriptor.endAddress < wordSize ∧
    (descriptor.size = 0 ∨
      descriptor.physicalAddress / 4096 + descriptor.size ≤ 2 ^ 40)

instance (descriptor : MemoryDescriptor) : Decidable descriptor.Physical :=
  inferInstanceAs (Decidable (_ ∧ _))

theorem frameAt_returns_iff {start index : Nat} :
    (∃ frame, frameAt (start + 4096 * index) = .ok frame) ↔
      start / 4096 + index < 2 ^ 40 := by
  simp only [frameAt_eq_ok, exists_and_left, exists_eq, and_true]
  omega

theorem faultless_regionFrames_iff {descriptor : MemoryDescriptor} :
    Faultless (regionFrames descriptor) ↔ descriptor.Physical := by
  by_cases representable : descriptor.endAddress < wordSize
  · rw [regionFrames_of_representable representable]
    simp only [Faultless, List.mem_map, List.mem_range,
      forall_exists_index, and_imp, forall_apply_eq_imp_iff₂,
      frameAt_returns_iff, MemoryDescriptor.Physical, representable,
      true_and]
    constructor
    · intro each
      by_cases empty : descriptor.size = 0
      · exact Or.inl empty
      · have last := each (descriptor.size - 1) (by omega)
        omega
    · intro bounded index inRange
      omega
  · obtain ⟨fault, single⟩ := regionFrames_of_overflow representable
    rw [single]
    constructor
    · intro faultless
      obtain ⟨_, impossible⟩ := faultless (.error fault) (by simp)
      cases impossible
    · intro physical
      exact absurd physical.1 representable

theorem reached_regionFrames_iff
    {descriptor : MemoryDescriptor} {frame : PhysFrame .size4KiB} :
    Reached frame (regionFrames descriptor) ↔
      descriptor.endAddress < wordSize ∧
        ∃ index < descriptor.size,
          descriptor.physicalAddress / 4096 + index < 2 ^ 40 ∧
            frame = ⟨descriptor.physicalAddress / 4096 + index⟩ := by
  by_cases representable : descriptor.endAddress < wordSize
  · rw [regionFrames_of_representable representable, reached_map_range]
    simp only [representable, true_and, frameAt_returns_iff]
    constructor
    · rintro ⟨index, inRange, given, _⟩
      refine ⟨index, inRange, frameAt_returns_iff.mp ⟨frame, given⟩, ?_⟩
      rw [(frameAt_eq_ok.mp given).2]
      congr 1
      omega
    · rintro ⟨index, inRange, physical, rfl⟩
      refine ⟨index, inRange, frameAt_eq_ok.mpr ⟨by omega, ?_⟩, ?_⟩
      · congr 1
        omega
      · intro earlier before
        omega
  · obtain ⟨fault, single⟩ := regionFrames_of_overflow representable
    rw [single]
    simp [representable]

/-- The frames that a new allocator can return: those of a usable descriptor
behind usable descriptors that do not panic. -/
theorem canAllocate_iff {map : MemoryMap} {frame : PhysFrame .size4KiB} :
    (∃ count answers after,
      allocateFrames count (new map) = .ok (answers, after) ∧
        frame ∈ itemsOf answers) ↔
      ∃ front descriptor back,
        usableDescriptors map = front ++ descriptor :: back ∧
        (∀ earlier ∈ front, earlier.Physical) ∧
        descriptor.endAddress < wordSize ∧
        ∃ index < descriptor.size,
          descriptor.physicalAddress / 4096 + index < 2 ^ 40 ∧
            frame = ⟨descriptor.physicalAddress / 4096 + index⟩ := by
  unfold allocateFrames
  rw [allocateFrame_produces.mem_takeNext_iff, new, pending_of_front_none,
    pendingFrames, reached_flatMap]
  simp only [faultless_regionFrames_iff, reached_regionFrames_iff]

/-! ## Exactness of a run -/

/-- Any number of calls on a new allocator hands out distinct frames of the
usable memory, and reports exhaustion only after all of them. -/
theorem allocateFrames_exact
    (map : MemoryMap) (wellFormed : WellFormedMap map) (count : Nat) :
    ((∀ descriptor ∈ usableDescriptors map,
        descriptor.endAddress ≤ 2 ^ 52) →
      ∃ answers after,
        allocateFrames count (new map) = .ok (answers, after)) ∧
    ∀ answers after,
      allocateFrames count (new map) = .ok (answers, after) →
        (itemsOf answers).Nodup ∧
        (∀ frame ∈ itemsOf answers,
          ∃ descriptor ∈ map,
            descriptor.isUsable = true ∧ FrameInside frame descriptor) ∧
        (∀ frame ∈ itemsOf answers, ∀ descriptor ∈ map,
          descriptor.isUsable = false →
          (∀ usable ∈ usableDescriptors map, descriptor.Apart usable) →
          ∀ address, frame.Holds address → ¬ descriptor.Covers address) ∧
        (∀ index, answers[index]? = some none →
          ∀ descriptor ∈ map, descriptor.isUsable = true →
          ∀ frame, FrameInside frame descriptor →
            (itemsOf (answers.take index)).count frame = 1) := by
  refine ⟨fun physical => allocateFrames_total physical count, ?_⟩
  intro answers after returned
  have items := itemsOf_allocateFrames returned
  have nodup := usableFrames_nodup wellFormed.aligned wellFormed.apart
  have inside :
      ∀ frame ∈ itemsOf answers,
        ∃ descriptor ∈ usableDescriptors map,
          FrameInside frame descriptor := by
    intro frame member
    rw [items] at member
    obtain ⟨descriptor, usable, member⟩ :=
      mem_usableFrames.mp (List.mem_of_mem_take member)
    exact ⟨descriptor, usable,
      (frameInside_iff_mem (wellFormed.aligned descriptor usable)).mpr member⟩
  refine ⟨?_, ?_, ?_, ?_⟩
  · rw [items]
    exact nodup.sublist (List.take_sublist _ _)
  · intro frame member
    obtain ⟨descriptor, usable, within⟩ := inside frame member
    rw [mem_usableDescriptors] at usable
    exact ⟨descriptor, usable.1, usable.2, within⟩
  · intro frame member descriptor _ _ separated address held covered
    obtain ⟨owner, usable, within⟩ := inside frame member
    exact separated owner usable address ⟨covered, within address held⟩
  · intro index drained descriptor member usable frame within
    have listed : descriptor ∈ usableDescriptors map :=
      mem_usableDescriptors.mpr ⟨member, usable⟩
    rw [usableFrames_returned_of_none returned drained]
    apply List.count_eq_one_of_mem nodup
    apply mem_usableFrames.mpr
    exact ⟨descriptor, listed,
      (frameInside_iff_mem (wellFormed.aligned descriptor listed)).mp within⟩

/-- Two usable regions with an empty one and reserved memory between them. -/
def splitMap : MemoryMap :=
  [⟨.conventional, 0x1000, 0, 2⟩, ⟨.reserved, 0x3000, 0, 1⟩,
    ⟨.conventional, 0x4000, 0, 0⟩, ⟨.bootServicesCode, 0x4000, 0, 1⟩]

theorem splitMap_wellFormed : WellFormedMap splitMap where
  aligned := by decide
  apart := by decide
  representable := by decide

theorem allocateFrames_exact_splitMap :
    ∃ answers after,
      allocateFrames 4 (new splitMap) = .ok (answers, after) ∧
      answers = [some ⟨1⟩, some ⟨2⟩, some ⟨4⟩, none] ∧
      (itemsOf answers).Nodup ∧
      (itemsOf (answers.take 3)).count ⟨4⟩ = 1 := by
  obtain ⟨returns, exact⟩ :=
    allocateFrames_exact splitMap splitMap_wellFormed 4
  obtain ⟨answers, after, returned⟩ := returns (by decide)
  have answered : answers = [some ⟨1⟩, some ⟨2⟩, some ⟨4⟩, none] :=
    allocateFrames_eq returned
  obtain ⟨nodup, _, _, exhausted⟩ := exact answers after returned
  refine ⟨answers, after, returned, answered, nodup, ?_⟩
  apply exhausted 3 (by rw [answered]; rfl)
    ⟨.bootServicesCode, 0x4000, 0, 1⟩ (by decide) rfl
  decide

end RustKernel.Memory
