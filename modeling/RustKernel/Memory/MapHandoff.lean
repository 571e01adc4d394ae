import RustKernel.Memory.AllocationRuns

/-!
# Handing the allocator from the loader to the kernel

The kernel continues with the loader's allocator, but gives it a map of its
own through `swap_map`.  The swap throws the iterator chain away and restarts
the walk behind the first region that starts at or above the current frame.
Regions are compared by address and skipped in map order, so the restart is
safe exactly when no region that has been handed out is listed behind the
region at which the comparison stops.
-/

namespace RustKernel.Memory

open RustKernel.Foundations
open RustKernel.Machine
open PageTableFrameAllocator


/-! ## Maps with the same descriptors -/

/-- A descriptor without the field that the loader rewrites. -/
def MemoryDescriptor.forgetVirtual (descriptor : MemoryDescriptor) :
    MemoryDescriptor :=
  { descriptor with virtualAddress := 0 }

/-- The maps differ at most in virtual addresses. -/
def SameDescriptors (map map' : MemoryMap) : Prop :=
  map.map MemoryDescriptor.forgetVirtual =
    map'.map MemoryDescriptor.forgetVirtual

instance (map map' : MemoryMap) : Decidable (SameDescriptors map map') :=
  inferInstanceAs (Decidable (_ = _))

/-- No descriptor that starts at or above the current frame is listed before
one from which a frame has been handed out. -/
def Resumable
    (current : PhysFrame .size4KiB) (handed : List (PhysFrame .size4KiB))
    (map : MemoryMap) : Prop :=
  (usableDescriptors map).Pairwise fun earlier later =>
    current.startAddress ≤ earlier.physicalAddress →
      ∀ frame ∈ handed, ¬ FrameInside frame later

instance
    (current : PhysFrame .size4KiB) (handed : List (PhysFrame .size4KiB))
    (map : MemoryMap) : Decidable (Resumable current handed map) :=
  inferInstanceAs (Decidable (List.Pairwise _ _))

theorem usableDescriptors_forgetVirtual (map : MemoryMap) :
    usableDescriptors (map.map MemoryDescriptor.forgetVirtual) =
      (usableDescriptors map).map MemoryDescriptor.forgetVirtual := by
  unfold usableDescriptors
  rw [List.filter_map]
  rfl

theorem SameDescriptors.usable {map map' : MemoryMap}
    (same : SameDescriptors map map') :
    (usableDescriptors map).map MemoryDescriptor.forgetVirtual =
      (usableDescriptors map').map MemoryDescriptor.forgetVirtual := by
  rw [← usableDescriptors_forgetVirtual, ← usableDescriptors_forgetVirtual,
    same]

/-- A relation that ignores virtual addresses holds pairwise in both maps. -/
theorem SameDescriptors.pairwise_iff {map map' : MemoryMap}
    (same : SameDescriptors map map')
    {relation : MemoryDescriptor → MemoryDescriptor → Prop}
    (blind : ∀ left right,
      relation left.forgetVirtual right.forgetVirtual ↔ relation left right) :
    (usableDescriptors map).Pairwise relation ↔
      (usableDescriptors map').Pairwise relation := by
  have mapped :=
    congrArg (List.Pairwise relation) same.usable
  simpa only [List.pairwise_map, blind, eq_iff_iff] using mapped

theorem SameDescriptors.forall_iff {map map' : MemoryMap}
    (same : SameDescriptors map map')
    {property : MemoryDescriptor → Prop}
    (blind : ∀ descriptor,
      property descriptor.forgetVirtual ↔ property descriptor) :
    (∀ descriptor ∈ usableDescriptors map, property descriptor) ↔
      ∀ descriptor ∈ usableDescriptors map', property descriptor := by
  have mapped :=
    congrArg (fun listed => ∀ descriptor ∈ listed, property descriptor)
      same.usable
  simpa only [List.forall_mem_map, blind, eq_iff_iff] using mapped

theorem SameDescriptors.pendingFrames_eq {map map' : MemoryMap}
    (same : SameDescriptors map map') :
    pendingFrames map = pendingFrames map' := by
  have mapped := congrArg (List.flatMap regionFrames) same.usable
  rw [List.flatMap_map, List.flatMap_map] at mapped
  exact mapped

theorem pendingFrames_append (front back : List MemoryDescriptor) :
    pendingFrames (front ++ back) =
      pendingFrames front ++ pendingFrames back := by
  simp [pendingFrames, usableDescriptors]

/-! ## The skipping loop -/

/-- The skipping loop stops at the first region at or above the frame. -/
theorem skipRegions_eq_ok
    {current : PhysFrame .size4KiB} :
    ∀ {descriptors rest : List MemoryDescriptor},
      skipRegions (some current) descriptors = .ok rest →
      ∃ skipped stop,
        descriptors = skipped ++ stop :: rest ∧
        stop.isUsable = true ∧
        current.startAddress ≤ stop.physicalAddress ∧
        ∀ descriptor ∈ usableDescriptors skipped,
          descriptor.physicalAddress < current.startAddress
  | [], rest, returned => by
      simp [skipRegions] at returned
  | descriptor :: tail, rest, returned => by
      by_cases usable : descriptor.isUsable = true
      · cases computed : addressRange descriptor with
        | error fault => simp [skipRegions, usable, computed] at returned
        | ok range =>
            have start : range.start = descriptor.physicalAddress := by
              rw [(addressRange_eq_ok.mp computed).2]
            by_cases below : range.start < current.startAddress
            · simp only [skipRegions, usable, if_true, computed, below]
                at returned
              obtain ⟨skipped, stop, split, stopUsable, above, lower⟩ :=
                skipRegions_eq_ok returned
              refine ⟨descriptor :: skipped, stop, by rw [split]; rfl,
                stopUsable, above, ?_⟩
              rw [usableDescriptors, List.filter_cons_of_pos usable]
              rw [start] at below
              exact List.forall_mem_cons.mpr ⟨below, lower⟩
            · simp only [skipRegions, usable, if_true, computed, below,
                if_false, Except.ok.injEq] at returned
              subst rest
              exact ⟨[], descriptor, rfl, usable, by omega, by
                simp [usableDescriptors]⟩
      · simp only [skipRegions, usable] at returned
        obtain ⟨skipped, stop, split, stopUsable, above, lower⟩ :=
          skipRegions_eq_ok returned
        refine ⟨descriptor :: skipped, stop, by rw [split]; rfl, stopUsable,
          above, ?_⟩
        rw [usableDescriptors, List.filter_cons_of_neg (by simpa using usable)]
        exact lower

/-- Regions below the frame are skipped, and the next one is dropped. -/
theorem skipRegions_of_split
    {current : PhysFrame .size4KiB} {stop : MemoryDescriptor}
    {rest : List MemoryDescriptor}
    (stopUsable : stop.isUsable = true)
    (above : current.startAddress ≤ stop.physicalAddress)
    (stopRepresentable : stop.endAddress < wordSize) :
    ∀ {skipped : List MemoryDescriptor},
      (∀ descriptor ∈ usableDescriptors skipped,
        descriptor.physicalAddress < current.startAddress ∧
          descriptor.endAddress < wordSize) →
      skipRegions (some current) (skipped ++ stop :: rest) = .ok rest
  | [], _ => by
      have computed := addressRange_eq_ok.mpr ⟨stopRepresentable, rfl⟩
      have notBelow : ¬ stop.physicalAddress < current.startAddress := by
        omega
      simp [skipRegions, stopUsable, computed, notBelow]
  | descriptor :: tail, lower => by
      have tailStops :
          skipRegions (some current) (tail ++ stop :: rest) = .ok rest := by
        apply skipRegions_of_split stopUsable above stopRepresentable
        intro other member
        rw [mem_usableDescriptors] at member
        apply lower other
        exact mem_usableDescriptors.mpr
          ⟨List.mem_cons_of_mem _ member.1, member.2⟩
      by_cases usable : descriptor.isUsable = true
      · obtain ⟨below, representable⟩ :=
          lower descriptor (mem_usableDescriptors.mpr ⟨by simp, usable⟩)
        have computed := addressRange_eq_ok.mpr ⟨representable, rfl⟩
        simpa [skipRegions, usable, computed, below] using tailStops
      · simpa [skipRegions, usable] using tailStops

/-- The region at which the skipping loop stops, when there is one. -/
theorem exists_first_above
    {current : PhysFrame .size4KiB} {map : MemoryMap}
    {found : MemoryDescriptor}
    (member : found ∈ usableDescriptors map)
    (above : current.startAddress ≤ found.physicalAddress) :
    ∃ skipped stop rest,
      map = skipped ++ stop :: rest ∧
      stop.isUsable = true ∧
      current.startAddress ≤ stop.physicalAddress ∧
      ∀ descriptor ∈ usableDescriptors skipped,
        descriptor.physicalAddress < current.startAddress := by
  have searched :
      (map.find? fun descriptor =>
        descriptor.isUsable &&
          decide (current.startAddress ≤ descriptor.physicalAddress)).isSome
        = true := by
    rw [mem_usableDescriptors] at member
    rw [List.find?_isSome]
    exact ⟨found, member.1, by simp [member.2, above]⟩
  obtain ⟨stop, stopped⟩ := Option.isSome_iff_exists.mp searched
  obtain ⟨stopAbove, skipped, rest, split, lower⟩ :=
    List.find?_eq_some_iff_append.mp stopped
  simp only [Bool.and_eq_true, decide_eq_true_eq] at stopAbove
  refine ⟨skipped, stop, rest, split, stopAbove.1, stopAbove.2, ?_⟩
  intro descriptor skippedMember
  rw [mem_usableDescriptors] at skippedMember
  have notAbove := lower descriptor skippedMember.1
  simpa [skippedMember.2] using notAbove

/-- Of two listed regions the later one lies behind the stop, when the
earlier one does not lie before it. -/
theorem later_mem_rest
    {skipped rest : List MemoryDescriptor}
    {stop earlier later : MemoryDescriptor}
    (listed :
      [earlier, later].Sublist
        (usableDescriptors (skipped ++ stop :: rest)))
    (notSkipped : earlier ∉ usableDescriptors skipped)
    (stopUsable : stop.isUsable = true) :
    later ∈ usableDescriptors rest := by
  have split :
      usableDescriptors (skipped ++ stop :: rest) =
        usableDescriptors skipped ++ stop :: usableDescriptors rest := by
    simp [usableDescriptors, stopUsable]
  rw [split, List.sublist_append_iff] at listed
  obtain ⟨front, back, pair, inSkipped, inRest⟩ := listed
  cases front with
  | nil =>
      rw [List.nil_append] at pair
      subst back
      have tailListed := inRest.tail
      simpa using tailListed
  | cons head tail =>
      rw [List.cons_append, List.cons.injEq] at pair
      apply absurd (inSkipped.subset (List.mem_cons_self))
      rw [← pair.1]
      exact notSkipped

/-- Good entries in front of a list of pending frames come from regions that
are representable. -/
theorem representable_of_pendingFrames_good
    {descriptors : List MemoryDescriptor}
    {good : List (PhysFrame .size4KiB)}
    (allGood : pendingFrames descriptors = good.map .ok) :
    ∀ descriptor ∈ usableDescriptors descriptors,
      descriptor.endAddress < wordSize := by
  intro descriptor member
  by_contra overflows
  obtain ⟨fault, single⟩ := regionFrames_of_overflow overflows
  have faulty :
      (.error fault : Except Panic (PhysFrame .size4KiB)) ∈
        pendingFrames descriptors := by
    apply List.mem_flatMap.mpr
    exact ⟨descriptor, member, by simp [single]⟩
  rw [allGood] at faulty
  simp at faulty

theorem skipRegions_none
    {descriptors rest : List MemoryDescriptor} :
    skipRegions none descriptors ≠ .ok rest := by
  induction descriptors with
  | nil => simp [skipRegions]
  | cons descriptor tail inductionHypothesis =>
      by_cases usable : descriptor.isUsable = true
      · cases computed : addressRange descriptor with
        | error fault => simp [skipRegions, usable, computed]
        | ok range => simp [skipRegions, usable, computed]
      · simpa [skipRegions, usable] using inductionHypothesis

/-! ## The handoff -/

section Handoff

variable {map map' : MemoryMap} {count : Nat}
  {answers : List (Option (PhysFrame .size4KiB))}
  {allocator : PageTableFrameAllocator}

/-- What a swap that returns has done. -/
theorem swapMap_eq_ok {swapped : PageTableFrameAllocator}
    (swap : allocator.swapMap map' = .ok swapped) :
    ∃ current advanced rest,
      allocator.allocateFrame = .ok (some current, advanced) ∧
        skipRegions (some current) map' = .ok rest ∧
        swapped = { advanced with addresses := ⟨none, rest⟩ } := by
  unfold swapMap at swap
  cases called : allocator.allocateFrame with
  | error fault => simp [called] at swap
  | ok answered =>
      obtain ⟨drawn, advanced⟩ := answered
      cases skips : skipRegions drawn map' with
      | error fault => simp [called, skips] at swap
      | ok rest =>
          cases drawn with
          | none => exact absurd skips skipRegions_none
          | some current =>
              simp only [called, skips, Except.ok.injEq] at swap
              exact ⟨current, advanced, rest, rfl, skips, swap.symm⟩

/-- A frame of a region behind the stop is not a frame of a region up to it. -/
theorem frame_not_before_stop
    {skipped rest : List MemoryDescriptor} {stop later : MemoryDescriptor}
    {frame : PhysFrame .size4KiB}
    (aligned :
      ∀ descriptor ∈ usableDescriptors (skipped ++ stop :: rest),
        descriptor.physicalAddress % 4096 = 0)
    (apart :
      (usableDescriptors (skipped ++ stop :: rest)).Pairwise
        MemoryDescriptor.Apart)
    (behind : later ∈ usableDescriptors rest)
    (inside : FrameInside frame later) :
    frame ∉ usableFrames (skipped ++ [stop]) := by
  intro member
  obtain ⟨owner, ownerMember, owned⟩ := mem_usableFrames.mp member
  have split :
      usableDescriptors (skipped ++ stop :: rest) =
        usableDescriptors (skipped ++ [stop]) ++ usableDescriptors rest := by
    simp [usableDescriptors, ← List.filter_append]
  rw [split] at aligned apart
  have separated :=
    (List.pairwise_append.mp apart).2.2 owner ownerMember later behind
  have ownerAligned := aligned owner (List.mem_append_left _ ownerMember)
  have laterAligned := aligned later (List.mem_append_right _ behind)
  exact descriptorFrames_disjoint ownerAligned laterAligned separated owned
    ((frameInside_iff_mem laterAligned).mp inside)

/-- When a handed-out region is listed behind the stop, the swap returns and a
later call hands one of its frames out again. -/
theorem handed_out_again
    {skipped rest : List MemoryDescriptor} {stop later : MemoryDescriptor}
    {current frame : PhysFrame .size4KiB}
    {advanced : PageTableFrameAllocator}
    (aligned :
      ∀ descriptor ∈ usableDescriptors (skipped ++ stop :: rest),
        descriptor.physicalAddress % 4096 = 0)
    (apart :
      (usableDescriptors (skipped ++ stop :: rest)).Pairwise
        MemoryDescriptor.Apart)
    (same : SameDescriptors map (skipped ++ stop :: rest))
    (before : allocateFrames count (new map) = .ok (answers, allocator))
    (called : allocator.allocateFrame = .ok (some current, advanced))
    (stopUsable : stop.isUsable = true)
    (above : current.startAddress ≤ stop.physicalAddress)
    (lower :
      ∀ descriptor ∈ usableDescriptors skipped,
        descriptor.physicalAddress < current.startAddress)
    (behind : later ∈ usableDescriptors rest)
    (inside : FrameInside frame later)
    (handed : frame ∈ itemsOf answers) :
    ∃ swapped number laterAnswers after,
      allocator.swapMap (skipped ++ stop :: rest) = .ok swapped ∧
      allocateFrames number swapped = .ok (laterAnswers, after) ∧
      frame ∈ itemsOf laterAnswers := by
  have notBefore := frame_not_before_stop aligned apart behind inside
  obtain ⟨good, split, _, answered, _⟩ :=
    allocateFrame_produces.takeNext_ok before
  rw [answered, itemsOf_map_some_append_replicate] at handed
  rw [new, pending_of_front_none, same.pendingFrames_eq,
    show skipped ++ stop :: rest = (skipped ++ [stop]) ++ rest by simp,
    pendingFrames_append] at split
  rcases List.append_eq_append_iff.mp split with
    ⟨resumed, goodSplit, restSplit⟩ | ⟨left, frontSplit, _⟩
  · obtain ⟨goodFront, goodBack, rfl, frontGood, backGood⟩ :=
      List.map_eq_append_iff.mp goodSplit
    have representable :=
      representable_of_pendingFrames_good frontGood.symm
    have frontFrames : goodFront = usableFrames (skipped ++ [stop]) := by
      have presents := pendingFrames_presents (skipped ++ [stop])
      rw [← frontGood, ← List.append_nil (goodFront.map _)] at presents
      exact presents.good_entries.2 rfl
    have inBack : frame ∈ goodBack := by
      rcases List.mem_append.mp handed with inFront | inBack
      · rw [frontFrames] at inFront
        exact absurd inFront notBefore
      · exact inBack
    have stops :
        skipRegions (some current) (skipped ++ stop :: rest) = .ok rest := by
      apply skipRegions_of_split stopUsable above
      · apply representable stop
        rw [mem_usableDescriptors]
        simp [stopUsable]
      · intro descriptor member
        refine ⟨lower descriptor member, representable descriptor ?_⟩
        rw [mem_usableDescriptors] at member ⊢
        exact ⟨List.mem_append_left _ member.1, member.2⟩
    rw [← backGood, ← pending_of_front_none advanced.memoryMap] at restSplit
    obtain ⟨after, laterRun, _⟩ :=
      allocateFrame_produces.takeNext_of_pending restSplit
    refine ⟨_, _, _, after, ?_, laterRun, ?_⟩
    · simp [swapMap, called, stops]
    · simpa [itemsOf] using inBack
  · have presents := pendingFrames_presents (skipped ++ [stop])
    rw [frontSplit] at presents
    exact absurd (presents.good_entries.1.subset handed) notBefore

/-- After the loader's calls, the swap keeps later frames apart from earlier
ones exactly when the map is resumable at the current frame. -/
theorem swapMap_disjoint_iff
    (aligned :
      ∀ descriptor ∈ usableDescriptors map,
        descriptor.physicalAddress % 4096 = 0)
    (apart : (usableDescriptors map).Pairwise MemoryDescriptor.Apart)
    (same : SameDescriptors map map')
    (before : allocateFrames count (new map) = .ok (answers, allocator)) :
    (∀ swapped number later after,
      allocator.swapMap map' = .ok swapped →
      allocateFrames number swapped = .ok (later, after) →
      List.Disjoint (itemsOf answers) (itemsOf later)) ↔
    ∀ current advanced,
      allocator.allocateFrame = .ok (some current, advanced) →
      Resumable current (itemsOf answers) map := by
  have aligned' :
      ∀ descriptor ∈ usableDescriptors map',
        descriptor.physicalAddress % 4096 = 0 :=
    (same.forall_iff fun _ => Iff.rfl).mp aligned
  have apart' : (usableDescriptors map').Pairwise MemoryDescriptor.Apart :=
    (same.pairwise_iff fun _ _ => Iff.rfl).mp apart
  constructor
  · intro safe current advanced called
    apply (same.pairwise_iff fun _ _ => Iff.rfl).mpr
    apply List.pairwise_iff_forall_sublist.mpr
    intro earlier later listed earlierAbove frame handed inside
    have earlierMember := listed.subset (List.mem_cons_self)
    obtain ⟨skipped, stop, rest, rfl, stopUsable, above, lower⟩ :=
      exists_first_above earlierMember earlierAbove
    have notSkipped : earlier ∉ usableDescriptors skipped := by
      intro skippedMember
      have below := lower earlier skippedMember
      omega
    have behind := later_mem_rest listed notSkipped stopUsable
    obtain ⟨swapped, number, laterAnswers, after, swap, laterRun, again⟩ :=
      handed_out_again aligned' apart' same before called stopUsable above
        lower behind inside handed
    exact safe swapped number laterAnswers after swap laterRun handed again
  · intro resumable swapped number later after swap laterRun frame handed again
    obtain ⟨current, advanced, rest, called, skips, rfl⟩ := swapMap_eq_ok swap
    obtain ⟨skipped, stop, rfl, stopUsable, above, _⟩ :=
      skipRegions_eq_ok skips
    rw [itemsOf_allocateFrames laterRun] at again
    obtain ⟨owner, ownerMember, owned⟩ :=
      mem_usableFrames.mp (List.mem_of_mem_take again)
    have split :
        usableDescriptors (skipped ++ stop :: rest) =
          usableDescriptors skipped ++ stop :: usableDescriptors rest := by
      simp [usableDescriptors, stopUsable]
    have resumable' :=
      (same.pairwise_iff fun _ _ => Iff.rfl).mp
        (resumable current advanced called)
    rw [split] at resumable' aligned'
    have behindStop :=
      (List.pairwise_cons.mp
        (List.pairwise_append.mp resumable').2.1).1 owner ownerMember
    apply behindStop above frame handed
    exact (frameInside_iff_mem
      (aligned' owner (by simp [ownerMember]))).mpr owned

end Handoff

/-- The loader has taken one of the three frames when the kernel swaps. -/
theorem swapMap_disjoint_iff_splitMap :
    ∃ allocator,
      allocateFrames 1 (new splitMap) = .ok ([some ⟨1⟩], allocator) ∧
      ∀ swapped number later after,
        allocator.swapMap splitMap = .ok swapped →
        allocateFrames number swapped = .ok (later, after) →
        List.Disjoint [⟨1⟩] (itemsOf later) := by
  have before :
      allocateFrames 1 (new splitMap) =
        .ok ([some ⟨1⟩],
          ⟨splitMap, ⟨some ⟨0x1001, 0x3000, false⟩, splitMap.tail⟩⟩) := rfl
  refine ⟨_, before, ?_⟩
  apply (swapMap_disjoint_iff splitMap_wellFormed.aligned
    splitMap_wellFormed.apart rfl before).mpr
  intro current advanced called
  cases called
  decide

/-- Usable memory listed from high to low addresses. -/
def descendingMap : MemoryMap :=
  [⟨.conventional, 0x3000, 0, 1⟩, ⟨.conventional, 0x1000, 0, 2⟩]

/-- Frames 3 and 1 are handed out and frame 2 is current, but the walk
restarts at the region that holds frame 1. -/
theorem swapMap_hands_out_twice :
    ¬ ∀ (map map' : MemoryMap) (count : Nat)
        (answers : List (Option (PhysFrame .size4KiB)))
        (allocator : PageTableFrameAllocator),
      (∀ descriptor ∈ usableDescriptors map,
        descriptor.physicalAddress % 4096 = 0) →
      (usableDescriptors map).Pairwise MemoryDescriptor.Apart →
      SameDescriptors map map' →
      allocateFrames count (new map) = .ok (answers, allocator) →
      ∀ swapped number later after,
        allocator.swapMap map' = .ok swapped →
        allocateFrames number swapped = .ok (later, after) →
        List.Disjoint (itemsOf answers) (itemsOf later) := by
  intro safe
  have disjoint :=
    safe descendingMap descendingMap 2 [some ⟨3⟩, some ⟨1⟩]
      ⟨descendingMap, ⟨some ⟨0x1001, 0x3000, false⟩, []⟩⟩
      (by decide) (by decide) rfl rfl
      ⟨descendingMap, ⟨none, [⟨.conventional, 0x1000, 0, 2⟩]⟩⟩ 1
      [some ⟨1⟩] ⟨descendingMap, ⟨some ⟨0x1001, 0x3000, false⟩, []⟩⟩
      (by decide) (by decide)
  have twice : (⟨1⟩ : PhysFrame .size4KiB) ∈ [⟨3⟩, ⟨1⟩] := by decide
  exact disjoint twice (by decide)

end RustKernel.Memory
