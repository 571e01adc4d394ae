import RustKernel.Memory.MapHandoff

/-!
# Memory that the handoff loses

The loop of `swap_map` reads a region and then compares it, so that the region
at which it stops is gone when the walk restarts.  What the walk has not given
out of the regions up to there is lost, and when no region starts at or above
the current frame the loop runs into the end of the map and panics.
-/

namespace RustKernel.Memory

open RustKernel.Foundations
open RustKernel.Machine
open PageTableFrameAllocator

/-- The frame that comes after `count` frames is the last one of the usable
descriptors up to the first that starts at or above it, and all usable
descriptors are physical. -/
def LosslessAt (map : MemoryMap) (count : Nat) : Prop :=
  (∀ descriptor ∈ usableDescriptors map, descriptor.Physical) ∧
    ∃ current skipped stop rest,
      (usableFrames map)[count]? = some current ∧
        map = skipped ++ stop :: rest ∧
        stop.isUsable = true ∧
        current.startAddress ≤ stop.physicalAddress ∧
        (∀ descriptor ∈ usableDescriptors skipped,
          descriptor.physicalAddress < current.startAddress) ∧
        (usableFrames (skipped ++ [stop])).length ≤ count + 1

/-- The swap returns, and later calls hand out every frame that was left. -/
def SwapKeepsRest (map : MemoryMap) (handed : List (PhysFrame .size4KiB))
    (allocator : PageTableFrameAllocator) : Prop :=
  ∃ swapped, allocator.swapMap map = .ok swapped ∧
    ∀ frame ∈ usableFrames map, frame ∉ handed →
      (∀ advanced, allocator.allocateFrame ≠ .ok (some frame, advanced)) →
        ∃ number later after,
          allocateFrames number swapped = .ok (later, after) ∧
            frame ∈ itemsOf later

theorem SameDescriptors.usableFrames_eq {map map' : MemoryMap}
    (same : SameDescriptors map map') :
    usableFrames map = usableFrames map' := by
  have mapped := congrArg (List.flatMap descriptorFrames) same.usable
  rw [List.flatMap_map, List.flatMap_map] at mapped
  exact mapped

theorem usableFrames_append (front back : List MemoryDescriptor) :
    usableFrames (front ++ back) = usableFrames front ++ usableFrames back := by
  simp [usableFrames, usableDescriptors]

theorem pendingFrames_of_physical {map : MemoryMap}
    (physical :
      ∀ descriptor ∈ usableDescriptors map, descriptor.Physical) :
    pendingFrames map = (usableFrames map).map .ok := by
  apply (pendingFrames_presents map).eq_of_faultless
  intro entry member
  obtain ⟨descriptor, listed, inRegion⟩ := List.mem_flatMap.mp member
  exact faultless_regionFrames_iff.mpr (physical descriptor listed) entry
    inRegion

/-- Frames that are handed out have physical addresses. -/
theorem number_lt_of_reached {map : MemoryMap} {frame : PhysFrame .size4KiB}
    (reached : Reached frame (pendingFrames map)) :
    frame.number < 2 ^ 40 := by
  obtain ⟨_, descriptor, _, _, _, inRegion⟩ := reached_flatMap.mp reached
  obtain ⟨_, index, _, below, rfl⟩ := reached_regionFrames_iff.mp inRegion
  exact below

section Losses

variable {map map' : MemoryMap} {count : Nat}
  {answers : List (Option (PhysFrame .size4KiB))}
  {allocator : PageTableFrameAllocator}

/-- What is pending after `count` calls. -/
theorem pending_after
    (same : SameDescriptors map map')
    (before : allocateFrames count (new map) = .ok (answers, allocator)) :
    itemsOf answers = (usableFrames map').take count ∧
      pendingFrames map' =
        ((usableFrames map').take count).map .ok ++ allocator.pending := by
  have items := itemsOf_allocateFrames before
  rw [same.usableFrames_eq] at items
  obtain ⟨good, split, _, answered, _⟩ :=
    allocateFrame_produces.takeNext_ok before
  rw [answered, itemsOf_map_some_append_replicate] at items
  subst items
  refine ⟨by rw [answered, itemsOf_map_some_append_replicate], ?_⟩
  rw [← same.pendingFrames_eq, ← pending_of_front_none map, ← split]
  rfl

/-- The frame that the swap draws is the next usable frame. -/
theorem next_usableFrame {current : PhysFrame .size4KiB}
    {advanced : PageTableFrameAllocator}
    (left : count < (usableFrames map').length)
    (pending :
      pendingFrames map' =
        ((usableFrames map').take count).map .ok ++ allocator.pending)
    (called : allocator.allocateFrame = .ok (some current, advanced)) :
    (usableFrames map')[count]? = some current := by
  have presents := pendingFrames_presents map'
  have split :
      pendingFrames map' =
        ((usableFrames map').take count ++ [current]).map .ok ++
          advanced.pending := by
    rw [pending, allocateFrame_produces.next_some called]
    simp
  rw [split] at presents
  have initial := presents.good_entries.1
  have length : ((usableFrames map').take count).length = count := by
    rw [List.length_take]
    omega
  rw [List.prefix_iff_getElem?] at initial
  have found := initial count (by simp [length])
  rw [found]
  simp [length]

/-- A frame handed out or drawn by the swap is one of the first. -/
theorem mem_take_succ {current frame : PhysFrame .size4KiB}
    (found : (usableFrames map')[count]? = some current) :
    frame ∈ (usableFrames map').take (count + 1) ↔
      frame ∈ (usableFrames map').take count ∨ frame = current := by
  rw [List.take_add_one, found]
  simp

/-- Usable frames below the limit belong to physical descriptors. -/
theorem physical_of_number_lt
    (aligned :
      ∀ descriptor ∈ usableDescriptors map',
        descriptor.physicalAddress % 4096 = 0)
    (sized :
      ∀ descriptor ∈ usableDescriptors map',
        descriptor.physicalAddress < wordSize)
    (reached :
      ∀ frame ∈ usableFrames map', frame.number < 2 ^ 40) :
    ∀ descriptor ∈ usableDescriptors map', descriptor.Physical := by
  intro descriptor member
  have descriptorAligned := aligned descriptor member
  have descriptorSized := sized descriptor member
  unfold MemoryDescriptor.Physical MemoryDescriptor.endAddress
  unfold wordSize at descriptorSized ⊢
  by_cases empty : descriptor.size = 0
  · rw [empty]
    omega
  · have last :=
      reached ⟨descriptor.physicalAddress / 4096 + (descriptor.size - 1)⟩
        (mem_usableFrames.mpr ⟨descriptor, member,
          mem_descriptorFrames.mpr (by simp only; omega)⟩)
    simp only at last
    omega

theorem usableFrames_split {skipped rest : MemoryMap} {stop : MemoryDescriptor}
    (split : map' = skipped ++ stop :: rest) :
    usableFrames map' =
      usableFrames (skipped ++ [stop]) ++ usableFrames rest := by
  rw [split, ← usableFrames_append, List.append_assoc]
  rfl

/-- Where the descriptors up to the stop hold no frames but the first ones, all
others lie behind. -/
theorem mem_rest_of_drained {skipped rest : MemoryMap}
    {stop : MemoryDescriptor} {frame : PhysFrame .size4KiB}
    (split : map' = skipped ++ stop :: rest)
    (drained : (usableFrames (skipped ++ [stop])).length ≤ count)
    (member : frame ∈ usableFrames map')
    (notFirst : frame ∉ (usableFrames map').take count) :
    frame ∈ usableFrames rest := by
  have parts := usableFrames_split split
  by_contra notInRest
  apply notFirst
  rw [parts, List.take_append, List.take_of_length_le drained]
  apply List.mem_append_left
  rw [parts] at member
  exact (List.mem_append.mp member).resolve_right notInRest

theorem drained_of_mem_rest {skipped rest : MemoryMap}
    {stop : MemoryDescriptor} (split : map' = skipped ++ stop :: rest)
    (nodup : (usableFrames map').Nodup)
    (behind :
      ∀ frame ∈ usableFrames map',
        frame ∉ (usableFrames map').take count → frame ∈ usableFrames rest) :
    (usableFrames (skipped ++ [stop])).length ≤ count := by
  have parts := usableFrames_split split
  by_contra longer
  have within : count < (usableFrames (skipped ++ [stop])).length := by
    omega
  let frame := (usableFrames (skipped ++ [stop]))[count]
  have inFront : frame ∈ usableFrames (skipped ++ [stop]) :=
    List.getElem_mem within
  have member : frame ∈ usableFrames map' := by
    rw [parts]
    exact List.mem_append_left _ inFront
  have notFirst : frame ∉ (usableFrames map').take count := by
    intro first
    apply List.disjoint_take_drop nodup (Nat.le_refl _) first
    rw [parts, List.drop_append_of_le_length (by omega),
      List.drop_eq_getElem_cons within]
    exact List.mem_cons_self
  have inRest := behind frame member notFirst
  rw [parts] at nodup
  exact (List.nodup_append'.mp nodup).2.2 inFront inRest

/-- On a lossless map the next call draws the frame behind those handed out. -/
theorem next_of_lossless {current : PhysFrame .size4KiB}
    (physical :
      ∀ descriptor ∈ usableDescriptors map', descriptor.Physical)
    (found : (usableFrames map')[count]? = some current)
    (pending :
      pendingFrames map' =
        ((usableFrames map').take count).map .ok ++ allocator.pending) :
    ∃ advanced, allocator.allocateFrame = .ok (some current, advanced) := by
  have remaining :
      allocator.pending = ((usableFrames map').drop count).map .ok := by
    rw [pendingFrames_of_physical physical,
      ← List.take_append_drop count (usableFrames map'), List.map_append,
      List.take_append_drop] at pending
    exact (List.append_cancel_left pending).symm
  have head :
      (usableFrames map').drop count =
        current :: (usableFrames map').drop (count + 1) := by
    obtain ⟨within, same⟩ := List.getElem?_eq_some_iff.mp found
    rw [List.drop_eq_getElem_cons within, same]
  rw [head, List.map_cons] at remaining
  obtain ⟨advanced, called, _⟩ :=
    allocateFrame_produces.yielding allocator current _ remaining
  exact ⟨advanced, called⟩

/-- On a lossless map the walk goes on with the frames that are left. -/
theorem keepsRest_of_losslessAt
    (pending :
      pendingFrames map' =
        ((usableFrames map').take count).map .ok ++ allocator.pending)
    (lossless : LosslessAt map' count) :
    SwapKeepsRest map' ((usableFrames map').take count) allocator := by
  obtain
    ⟨physical, current, skipped, stop, rest, found, split, stopUsable,
      above, lower, drained⟩ :=
      lossless
  have representable :
      ∀ descriptor ∈ usableDescriptors map',
        descriptor.endAddress < wordSize :=
    fun descriptor member => (physical descriptor member).1
  obtain ⟨advanced, called⟩ := next_of_lossless physical found pending
  have stops : skipRegions (some current) map' = .ok rest := by
    rw [split]
    apply skipRegions_of_split stopUsable above
    · apply representable stop
      rw [split, mem_usableDescriptors]
      simp [stopUsable]
    · intro descriptor member
      refine ⟨lower descriptor member, representable descriptor ?_⟩
      rw [mem_usableDescriptors] at member
      rw [split, mem_usableDescriptors]
      exact ⟨List.mem_append_left _ member.1, member.2⟩
  have swap :
      allocator.swapMap map' =
        .ok { advanced with addresses := ⟨none, rest⟩ } := by
    simp [swapMap, called, stops]
  refine ⟨_, swap, ?_⟩
  intro frame member notHanded notDrawn
  have notFirst : frame ∉ (usableFrames map').take (count + 1) := by
    rw [mem_take_succ found]
    rintro (handed | rfl)
    · exact notHanded handed
    · exact notDrawn advanced called
  have inRest : frame ∈ usableFrames rest :=
    mem_rest_of_drained split drained member notFirst
  apply allocateFrame_produces.mem_takeNext_iff.mpr
  rw [pending_of_front_none, pendingFrames_of_physical, reached_map_ok]
  · exact inRest
  · intro descriptor listed
    rw [mem_usableDescriptors] at listed
    apply physical descriptor
    rw [split, mem_usableDescriptors]
    exact ⟨by simp [listed.1], listed.2⟩

theorem losslessAt_of_keepsRest
    (aligned :
      ∀ descriptor ∈ usableDescriptors map',
        descriptor.physicalAddress % 4096 = 0)
    (sized :
      ∀ descriptor ∈ usableDescriptors map',
        descriptor.physicalAddress < wordSize)
    (nodup : (usableFrames map').Nodup)
    (left : count < (usableFrames map').length)
    (pending :
      pendingFrames map' =
        ((usableFrames map').take count).map .ok ++ allocator.pending)
    (keeps : SwapKeepsRest map' ((usableFrames map').take count) allocator) :
    LosslessAt map' count := by
  obtain ⟨swapped, swap, kept⟩ := keeps
  obtain ⟨current, advanced, rest, called, skips, rfl⟩ := swapMap_eq_ok swap
  have found := next_usableFrame left pending called
  obtain ⟨skipped, stop, split, stopUsable, above, lower⟩ :=
    skipRegions_eq_ok skips
  have reachedLater :
      ∀ frame ∈ usableFrames map',
        frame ∉ (usableFrames map').take (count + 1) →
          Reached frame (pendingFrames rest) := by
    intro frame member notFirst
    rw [mem_take_succ found, not_or] at notFirst
    rw [← pending_of_front_none advanced.memoryMap,
      ← allocateFrame_produces.mem_takeNext_iff]
    apply kept frame member notFirst.1
    intro other answered
    rw [called] at answered
    cases answered
    exact notFirst.2 rfl
  have physical :
      ∀ descriptor ∈ usableDescriptors map', descriptor.Physical := by
    apply physical_of_number_lt aligned sized
    intro frame member
    by_cases first : frame ∈ (usableFrames map').take (count + 1)
    · rw [mem_take_succ found] at first
      have reachedFirst : Reached frame (pendingFrames map') := by
        rw [pending, allocateFrame_produces.next_some called, reached_append]
        rcases first with handed | rfl
        · exact Or.inl (reached_map_ok.mpr handed)
        · refine Or.inr ⟨?_, Reached.here _⟩
          intro entry listed
          obtain ⟨item, _, rfl⟩ := List.mem_map.mp listed
          exact ⟨item, rfl⟩
      exact number_lt_of_reached reachedFirst
    · exact number_lt_of_reached (reachedLater frame member first)
  refine ⟨physical, current, skipped, stop, rest, found, split, stopUsable,
    above, lower, ?_⟩
  apply drained_of_mem_rest split nodup
  intro frame member notFirst
  obtain ⟨good, entries, sequence, listed⟩ :=
    (reachedLater frame member notFirst).split
  have presents := pendingFrames_presents rest
  rw [sequence] at presents
  exact presents.good_entries.1.subset listed

/-- After any number of calls that leaves a frame, the swap loses no memory
exactly when the map is lossless there. -/
theorem swapMap_keepsRest_iff
    (aligned :
      ∀ descriptor ∈ usableDescriptors map,
        descriptor.physicalAddress % 4096 = 0)
    (apart : (usableDescriptors map).Pairwise MemoryDescriptor.Apart)
    (sized :
      ∀ descriptor ∈ usableDescriptors map,
        descriptor.physicalAddress < wordSize)
    (same : SameDescriptors map map')
    (left : count < (usableFrames map).length)
    (before : allocateFrames count (new map) = .ok (answers, allocator)) :
    SwapKeepsRest map' (itemsOf answers) allocator ↔
      LosslessAt map' count := by
  have aligned' :
      ∀ descriptor ∈ usableDescriptors map',
        descriptor.physicalAddress % 4096 = 0 :=
    (same.forall_iff fun _ => Iff.rfl).mp aligned
  have apart' : (usableDescriptors map').Pairwise MemoryDescriptor.Apart :=
    (same.pairwise_iff fun _ _ => Iff.rfl).mp apart
  have sized' :
      ∀ descriptor ∈ usableDescriptors map',
        descriptor.physicalAddress < wordSize :=
    (same.forall_iff fun _ => Iff.rfl).mp sized
  obtain ⟨handed, pending⟩ := pending_after same before
  rw [same.usableFrames_eq] at left
  rw [handed]
  constructor
  · intro keeps
    exact losslessAt_of_keepsRest aligned' sized'
      (usableFrames_nodup aligned' apart') left pending keeps
  · intro lossless
    exact keepsRest_of_losslessAt pending lossless

end Losses

/-- Usable memory in two regions of one page each. -/
def singlePagesMap : MemoryMap :=
  [⟨.conventional, 0x1000, 0, 1⟩, ⟨.conventional, 0x3000, 0, 1⟩]

theorem swapMap_keepsRest_iff_singlePages :
    SwapKeepsRest singlePagesMap [] (new singlePagesMap) := by
  have before :
      allocateFrames 0 (new singlePagesMap) = .ok ([], new singlePagesMap) :=
    rfl
  apply (swapMap_keepsRest_iff (by decide) (by decide) (by decide) rfl
    (by decide) before).mpr
  refine ⟨by decide, ⟨1⟩, [], ⟨.conventional, 0x1000, 0, 1⟩,
    [⟨.conventional, 0x3000, 0, 1⟩], ?_⟩
  decide

/-- One usable region of two pages. -/
def twoPagesMap : MemoryMap :=
  [⟨.conventional, 0x1000, 0, 2⟩]

/-- The swap draws the first page and drops the region with the second. -/
theorem swapMap_loses_page :
    ¬ ∀ (map : MemoryMap) (count : Nat)
        (answers : List (Option (PhysFrame .size4KiB)))
        (allocator : PageTableFrameAllocator),
      (∀ descriptor ∈ usableDescriptors map,
        descriptor.physicalAddress % 4096 = 0) →
      (usableDescriptors map).Pairwise MemoryDescriptor.Apart →
      (usableDescriptors map).Pairwise
        (fun lower upper => lower.physicalAddress ≤ upper.physicalAddress) →
      count < (usableFrames map).length →
      allocateFrames count (new map) = .ok (answers, allocator) →
      SwapKeepsRest map (itemsOf answers) allocator := by
  intro keeps
  obtain ⟨swapped, swap, kept⟩ :=
    keeps twoPagesMap 0 [] (new twoPagesMap) (by decide) (by decide)
      (by decide) (by decide) rfl
  have swapped_eq : swapped = ⟨twoPagesMap, ⟨none, []⟩⟩ := by
    have computed :
        (new twoPagesMap).swapMap twoPagesMap =
          .ok ⟨twoPagesMap, ⟨none, []⟩⟩ := by
      decide
    rw [computed] at swap
    cases swap
    rfl
  subst swapped_eq
  obtain ⟨number, later, after, allocated, member⟩ :=
    kept ⟨2⟩ (by decide) (by simp [itemsOf]) (by
      intro advanced called
      cases called)
  rw [itemsOf_allocateFrames allocated] at member
  simp [usableFrames, usableDescriptors] at member

end RustKernel.Memory
