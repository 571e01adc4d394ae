import RustKernel.Foundations.Producer
import RustKernel.Memory.MemoryMap

/-!
# The page-table frame allocator

`PageTableFrameAllocator` walks the usable descriptors of a memory map with a
chain of lazy iterators (`filter`, `map`, `flat_map`, `step_by`, `map`).  The
state below is the state of that chain: the region being stepped through and
the descriptors not yet reached.

`pending` lists what the chain still has to answer, panics included, and
`allocateFrame_produces` shows that the chain is a lazy presentation of it.
-/

namespace RustKernel.Memory

open RustKernel.Foundations
open RustKernel.Machine

/-- `Range<usize>`. -/
structure AddressRange where
  start : Nat
  stop : Nat
  deriving DecidableEq, Repr

/-- The closure `|u| u.physical_address..(u.physical_address + u.size * 4096)`. -/
def addressRange (descriptor : MemoryDescriptor) :
    Except Panic AddressRange := do
  let bytes ← checkedMul descriptor.size 4096
  let stop ← checkedAdd descriptor.physicalAddress bytes
  return ⟨descriptor.physicalAddress, stop⟩

/-- `StepBy<Range<usize>>` with step 4096: the first call takes the start of
the range, every later one skips 4095 addresses. -/
structure StepBy where
  start : Nat
  stop : Nat
  firstTake : Bool
  deriving DecidableEq, Repr

def AddressRange.stepBy (range : AddressRange) : StepBy :=
  ⟨range.start, range.stop, true⟩

def StepBy.next (steps : StepBy) : Option Nat × StepBy :=
  if steps.firstTake then
    if steps.start < steps.stop then
      (some steps.start,
        { steps with start := steps.start + 1, firstTake := false })
    else
      (none, { steps with firstTake := false })
  else if steps.start + 4095 < steps.stop then
    (some (steps.start + 4095), { steps with start := steps.start + 4096 })
  else
    (none, { steps with start := steps.stop })

/-- The state of `flat_map` over the filtered and mapped descriptors. -/
structure Addresses where
  front : Option StepBy
  rest : List MemoryDescriptor
  deriving DecidableEq, Repr

/-- Advance to the next usable descriptor that yields an address. -/
def Addresses.nextRegion :
    List MemoryDescriptor → Except Panic (Option Nat × Addresses)
  | [] => .ok (none, ⟨none, []⟩)
  | descriptor :: rest =>
      if descriptor.isUsable then
        match addressRange descriptor with
        | .error fault => .error fault
        | .ok range =>
            match range.stepBy.next with
            | (some address, inner) => .ok (some address, ⟨some inner, rest⟩)
            | (none, _) => nextRegion rest
      else
        nextRegion rest

def Addresses.next (addresses : Addresses) :
    Except Panic (Option Nat × Addresses) :=
  match addresses.front with
  | none => nextRegion addresses.rest
  | some inner =>
      match inner.next with
      | (some address, inner) =>
          .ok (some address, ⟨some inner, addresses.rest⟩)
      | (none, _) => nextRegion addresses.rest

/-- The closure `|addr| PhysFrame::containing_address(PhysAddr::new(addr))`. -/
def frameAt (address : Nat) : Except Panic (PhysFrame .size4KiB) :=
  match PhysAddr.new address with
  | .error fault => .error fault
  | .ok physical => .ok (PhysFrame.containingAddress physical)

structure PageTableFrameAllocator where
  memoryMap : MemoryMap
  addresses : Addresses
  deriving DecidableEq, Repr

namespace PageTableFrameAllocator

/-- `PageTableFrameAllocator::new`. -/
def new (map : MemoryMap) : PageTableFrameAllocator :=
  ⟨map, ⟨none, map⟩⟩

/-- `PageTableFrameAllocator::allocate_frame`. -/
def allocateFrame (allocator : PageTableFrameAllocator) :
    Except Panic (Option (PhysFrame .size4KiB) × PageTableFrameAllocator) :=
  match allocator.addresses.next with
  | .error fault => .error fault
  | .ok (none, rest) => .ok (none, { allocator with addresses := rest })
  | .ok (some address, rest) =>
      match frameAt address with
      | .error fault => .error fault
      | .ok frame => .ok (some frame, { allocator with addresses := rest })

/-- `count` successive calls of `allocate_frame`. -/
def allocateFrames (count : Nat) (allocator : PageTableFrameAllocator) :
    Except Panic
      (List (Option (PhysFrame .size4KiB)) × PageTableFrameAllocator) :=
  takeNext allocateFrame count allocator

/-- The `while` loop of `swap_map`: it drops regions that start below the
current frame, and the region at which it stops as well. -/
def skipRegions (current : Option (PhysFrame .size4KiB)) :
    List MemoryDescriptor → Except Panic (List MemoryDescriptor)
  | [] => .error .unwrap
  | descriptor :: rest =>
      if descriptor.isUsable then
        match addressRange descriptor, current with
        | .error fault, _ => .error fault
        | .ok _, none => .error .unwrap
        | .ok range, some frame =>
            if range.start < frame.startAddress then
              skipRegions current rest
            else
              .ok rest
      else
        skipRegions current rest

/-- `PageTableFrameAllocator::swap_map`; the stored map is not replaced. -/
def swapMap (map : MemoryMap) (allocator : PageTableFrameAllocator) :
    Except Panic PageTableFrameAllocator :=
  match allocator.allocateFrame with
  | .error fault => .error fault
  | .ok (current, allocator) =>
      match skipRegions current map with
      | .error fault => .error fault
      | .ok rest => .ok { allocator with addresses := ⟨none, rest⟩ }

end PageTableFrameAllocator

/-! ## The sequence behind the chain -/

/-- The addresses that a stepped range still yields. -/
def StepBy.remaining (steps : StepBy) : List Nat :=
  let first := if steps.firstTake then steps.start else steps.start + 4095
  List.range' first ((steps.stop - first + 4095) / 4096) 4096

theorem StepBy.next_of_remaining_nil {steps : StepBy}
    (empty : steps.remaining = []) :
    steps.next.1 = none := by
  cases steps with
  | mk start stop firstTake =>
      cases firstTake with
      | true =>
          have drained : ¬ start < stop := by
            simp only [StepBy.remaining, if_true, List.range'_eq_nil_iff]
              at empty
            omega
          simp [StepBy.next, drained]
      | false =>
          have drained : ¬ start + 4095 < stop := by
            simp only [StepBy.remaining, Bool.false_eq_true, if_false,
              List.range'_eq_nil_iff] at empty
            omega
          simp [StepBy.next, drained]

theorem StepBy.next_of_remaining_cons
    {steps : StepBy} {address : Nat} {rest : List Nat}
    (sequence : steps.remaining = address :: rest) :
    ∃ after, steps.next = (some address, after) ∧ after.remaining = rest := by
  cases steps with
  | mk start stop firstTake =>
      cases firstTake with
      | true =>
          simp only [StepBy.remaining, if_true, List.range'_eq_cons_iff]
            at sequence
          obtain ⟨rfl, positive, rfl⟩ := sequence
          have within : start < stop := by omega
          refine ⟨_, by simp only [StepBy.next, if_true, within]; rfl, ?_⟩
          simp only [StepBy.remaining, Bool.false_eq_true, if_false]
          congr 1
          omega
      | false =>
          simp only [StepBy.remaining, Bool.false_eq_true, if_false,
            List.range'_eq_cons_iff] at sequence
          obtain ⟨rfl, positive, rfl⟩ := sequence
          have within : start + 4095 < stop := by omega
          refine ⟨_, by
            simp only [StepBy.next, Bool.false_eq_true, if_false, within,
              if_true]; rfl, ?_⟩
          simp only [StepBy.remaining, Bool.false_eq_true, if_false]
          congr 1
          omega

/-- What one usable descriptor contributes: its addresses, or the panic that
computing its end raises. -/
def regionAddresses (descriptor : MemoryDescriptor) :
    List (Except Panic Nat) :=
  match addressRange descriptor with
  | .error fault => [.error fault]
  | .ok range => range.stepBy.remaining.map .ok

def Addresses.pending (addresses : Addresses) : List (Except Panic Nat) :=
  (match addresses.front with
    | none => []
    | some inner => inner.remaining.map .ok) ++
  (usableDescriptors addresses.rest).flatMap regionAddresses

namespace Addresses

/-- A region without addresses is passed over. -/
theorem nextRegion_of_empty
    {descriptor : MemoryDescriptor} {rest : List MemoryDescriptor}
    (empty : descriptor.isUsable → regionAddresses descriptor = []) :
    nextRegion (descriptor :: rest) = nextRegion rest := by
  by_cases usable : descriptor.isUsable = true
  · have noAddresses := empty usable
    cases computed : addressRange descriptor with
    | error fault => simp [regionAddresses, computed] at noAddresses
    | ok range =>
        simp only [regionAddresses, computed, List.map_eq_nil_iff]
          at noAddresses
        have drained := StepBy.next_of_remaining_nil noAddresses
        cases taken : range.stepBy.next with
        | mk answer inner =>
            rw [taken] at drained
            simp only [nextRegion, usable, if_true, computed, taken]
            cases drained
            rfl
  · simp [nextRegion, usable]

theorem nextRegion_of_fault
    {descriptor : MemoryDescriptor} {rest : List MemoryDescriptor}
    {fault : Panic} {tail : List (Except Panic Nat)}
    (usable : descriptor.isUsable = true)
    (sequence : regionAddresses descriptor = .error fault :: tail) :
    nextRegion (descriptor :: rest) = .error fault := by
  cases computed : addressRange descriptor with
  | error raised =>
      simp only [regionAddresses, computed, List.cons.injEq,
        Except.error.injEq] at sequence
      simp [nextRegion, usable, computed, sequence.1]
  | ok range =>
      simp only [regionAddresses, computed, List.map_eq_cons_iff]
        at sequence
      obtain ⟨_, _, _, impossible, _⟩ := sequence
      cases impossible

theorem nextRegion_of_address
    {descriptor : MemoryDescriptor} {rest : List MemoryDescriptor}
    {address : Nat} {tail : List (Except Panic Nat)}
    (usable : descriptor.isUsable = true)
    (sequence : regionAddresses descriptor = .ok address :: tail) :
    ∃ after,
      nextRegion (descriptor :: rest) = .ok (some address, after) ∧
      after.pending =
        tail ++ (usableDescriptors rest).flatMap regionAddresses := by
  cases computed : addressRange descriptor with
  | error fault => simp [regionAddresses, computed] at sequence
  | ok range =>
      simp only [regionAddresses, computed, List.map_eq_cons_iff]
        at sequence
      obtain ⟨found, left, split, same, rfl⟩ := sequence
      cases same
      obtain ⟨inner, taken, remaining⟩ :=
        StepBy.next_of_remaining_cons split
      refine ⟨⟨some inner, rest⟩, ?_, ?_⟩
      · simp [nextRegion, usable, computed, taken]
      · simp [pending, remaining]

/-- The search for the next region presents the addresses of all regions that
are left. -/
theorem nextRegion_spec (descriptors : List MemoryDescriptor) :
    match (usableDescriptors descriptors).flatMap regionAddresses with
    | [] =>
        ∃ after, nextRegion descriptors = .ok (none, after) ∧
          after.pending = []
    | .error fault :: _ => nextRegion descriptors = .error fault
    | .ok address :: tail =>
        ∃ after, nextRegion descriptors = .ok (some address, after) ∧
          after.pending = tail := by
  induction descriptors with
  | nil =>
      exact ⟨⟨none, []⟩, rfl, rfl⟩
  | cons descriptor rest inductionHypothesis =>
      by_cases usable : descriptor.isUsable = true
      · have listed :
            usableDescriptors (descriptor :: rest) =
              descriptor :: usableDescriptors rest := by
          simp [usableDescriptors, usable]
        rw [listed, List.flatMap_cons]
        cases sequence : regionAddresses descriptor with
        | nil =>
            rw [nextRegion_of_empty fun _ => sequence]
            exact inductionHypothesis
        | cons read tail =>
            cases read with
            | error fault => exact nextRegion_of_fault usable sequence
            | ok address => exact nextRegion_of_address usable sequence
      · have skipped :
            usableDescriptors (descriptor :: rest) =
              usableDescriptors rest := by
          simp [usableDescriptors, usable]
        rw [skipped, nextRegion_of_empty fun impossible =>
          absurd impossible usable]
        exact inductionHypothesis

/-- The whole chain, at any point of its life. -/
theorem next_spec (addresses : Addresses) :
    match addresses.pending with
    | [] =>
        ∃ after, addresses.next = .ok (none, after) ∧ after.pending = []
    | .error fault :: _ => addresses.next = .error fault
    | .ok address :: tail =>
        ∃ after, addresses.next = .ok (some address, after) ∧
          after.pending = tail := by
  cases addresses with
  | mk front rest =>
      cases front with
      | none =>
          simpa only [pending, List.nil_append, next] using
            nextRegion_spec rest
      | some inner =>
          match sequence : inner.remaining with
          | [] =>
              have drained := StepBy.next_of_remaining_nil sequence
              have passed : next ⟨some inner, rest⟩ = nextRegion rest := by
                cases taken : inner.next with
                | mk answer after =>
                    rw [taken] at drained
                    cases drained
                    simp [next, taken]
              rw [passed]
              simpa only [pending, sequence, List.map_nil, List.nil_append]
                using nextRegion_spec rest
          | address :: left =>
              obtain ⟨after, taken, remaining⟩ :=
                StepBy.next_of_remaining_cons sequence
              simp only [pending, sequence, List.map_cons, List.cons_append]
              refine ⟨⟨some after, rest⟩, ?_, ?_⟩
              · simp [next, taken]
              · simp [remaining]

theorem next_produces : Produces Addresses.next Addresses.pending where
  drained := by
    intro addresses empty
    have spec := next_spec addresses
    rw [empty] at spec
    exact spec
  failing := by
    intro addresses fault rest sequence
    have spec := next_spec addresses
    rw [sequence] at spec
    exact spec
  yielding := by
    intro addresses address rest sequence
    have spec := next_spec addresses
    rw [sequence] at spec
    exact spec

end Addresses

/-- The answers still to come, as frames or panics. -/
def PageTableFrameAllocator.pending (allocator : PageTableFrameAllocator) :
    List (Except Panic (PhysFrame .size4KiB)) :=
  allocator.addresses.pending.map fun entry => entry.bind frameAt

namespace PageTableFrameAllocator

/-- The allocator is a lazy presentation of its pending frames. -/
theorem allocateFrame_produces :
    Produces allocateFrame PageTableFrameAllocator.pending := by
  have chain :=
    (Addresses.next_produces.convert frameAt).focus
      PageTableFrameAllocator.addresses
      (fun allocator after => { allocator with addresses := after })
      (fun _ _ => rfl)
  convert chain using 1
  · funext allocator
    unfold allocateFrame
    match allocator.addresses.next with
    | .error fault => rfl
    | .ok (none, after) => rfl
    | .ok (some address, after) =>
        cases converted : frameAt address with
        | error fault => simp [converted]
        | ok frame => simp [converted]
  · rfl

end PageTableFrameAllocator

end RustKernel.Memory
