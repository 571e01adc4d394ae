import RustKernel.Paging.RadixTable

/-!
# What `map_to` reports

`LawfulMapper` says what the errors of `map_to` mean.  Two further parts of its
documentation say when they are given: a page whose entry is in use is reported
as already mapped, together with the frame of the call, and a request that the
allocator turned down is reported as a failed allocation.
-/

namespace RustKernel.Paging

open RustKernel.Machine

class ReportingMapper (T : Type) [Mapper T] : Prop extends LawfulMapper T where
  used_reported :
    ∀ (table : T) (supply : FrameAllocator) {size : PageSize}
      (page : Page size) (frame : PhysFrame size) (flags : PageTableFlags),
      entry table size page ≠ .unused →
        (mapTo page frame flags table supply).result =
          .error (.pageAlreadyMapped frame)
  dry_reported :
    ∀ (table : T) (supply : FrameAllocator) {size : PageSize}
      (page : Page size) (frame : PhysFrame size) (flags : PageTableFlags),
      supply.Answered (mapTo page frame flags table supply).allocator none →
        (mapTo page frame flags table supply).result =
          .error .frameAllocationFailed

section Consequences

variable {T : Type} [Mapper T] [ReportingMapper T]
variable {table : T} {supply : FrameAllocator} {size : PageSize}
variable {page : Page size} {frame : PhysFrame size} {flags : PageTableFlags}

/-- The page is unmapped, and the allocator does not turn down a request for
one of its missing tables. -/
structure CanMap (page : Page size) (frame : PhysFrame size)
    (flags : PageTableFlags) (table : T) (supply : FrameAllocator) : Prop where
  unmapped : Unmapped table page
  supplied :
    ¬ supply.Answered (mapTo page frame flags table supply).allocator none

theorem mapTo_eq_ok_iff (present : flags.present = true) :
    (mapTo page frame flags table supply).result = .ok () ↔
      CanMap page frame flags table supply := by
  have effect :=
    LawfulMapper.mapTo_effect table supply page frame flags present
  constructor
  · intro succeeded
    have unused := (effect.mapped succeeded).1
    have leaf := (effect.mapped succeeded).2
    refine ⟨⟨unused, ?_⟩, ?_⟩
    · intro larger hugeFrame hugeFlags grows huge
      have around :=
        LawfulMapper.enclosing_table (mapTo page frame flags table supply).table
          larger page (by rw [leaf]; simp) grows
      obtain ⟨new, kept, _⟩ := effect.leaf_kept huge
      rw [kept] at around
      cases around
    · intro dry
      rw [ReportingMapper.dry_reported table supply page frame flags dry]
        at succeeded
      cases succeeded
  · intro canMap
    exact effect.ok_of_unmapped canMap.unmapped canMap.supplied

/-- The error names the frame of the call. -/
theorem reported_frame (present : flags.present = true)
    {taken : PhysFrame size}
    (failed :
      (mapTo page frame flags table supply).result =
        .error (.pageAlreadyMapped taken)) :
    taken = frame := by
  have effect :=
    LawfulMapper.mapTo_effect table supply page frame flags present
  have used := effect.alreadyMapped taken failed
  rw [ReportingMapper.used_reported table supply page frame flags used]
    at failed
  cases failed
  rfl

end Consequences

/-! ## The radix table reports so -/

theorem mapAlong_used {size : PageSize} {frame : PhysFrame size}
    {flags : PageTableFlags} {path : List Nat} {slot : Slot}
    {supply : FrameAllocator} (used : slot.follow path ≠ .unused) :
    (mapAlong frame flags path slot supply).result =
      .error (.pageAlreadyMapped frame) := by
  induction path generalizing slot supply with
  | nil =>
      cases slot with
      | unused => exact absurd rfl used
      | leaf number old => rfl
      | table home old slots => rfl
  | cons index rest inductionHypothesis =>
      cases slot with
      | unused => exact absurd rfl used
      | leaf number old => exact absurd rfl used
      | table home old slots => exact inductionHypothesis used

theorem FrameAllocator.not_answered_self {allocator : FrameAllocator}
    {answer : Option (PhysFrame .size4KiB)} :
    ¬ allocator.Answered allocator answer := by
  intro answered
  obtain ⟨index, lower, upper, _⟩ := answered
  omega

theorem mapAlong_dry {size : PageSize} {frame : PhysFrame size}
    {flags : PageTableFlags} {path : List Nat} {slot : Slot}
    {supply : FrameAllocator}
    (dry :
      supply.Answered (mapAlong frame flags path slot supply).allocator none) :
    (mapAlong frame flags path slot supply).result =
      .error .frameAllocationFailed := by
  induction path generalizing slot supply with
  | nil =>
      cases slot <;> exact absurd dry FrameAllocator.not_answered_self
  | cons index rest inductionHypothesis =>
      cases slot with
      | leaf number old => exact absurd dry FrameAllocator.not_answered_self
      | table home old slots => exact inductionHypothesis dry
      | unused =>
          cases answer : supply.answers supply.drawn with
          | none => simp [mapAlong, FrameAllocator.allocateFrame, answer]
          | some home =>
              simp only [mapAlong, FrameAllocator.allocateFrame, answer,
                SlotOutcome.under] at dry ⊢
              apply inductionHypothesis
              obtain ⟨position, lower, upper, given⟩ := dry
              refine ⟨position, ?_, upper, given⟩
              have different : position ≠ supply.drawn := by
                rintro rfl
                rw [answer] at given
                cases given
              simp only
              omega

instance : ReportingMapper RadixTable where
  used_reported := by
    intro table supply size page frame flags used
    apply mapAlong_used
    intro unused
    apply used
    rw [RadixTable.entry_eq, RadixTable.slotOf, unused, Slot.toEntry]
  dry_reported := by
    intro table supply size page frame flags dry
    exact mapAlong_dry dry

end RustKernel.Paging
