import RustKernel.Kernel.MapPhys

/-!
# The region that `map_phys` maps

A call maps the pages up to the one around the end of its range, which the
range does not reach when it ends on a page boundary.  A call stops at the
first page that is mapped already, so that the pages behind it are reached only
when they are mapped as well.

A page is named by the low 48 bits of its addresses.  From `2^47` on these are
not the bits of a physical address alone: the page of such a frame begins at
its address with the upper sixteen bits set.
-/

namespace RustKernel.Kernel

open RustKernel.Foundations
open RustKernel.Machine
open RustKernel.Paging

/-! ## One call -/

/-- The page has an address of the range from `phys` on. -/
def Intersects (phys : PhysAddr) (size : Nat) (page : Page .size4KiB) : Prop :=
  ∃ address, phys.value ≤ address ∧ address < phys.value + size ∧
    address / 4096 = page.number

theorem intersects_iff {phys : PhysAddr} {size : Nat} {page : Page .size4KiB}
    (positive : 0 < size) :
    Intersects phys size page ↔
      phys.value / 4096 ≤ page.number ∧
        page.number ≤ (phys.value + size - 1) / 4096 := by
  constructor
  · intro intersects
    obtain ⟨address, lower, upper, inPage⟩ := intersects
    omega
  · intro between
    by_cases first : phys.value / 4096 = page.number
    · exact ⟨phys.value, Nat.le_refl _, by omega, first⟩
    · exact ⟨page.number * 4096, by omega, by omega, by omega⟩

section Exactness

variable {T : Type} [Mapper T]

/-- Some address of the page is translated anew. -/
def Remapped (before after : T) (page : Page .size4KiB) : Prop :=
  ∃ address, address / 4096 = page.number ∧
    translate after address ≠ translate before address

variable {phys : PhysAddr} {size : Nat} {state final : ConfigMachine T}

theorem mapPhys_run_fits {answer : Except (MapToError .size4KiB) Unit}
    (returned : (mapPhys phys size).run state = .ok answer final) :
    phys.value + size < 2 ^ 52 := by
  rw [mapPhys, bind_run_ok] at returned
  obtain ⟨sum, _, summed, returned⟩ := returned
  rw [ofExcept_run_ok, checkedAdd_eq_ok] at summed
  obtain ⟨⟨_, rfl⟩, rfl⟩ := summed
  rw [bind_run_ok] at returned
  obtain ⟨physEnd, _, created, _⟩ := returned
  rw [ofExcept_run_ok, PhysAddr.new_eq_ok] at created
  have inRange := physEnd.inRange
  omega

/-- A call that returns `Ok` has mapped pairs of frames and pages. -/
theorem mapPhys_pairs
    (mapped : (mapPhys phys size).run state = .ok (.ok ()) final) :
    (mapPairs ((framesOf phys size).map identityPair)).run state =
      .ok (.ok ()) final := by
  have fits := mapPhys_run_fits mapped
  rw [mapPhys_run fits] at mapped
  have bounded :
      ∀ frame ∈ framesOf phys size, frame.startAddress < 2 ^ 52 := by
    intro frame member
    rw [mem_framesOf] at member
    simp only [PhysFrame.startAddress, PageSize.bytes]
    omega
  rw [← identityMapEach_run_eq (identityMapEach_fits bounded mapped)]
  exact mapped

variable [LawfulMapper T]

/-- The pages that a successful call maps anew are those of its frames. -/
theorem remapped_iff
    (unmapped :
      ∀ frame ∈ framesOf phys size,
        Unmapped state.table (⟨frame.number⟩ : Page .size4KiB))
    (mapped : (mapPhys phys size).run state = .ok (.ok ()) final)
    {page : Page .size4KiB} :
    Remapped state.table final.table page ↔
      ⟨page.number⟩ ∈ framesOf phys size := by
  have pairs := mapPhys_pairs mapped
  constructor
  · intro remapped
    obtain ⟨address, inPage, changed⟩ := remapped
    by_contra absent
    apply changed
    apply mapPairs_translate_kept pairs
    intro pair member same
    obtain ⟨frame, listed, rfl⟩ := List.mem_map.mp member
    apply absent
    have number : page.number = frame.number := inPage.symm.trans same
    rw [number]
    exact listed
  · intro listed
    have leaf := mapPairs_leaves pairs (List.mem_map_of_mem listed)
    refine ⟨page.number * 4096, by omega, ?_⟩
    have inPage :
        (⟨page.number * 4096 / PageSize.size4KiB.bytes⟩ : Page .size4KiB) =
          ⟨page.number⟩ := by
      rw [Page.mk.injEq]
      exact Nat.mul_div_cancel _ (by decide)
    have before : translate state.table (page.number * 4096) = none := by
      apply translate_of_unmapped
      rw [inPage]
      exact unmapped _ listed
    have after :
        translate final.table (page.number * 4096) ≠ none := by
      rw [identityPair, ← inPage] at leaf
      rw [translate_of_leaf leaf]
      simp
    rw [before]
    exact after

/-- A call maps what was asked, and only that, exactly when its range does not
end on a page boundary. -/
theorem mapPhys_exact_iff (positive : 0 < size)
    (unmapped :
      ∀ frame ∈ framesOf phys size,
        Unmapped state.table (⟨frame.number⟩ : Page .size4KiB))
    (mapped : (mapPhys phys size).run state = .ok (.ok ()) final) :
    (∀ page : Page .size4KiB,
      (Remapped state.table final.table page ↔ Intersects phys size page) ∧
        (Intersects phys size page →
          entry final.table .size4KiB page =
            .leaf ⟨page.number⟩ ⟨true, true, false⟩)) ↔
      (phys.value + size) % 4096 ≠ 0 := by
  have remapped :
      ∀ page : Page .size4KiB,
        Remapped state.table final.table page ↔
          ⟨page.number⟩ ∈ framesOf phys size :=
    fun _ => remapped_iff unmapped mapped
  constructor
  · intro exact aligned
    have last := (exact ⟨(phys.value + size) / 4096⟩).1
    rw [remapped, mem_framesOf, intersects_iff positive] at last
    simp only at last
    omega
  · intro unaligned page
    rw [remapped, mem_framesOf, intersects_iff positive]
    simp only
    have sameLast :
        (phys.value + size - 1) / 4096 = (phys.value + size) / 4096 := by
      omega
    rw [sameLast]
    refine ⟨Iff.rfl, ?_⟩
    intro between
    have listed : (⟨page.number⟩ : PhysFrame .size4KiB) ∈ framesOf phys size :=
      mem_framesOf.mpr between
    exact mapPairs_leaves (mapPhys_pairs mapped) (List.mem_map_of_mem listed)

/-- Over unmapped pages, with frames for the tables, the call returns `Ok`. -/
theorem mapPhys_returns (fits : phys.value + size < 2 ^ 48)
    (unmapped :
      ∀ frame ∈ framesOf phys size,
        Unmapped state.table (⟨frame.number⟩ : Page .size4KiB))
    (supplied : Supplied state.allocator) :
    ∃ final, (mapPhys phys size).run state = .ok (.ok ()) final := by
  have below :
      ∀ frame ∈ framesOf phys size, frame.startAddress < 2 ^ 48 := by
    intro frame member
    rw [mem_framesOf] at member
    simp only [PhysFrame.startAddress, PageSize.bytes]
    omega
  have distinct :
      ((framesOf phys size).map identityPair).Pairwise
        (fun left right => left.2 ≠ right.2) := by
    rw [List.pairwise_map]
    refine List.Pairwise.imp ?_ (PhysFrame.rangeInclusive_nodup _ _)
    intro left right different same
    apply different
    cases left
    cases right
    simpa [identityPair] using same
  have pairsUnmapped :
      ∀ pair ∈ (framesOf phys size).map identityPair,
        Unmapped state.table pair.2 := by
    intro pair member
    obtain ⟨frame, listed, rfl⟩ := List.mem_map.mp member
    exact unmapped frame listed
  obtain ⟨final, mapped, _⟩ := mapPairs_returns distinct pairsUnmapped supplied
  refine ⟨final, ?_⟩
  rw [mapPhys_run (by omega), identityMapEach_run_eq below]
  exact mapped

end Exactness

theorem freshWindow_unmapped {size : PageSize} (page : Page size) :
    Unmapped freshWindow.table page :=
  unmapped_of_empty (RadixTable.new_empty _) page

theorem freshWindow_supplied : Supplied freshWindow.allocator :=
  fun index _ => by simp [freshWindow]

/-- The registers of an I/O APIC, short of the last byte of their page. -/
theorem mapPhys_exact_within_page :
    ∃ final,
      (mapPhys ⟨0xFEC00000, by decide⟩ 4095).run freshWindow =
          .ok (.ok ()) final ∧
        ((∀ page : Page .size4KiB,
          (Remapped freshWindow.table final.table page ↔
              Intersects ⟨0xFEC00000, by decide⟩ 4095 page) ∧
            (Intersects ⟨0xFEC00000, by decide⟩ 4095 page →
              entry final.table .size4KiB page =
                .leaf ⟨page.number⟩ ⟨true, true, false⟩)) ↔
          (0xFEC00000 + 4095) % 4096 ≠ 0) := by
  have returns :
      ∃ final,
        (mapPhys ⟨0xFEC00000, by decide⟩ 4095).run freshWindow =
          .ok (.ok ()) final :=
    mapPhys_returns (by decide) (fun _ _ => freshWindow_unmapped _)
      freshWindow_supplied
  obtain ⟨final, mapped⟩ := returns
  exact ⟨final, mapped,
    mapPhys_exact_iff (by decide) (fun _ _ => freshWindow_unmapped _) mapped⟩

/-- The whole page of registers: the next page is mapped as well. -/
theorem mapPhys_maps_next_page :
    ∃ final,
      (mapPhys ⟨0xFEC00000, by decide⟩ 4096).run freshWindow =
          .ok (.ok ()) final ∧
        Remapped freshWindow.table final.table ⟨0xFEC01⟩ ∧
        ¬ Intersects ⟨0xFEC00000, by decide⟩ 4096 ⟨0xFEC01⟩ := by
  have returns :
      ∃ final,
        (mapPhys ⟨0xFEC00000, by decide⟩ 4096).run freshWindow =
          .ok (.ok ()) final :=
    mapPhys_returns (by decide) (fun _ _ => freshWindow_unmapped _)
      freshWindow_supplied
  obtain ⟨final, mapped⟩ := returns
  refine ⟨final, mapped, ?_, ?_⟩
  · rw [remapped_iff (fun _ _ => freshWindow_unmapped _) mapped, mem_framesOf]
    decide
  · rw [intersects_iff (by decide)]
    decide

/-! ## Sequences of calls -/

/-- The calls one after another, with their results ignored. -/
def mapAllPhys {T : Type} [Mapper T] (calls : List (PhysAddr × Nat)) :
    EStateM Panic (ConfigMachine T) Unit :=
  calls.forM fun call => do
    let _ ← mapPhys call.1 call.2

def IdentityMapped {T : Type} [Mapper T] (table : T) (number : Nat) : Prop :=
  ∃ flags,
    entry table .size4KiB (⟨number⟩ : Page .size4KiB) = .leaf ⟨number⟩ flags

/-- Every page of the region is identity mapped or unmapped, and the allocator
does not run out. -/
structure IdentityRegion {T : Type} [Mapper T] (Region : Nat → Prop)
    (state : ConfigMachine T) : Prop where
  supplied : Supplied state.allocator
  either :
    ∀ number, Region number →
      IdentityMapped state.table number ∨
        Unmapped state.table (⟨number⟩ : Page .size4KiB)

/-- The pages that a call maps: those before the first one that is mapped
already. -/
def Reached {T : Type} [Mapper T] (table : T) (first last number : Nat) :
    Prop :=
  first ≤ number ∧ number ≤ last ∧
    ∀ earlier, first ≤ earlier → earlier ≤ number →
      ¬ IdentityMapped table earlier

section Turns

variable {T : Type} [Mapper T] {Region : Nat → Prop}
variable {state : ConfigMachine T} {number : Nat}

theorem IdentityMapped.not_unmapped {table : T}
    (mapped : IdentityMapped table number) :
    ¬ Unmapped table (⟨number⟩ : Page .size4KiB) := by
  intro unmapped
  obtain ⟨flags, leaf⟩ := mapped
  rw [unmapped.unused] at leaf
  cases leaf

variable [LawfulMapper T]

theorem IdentityRegion.call_ok (region : IdentityRegion Region state)
    (unmapped : Unmapped state.table (⟨number⟩ : Page .size4KiB)) :
    (identityCall ⟨number⟩ state).result = .ok () :=
  (mapped_effect (⟨number⟩ : Page .size4KiB) ⟨number⟩ state).ok_of_unmapped
    unmapped region.supplied.not_out

theorem call_fails (mapped : IdentityMapped state.table number) :
    (identityCall ⟨number⟩ state).result ≠ .ok () := by
  intro succeeded
  obtain ⟨flags, leaf⟩ := mapped
  have effect :=
    mapped_effect (⟨number⟩ : Page .size4KiB) ⟨number⟩ state
  rw [(effect.mapped succeeded).1] at leaf
  cases leaf

/-- A turn leaves its page identity mapped and the others as they were. -/
theorem IdentityRegion.turn (region : IdentityRegion Region state)
    (inRegion : Region number) :
    IdentityRegion Region (state.identityMapped ⟨number⟩) ∧
      ∀ other, Region other →
        (IdentityMapped (state.identityMapped ⟨number⟩).table other ↔
          IdentityMapped state.table other ∨ other = number) := by
  have effect :=
    mapped_effect (⟨number⟩ : Page .size4KiB) ⟨number⟩ state
  have kept :
      ∀ other, IdentityMapped state.table other →
        IdentityMapped (state.identityMapped ⟨number⟩).table other := by
    intro other mapped
    obtain ⟨flags, leaf⟩ := mapped
    obtain ⟨new, after, _⟩ := effect.leaf_kept leaf
    exact ⟨new, after⟩
  have target :
      IdentityMapped (state.identityMapped ⟨number⟩).table number := by
    rcases region.either number inRegion with mapped | unmapped
    · exact kept number mapped
    · exact ⟨_, (effect.mapped (region.call_ok unmapped)).2⟩
  have others :
      ∀ other, other ≠ number →
        Unmapped state.table (⟨other⟩ : Page .size4KiB) →
          Unmapped (state.identityMapped ⟨number⟩).table
            (⟨other⟩ : Page .size4KiB) := by
    intro other different unmapped
    refine effect.unmapped_kept unmapped (apart_iff_ne.mpr ?_)
    intro same
    exact different (Page.mk.inj same).symm
  constructor
  · refine ⟨region.supplied.later effect.advances, ?_⟩
    intro other member
    by_cases same : other = number
    · rw [same]
      exact Or.inl target
    · rcases region.either other member with mapped | unmapped
      · exact Or.inl (kept other mapped)
      · exact Or.inr (others other same unmapped)
  · intro other member
    constructor
    · intro mapped
      by_cases same : other = number
      · exact Or.inr same
      · rcases region.either other member with before | unmapped
        · exact Or.inl before
        · exact absurd (others other same unmapped) mapped.not_unmapped
    · intro before
      rcases before with mapped | rfl
      · exact kept other mapped
      · exact target

/-- The pages that a loop reaches are the first one, where it is fresh, and
those that it reaches from the next one on. -/
theorem reached_succ {Mapped Next : Nat → Prop} {first count other : Nat}
    (fresh : ¬ Mapped first)
    (next :
      ∀ number, first + 1 ≤ number → number < first + 1 + count →
        (Next number ↔ Mapped number ∨ number = first))
    (here : Next other ↔ Mapped other ∨ other = first) :
    (Next other ∨
        first + 1 ≤ other ∧ other < first + 1 + count ∧
          ∀ earlier, first + 1 ≤ earlier → earlier ≤ other →
            ¬ Next earlier) ↔
      Mapped other ∨
        first ≤ other ∧ other < first + (count + 1) ∧
          ∀ earlier, first ≤ earlier → earlier ≤ other → ¬ Mapped earlier := by
  rw [here]
  constructor
  · intro reached
    rcases reached with (before | rfl) | ⟨lower, upper, fresher⟩
    · exact Or.inl before
    · refine Or.inr ⟨Nat.le_refl _, by omega, ?_⟩
      intro earlier atLeast atMost
      rw [Nat.le_antisymm atMost atLeast]
      exact fresh
    · refine Or.inr ⟨by omega, by omega, ?_⟩
      intro earlier atLeast atMost mapped
      by_cases isFirst : earlier = first
      · rw [isFirst] at mapped
        exact fresh mapped
      · have behind : first + 1 ≤ earlier := by omega
        exact fresher earlier behind atMost
          ((next earlier behind (by omega)).mpr (Or.inl mapped))
  · intro reached
    rcases reached with before | ⟨lower, upper, fresher⟩
    · exact Or.inl (Or.inl before)
    · by_cases isFirst : other = first
      · exact Or.inl (Or.inr isFirst)
      · refine Or.inr ⟨by omega, by omega, ?_⟩
        intro earlier atLeast atMost mapped
        rcases (next earlier atLeast (by omega)).mp mapped with before | same
        · exact fresher earlier (by omega) atMost before
        · omega

/-- The loop maps the pages in front of the first mapped one. -/
theorem IdentityRegion.loop {first count : Nat}
    (region : IdentityRegion Region state)
    (inRegion :
      ∀ number, first ≤ number → number < first + count → Region number)
    (fits : (first + count) * 4096 ≤ 2 ^ 48) :
    ∃ answer final,
      (identityMapEach ((List.range' first count).map PhysFrame.mk)).run
          state = .ok answer final ∧
        IdentityRegion Region final ∧
        ∀ other, Region other →
          (IdentityMapped final.table other ↔
            IdentityMapped state.table other ∨
              first ≤ other ∧ other < first + count ∧
                ∀ earlier, first ≤ earlier → earlier ≤ other →
                  ¬ IdentityMapped state.table earlier) := by
  induction count generalizing first state with
  | zero =>
      refine ⟨.ok (), state, rfl, region, ?_⟩
      intro other _
      constructor
      · exact Or.inl
      · intro mapped
        rcases mapped with before | ⟨lower, upper, _⟩
        · exact before
        · omega
  | succ count inductionHypothesis =>
      have firstIn : Region first := inRegion first (by omega) (by omega)
      have firstFits :
          (⟨first⟩ : PhysFrame .size4KiB).startAddress < 2 ^ 48 := by
        simp only [PhysFrame.startAddress, PageSize.bytes]
        omega
      obtain ⟨next, nextMapped⟩ := region.turn firstIn
      rw [List.range'_succ, List.map_cons]
      rcases region.either first firstIn with mapped | unmapped
      · -- the loop stops at a page that is mapped already
        cases answer : (identityCall ⟨first⟩ state).result with
        | ok value => exact absurd answer (call_fails mapped)
        | error reason =>
            refine ⟨.error reason, _,
              identityMapEach_cons_error firstFits answer, next, ?_⟩
            intro other member
            rw [nextMapped other member]
            constructor
            · intro before
              rcases before with before | rfl
              · exact Or.inl before
              · exact Or.inl mapped
            · intro before
              rcases before with before | ⟨lower, _, fresh⟩
              · exact Or.inl before
              · exact absurd mapped (fresh first (Nat.le_refl _) lower)
      · have notMapped : ¬ IdentityMapped state.table first :=
          fun mapped => mapped.not_unmapped unmapped
        have nextIn :
            ∀ number, first + 1 ≤ number → number < first + 1 + count →
              Region number := by
          intro number lower upper
          exact inRegion number (by omega) (by omega)
        have nextFits : (first + 1 + count) * 4096 ≤ 2 ^ 48 := by
          rw [Nat.add_right_comm]
          exact fits
        obtain ⟨answer, final, looped, last, lastMapped⟩ :=
          inductionHypothesis next nextIn nextFits
        refine ⟨answer, final, ?_, last, ?_⟩
        · rw [identityMapEach_cons_ok firstFits (region.call_ok unmapped)]
          exact looped
        · intro other member
          rw [lastMapped other member]
          apply reached_succ notMapped
          · intro number lower upper
            exact nextMapped number (nextIn number lower upper)
          · exact nextMapped other member

/-- The range of a call lies in the region, below the end of the virtual
addresses. -/
structure Serves (Region : Nat → Prop) (call : PhysAddr × Nat) : Prop where
  positive : 0 < call.2
  fits : call.1.value + call.2 < 2 ^ 48
  inRegion : ∀ frame ∈ framesOf call.1 call.2, Region frame.number

/-- A call maps the pages in front of the first mapped one, and keeps the
others. -/
theorem IdentityRegion.call {call : PhysAddr × Nat}
    (region : IdentityRegion Region state) (serves : Serves Region call) :
    ∃ answer final,
      (mapPhys call.1 call.2).run state = .ok answer final ∧
        IdentityRegion Region final ∧
        ∀ number, Region number →
          (IdentityMapped final.table number ↔
            IdentityMapped state.table number ∨
              Reached state.table (call.1.value / 4096)
                ((call.1.value + call.2) / 4096) number) := by
  have fits := serves.fits
  have ordered :
      call.1.value / 4096 ≤ (call.1.value + call.2) / 4096 :=
    Nat.div_le_div_right (Nat.le_add_right _ _)
  have inRegion :
      ∀ number, call.1.value / 4096 ≤ number →
        number <
            call.1.value / 4096 +
              ((call.1.value + call.2) / 4096 + 1 - call.1.value / 4096) →
          Region number := by
    intro number lower upper
    exact serves.inRegion ⟨number⟩ (mem_framesOf.mpr ⟨lower, by simp only; omega⟩)
  have lastFits :
      (call.1.value / 4096 +
          ((call.1.value + call.2) / 4096 + 1 - call.1.value / 4096)) * 4096 ≤
        2 ^ 48 := by
    omega
  obtain ⟨answer, final, looped, next, mapped⟩ := region.loop inRegion lastFits
  refine ⟨answer, final, ?_, next, ?_⟩
  · rw [mapPhys_run (by omega)]
    exact looped
  · intro number member
    rw [mapped number member, Reached]
    constructor
    · intro reached
      rcases reached with before | ⟨lower, upper, fresh⟩
      · exact Or.inl before
      · exact Or.inr ⟨lower, by omega, fresh⟩
    · intro reached
      rcases reached with before | ⟨lower, upper, fresh⟩
      · exact Or.inl before
      · exact Or.inr ⟨lower, by omega, fresh⟩

end Turns

/-! ## When every range gets mapped -/

section Sequences

variable {T : Type} [Mapper T] {Region : Nat → Prop}

/-- In the range of the call, no unmapped page lies behind a mapped one. -/
def MappedAtEnd (table : T) (call : PhysAddr × Nat) : Prop :=
  ∀ number later,
    Intersects call.1 call.2 ⟨number⟩ → IdentityMapped table number →
      number ≤ later → Intersects call.1 call.2 ⟨later⟩ →
        IdentityMapped table later

/-- Every page that intersects a range is identity mapped. -/
def Covered (table : T) (calls : List (PhysAddr × Nat)) : Prop :=
  ∀ call ∈ calls, ∀ number, Intersects call.1 call.2 ⟨number⟩ →
    IdentityMapped table number

theorem Serves.of_intersects {call : PhysAddr × Nat} {number : Nat}
    (serves : Serves Region call)
    (intersects : Intersects call.1 call.2 ⟨number⟩) :
    call.1.value / 4096 ≤ number ∧
      number ≤ (call.1.value + call.2) / 4096 ∧ Region number := by
  rw [intersects_iff serves.positive] at intersects
  have lower := intersects.1
  have upper := intersects.2
  simp only at lower upper
  have last : number ≤ (call.1.value + call.2) / 4096 := by omega
  exact ⟨lower, last, serves.inRegion ⟨number⟩ (mem_framesOf.mpr ⟨lower, last⟩)⟩

/-- What a call leaves mapped covers its range exactly when no unmapped page
lay behind a mapped one. -/
theorem covered_by_call_iff {call : PhysAddr × Nat} {before after : T}
    (serves : Serves Region call)
    (mapped :
      ∀ number, Region number →
        (IdentityMapped after number ↔
          IdentityMapped before number ∨
            Reached before (call.1.value / 4096)
              ((call.1.value + call.2) / 4096) number)) :
    Covered after [call] ↔ MappedAtEnd before call := by
  constructor
  · intro covered number later inRange numberMapped behind laterInRange
    have laterMapped := covered call (by simp) later laterInRange
    obtain ⟨lower, _, _⟩ := serves.of_intersects inRange
    obtain ⟨_, _, laterIn⟩ := serves.of_intersects laterInRange
    rcases (mapped later laterIn).mp laterMapped with was | ⟨_, _, fresh⟩
    · exact was
    · exact absurd numberMapped (fresh number lower behind)
  · intro atEnd other member number inRange
    rw [List.mem_singleton] at member
    subst member
    obtain ⟨lower, upper, inRegion⟩ := serves.of_intersects inRange
    rw [mapped number inRegion]
    by_cases was : IdentityMapped before number
    · exact Or.inl was
    · refine Or.inr ⟨lower, upper, ?_⟩
      intro earlier atLeast atMost earlierMapped
      apply was
      refine atEnd earlier number ?_ earlierMapped atMost inRange
      rw [intersects_iff serves.positive] at inRange ⊢
      exact ⟨atLeast, Nat.le_trans atMost inRange.2⟩

theorem mapAllPhys_append_ok {done : List (PhysAddr × Nat)}
    {call : PhysAddr × Nat} {state final : ConfigMachine T} :
    (mapAllPhys (done ++ [call])).run state = .ok () final ↔
      ∃ middle answer,
        (mapAllPhys done).run state = .ok () middle ∧
          (mapPhys call.1 call.2).run middle = .ok answer final := by
  unfold mapAllPhys
  simp only [forM_append_run_ok, forM_cons_run_ok, forM_nil_run_ok,
    bind_run_ok, pure_run_ok]
  constructor
  · intro ran
    obtain ⟨middle, begun, _, ⟨answer, _, called, _, rfl⟩, rfl⟩ := ran
    exact ⟨middle, answer, begun, called⟩
  · intro ran
    obtain ⟨middle, answer, begun, called⟩ := ran
    exact ⟨middle, begun, final, ⟨answer, final, called, trivial, rfl⟩, rfl⟩

variable [LawfulMapper T]

/-- The calls return, and the region stays one. -/
theorem IdentityRegion.calls {done : List (PhysAddr × Nat)}
    {state : ConfigMachine T} (region : IdentityRegion Region state)
    (serve : ∀ call ∈ done, Serves Region call) :
    ∃ final, (mapAllPhys done).run state = .ok () final ∧
      IdentityRegion Region final := by
  induction done using List.reverseRecOn with
  | nil => exact ⟨state, rfl, region⟩
  | append_singleton done call inductionHypothesis =>
      obtain ⟨middle, ran, middleRegion⟩ :=
        inductionHypothesis fun earlier member =>
          serve earlier (by simp [member])
      obtain ⟨answer, final, called, finalRegion, _⟩ :=
        middleRegion.call (serve call (by simp))
      exact ⟨final, mapAllPhys_append_ok.mpr ⟨middle, answer, ran, called⟩,
        finalRegion⟩

/-- One more call covers its range exactly when no unmapped page lay behind a
mapped one, and leaves the earlier ranges covered. -/
theorem IdentityRegion.covered_append {done : List (PhysAddr × Nat)}
    {call : PhysAddr × Nat} {middle final : ConfigMachine T}
    {answer : Except (MapToError .size4KiB) Unit}
    (region : IdentityRegion Region middle)
    (serve : ∀ earlier ∈ done, Serves Region earlier)
    (serves : Serves Region call)
    (called : (mapPhys call.1 call.2).run middle = .ok answer final) :
    (Covered final.table [call] ↔ MappedAtEnd middle.table call) ∧
      (Covered middle.table done → Covered final.table done) := by
  obtain ⟨_, _, ran, _, mapped⟩ := region.call serves
  rw [called] at ran
  cases ran
  refine ⟨covered_by_call_iff serves mapped, ?_⟩
  intro covered earlier member number inRange
  obtain ⟨_, _, inRegion⟩ := (serve earlier member).of_intersects inRange
  exact (mapped number inRegion).mpr
    (Or.inl (covered earlier member number inRange))

/-- The pages of all calls of a sequence. -/
def RegionOf (calls : List (PhysAddr × Nat)) (number : Nat) : Prop :=
  ∃ call ∈ calls, ⟨number⟩ ∈ framesOf call.1 call.2

/-- A sequence returns.  Its ranges are covered in every state that it reaches
exactly when no call finds an unmapped page behind a mapped one. -/
theorem mapAllPhys_covers_iff {calls : List (PhysAddr × Nat)}
    {state : ConfigMachine T}
    (positive : ∀ call ∈ calls, 0 < call.2)
    (fits : ∀ call ∈ calls, call.1.value + call.2 < 2 ^ 48)
    (unmapped :
      ∀ call ∈ calls, ∀ frame ∈ framesOf call.1 call.2,
        Unmapped state.table (⟨frame.number⟩ : Page .size4KiB))
    (supplied : Supplied state.allocator) :
    (∃ final, (mapAllPhys calls).run state = .ok () final) ∧
    ((∀ done rest middle, done ++ rest = calls →
        (mapAllPhys done).run state = .ok () middle →
          Covered middle.table done) ↔
      ∀ done call rest middle, done ++ call :: rest = calls →
        (mapAllPhys done).run state = .ok () middle →
          MappedAtEnd middle.table call) := by
  have serve : ∀ call ∈ calls, Serves (RegionOf calls) call := by
    intro call member
    exact ⟨positive call member, fits call member,
      fun frame listed => ⟨call, member, listed⟩⟩
  have region : IdentityRegion (RegionOf calls) state := by
    refine ⟨supplied, ?_⟩
    intro number inRegion
    obtain ⟨call, member, listed⟩ := inRegion
    exact Or.inr (unmapped call member _ listed)
  have serveDone :
      ∀ done rest, done ++ rest = calls →
        ∀ call ∈ done, Serves (RegionOf calls) call := by
    intro done rest split call member
    exact serve call (by simp [← split, member])
  have middleRegion :
      ∀ done rest middle, done ++ rest = calls →
        (mapAllPhys done).run state = .ok () middle →
          IdentityRegion (RegionOf calls) middle := by
    intro done rest middle split ran
    obtain ⟨final, returned, finalRegion⟩ :=
      region.calls (serveDone done rest split)
    rw [ran] at returned
    cases returned
    exact finalRegion
  refine ⟨?_, ?_, ?_⟩
  · obtain ⟨final, ran, _⟩ := region.calls serve
    exact ⟨final, ran⟩
  · intro covered done call rest middle split ran
    have middleIn := middleRegion done (call :: rest) middle split ran
    have serves := serve call (by simp [← split])
    obtain ⟨answer, final, called, _, _⟩ := middleIn.call serves
    have whole : done ++ [call] ++ rest = calls := by simp [← split]
    have allCovered :=
      covered _ rest final whole
        (mapAllPhys_append_ok.mpr ⟨middle, answer, ran, called⟩)
    have covers :=
      (middleIn.covered_append (serveDone done _ split) serves called).1
    apply covers.mp
    intro last member
    exact allCovered last (List.mem_append_right done member)
  · intro atEnd done
    induction done using List.reverseRecOn with
    | nil =>
        intro _ _ _ _ call member
        cases member
    | append_singleton done call inductionHypothesis =>
        intro rest final split ran
        have splitBefore : done ++ call :: rest = calls := by simp [← split]
        rw [mapAllPhys_append_ok] at ran
        obtain ⟨middle, answer, begun, called⟩ := ran
        have serves := serve call (by simp [← splitBefore])
        obtain ⟨covers, kept⟩ :=
          (middleRegion done _ middle splitBefore begun).covered_append
            (serveDone done _ splitBefore) serves called
        have earlierCovered :=
          kept (inductionHypothesis _ middle splitBefore begun)
        have lastCovered :=
          covers.mpr (atEnd done call rest middle splitBefore begun)
        intro other member
        rcases List.mem_append.mp member with earlier | last
        · exact earlierCovered other earlier
        · exact lastCovered other last

end Sequences

theorem freshWindow_region (Region : Nat → Prop) :
    IdentityRegion Region freshWindow :=
  ⟨freshWindow_supplied, fun _ _ => Or.inr (freshWindow_unmapped _)⟩

theorem freshWindow_not_mapped (number : Nat) :
    ¬ IdentityMapped freshWindow.table number := by
  intro mapped
  exact mapped.not_unmapped (freshWindow_unmapped _)

/-- Two overlapping ranges, the higher one first: the second call stops at its
second page. -/
def overlappingCalls : List (PhysAddr × Nat) :=
  [(⟨0x2000, by decide⟩, 0x1000), (⟨0x1000, by decide⟩, 0x4000)]

theorem overlappingCalls_leave_gap :
    ∃ final, (mapAllPhys overlappingCalls).run freshWindow = .ok () final ∧
      ¬ Covered final.table overlappingCalls := by
  have region := freshWindow_region fun _ => True
  have firstServes :
      Serves (fun _ => True) (⟨0x2000, by decide⟩, 0x1000) :=
    ⟨by decide, by decide, fun _ _ => trivial⟩
  have secondServes :
      Serves (fun _ => True) (⟨0x1000, by decide⟩, 0x4000) :=
    ⟨by decide, by decide, fun _ _ => trivial⟩
  obtain ⟨firstAnswer, middle, firstCalled, middleRegion, firstMapped⟩ :=
    region.call firstServes
  obtain ⟨secondAnswer, final, secondCalled, _, secondMapped⟩ :=
    middleRegion.call secondServes
  refine ⟨final, ?_, ?_⟩
  · have first :
        (mapAllPhys [(⟨0x2000, by decide⟩, 0x1000)]).run freshWindow =
          .ok () middle :=
      forM_cons_run_ok.mpr
        ⟨middle, bind_run_ok.mpr ⟨firstAnswer, middle, firstCalled, rfl⟩,
          forM_nil_run_ok.mpr rfl⟩
    exact mapAllPhys_append_ok.mpr ⟨middle, secondAnswer, first, secondCalled⟩
  · intro covered
    have fourth : IdentityMapped final.table 4 :=
      covered (⟨0x1000, by decide⟩, 0x4000) (by simp [overlappingCalls]) 4
        ⟨0x4000, by decide, by decide, by decide⟩
    have second : IdentityMapped middle.table 2 :=
      (firstMapped 2 trivial).mpr
        (Or.inr ⟨by decide, by decide, fun _ _ _ => freshWindow_not_mapped _⟩)
    rcases (secondMapped 4 trivial).mp fourth with before | ⟨_, _, fresh⟩
    · rcases (firstMapped 4 trivial).mp before with earlier | ⟨_, upper, _⟩
      · exact freshWindow_not_mapped 4 earlier
      · exact absurd upper (by decide)
    · exact fresh 2 (by decide) (by decide) second

/-- Ranges that do not meet. -/
def separateCalls : List (PhysAddr × Nat) :=
  [(⟨0x5000, by decide⟩, 0x1800), (⟨0x1000, by decide⟩, 0x2800)]

theorem mapAllPhys_covers_iff_separate :
    (∃ final, (mapAllPhys separateCalls).run freshWindow = .ok () final) ∧
    ((∀ done rest middle, done ++ rest = separateCalls →
        (mapAllPhys done).run freshWindow = .ok () middle →
          Covered middle.table done) ↔
      ∀ done call rest middle, done ++ call :: rest = separateCalls →
        (mapAllPhys done).run freshWindow = .ok () middle →
          MappedAtEnd middle.table call) :=
  mapAllPhys_covers_iff (by decide) (by decide)
    (fun _ _ _ _ => freshWindow_unmapped _) freshWindow_supplied

end RustKernel.Kernel
