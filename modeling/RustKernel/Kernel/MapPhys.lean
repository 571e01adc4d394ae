import RustKernel.Kernel.MapVirt
import RustKernel.Paging.Reports

/-!
# Identity mappings of physical ranges

`map_phys` identity maps the frames from the one around the start of a range
to the one around its end, and stops at the first error.  `map_phys_table` runs
the same loop over a table that it is given, but maps the first frame in every
turn.
-/

namespace RustKernel.Kernel

open RustKernel.Foundations
open RustKernel.Machine
open RustKernel.Paging

/-! ## The functions -/

section Functions

variable {T : Type} [Mapper T]

/-- `Mapper::identity_map` on the active table. -/
def identityMap (frame : PhysFrame .size4KiB) :
    EStateM Panic (ConfigMachine T) (Except (MapToError .size4KiB) Unit) := do
  let virt ← MonadExcept.ofExcept (VirtAddr.new frame.startAddress)
  modifyGet fun state =>
    ((mapTo (Page.containingAddress virt) frame ⟨true, true, false⟩
        state.table state.allocator).result,
      state.mapped (Page.containingAddress virt) frame)

/-- The loop of both functions, over the frames that it maps. -/
def identityMapEach :
    List (PhysFrame .size4KiB) →
      EStateM Panic (ConfigMachine T) (Except (MapToError .size4KiB) Unit)
  | [] => return .ok ()
  | frame :: frames => do
      let answer ← identityMap frame
      match answer with
      | .ok _ => identityMapEach frames
      | .error reason => return .error reason

/-- `map_phys`. -/
def mapPhys (phys : PhysAddr) (size : Nat) :
    EStateM Panic (ConfigMachine T) (Except (MapToError .size4KiB) Unit) := do
  let sum ← MonadExcept.ofExcept (checkedAdd phys.value size)
  let physEnd ← MonadExcept.ofExcept (PhysAddr.new sum)
  identityMapEach
    (PhysFrame.rangeInclusive (PhysFrame.containingAddress phys)
      (PhysFrame.containingAddress physEnd))

/-- `map_phys_table`, given the active table. -/
def mapPhysTable (phys : PhysAddr) (size : Nat) :
    EStateM Panic (ConfigMachine T) (Except (MapToError .size4KiB) Unit) := do
  let sum ← MonadExcept.ofExcept (checkedAdd phys.value size)
  let physEnd ← MonadExcept.ofExcept (PhysAddr.new sum)
  identityMapEach
    ((PhysFrame.rangeInclusive (PhysFrame.containingAddress phys)
        (PhysFrame.containingAddress physEnd)).map
      fun (_ : PhysFrame .size4KiB) => PhysFrame.containingAddress phys)

end Functions

/-! ## One turn -/

section Turn

variable {T : Type} [Mapper T]
variable {frame : PhysFrame .size4KiB} {frames : List (PhysFrame .size4KiB)}
variable {state : ConfigMachine T}

/-- The call that a turn makes, from the state before it. -/
def identityCall (frame : PhysFrame .size4KiB) (state : ConfigMachine T) :
    MapOutcome T .size4KiB :=
  mapTo (⟨frame.number⟩ : Page .size4KiB) frame ⟨true, true, false⟩
    state.table state.allocator

/-- The state after a turn. -/
def ConfigMachine.identityMapped (frame : PhysFrame .size4KiB)
    (state : ConfigMachine T) : ConfigMachine T :=
  state.mapped (⟨frame.number⟩ : Page .size4KiB) frame

theorem identityMap_run (fits : frame.startAddress < 2 ^ 48)
    (state : ConfigMachine T) :
    (identityMap frame).run state =
      .ok (identityCall frame state).result (state.identityMapped frame) := by
  have created :
      VirtAddr.new frame.startAddress = .ok ⟨frame.startAddress, fits⟩ := by
    rw [VirtAddr.new, dif_pos fits]
  have page :
      (Page.containingAddress ⟨frame.startAddress, fits⟩ : Page .size4KiB) =
        ⟨frame.number⟩ := by
    simp only [Page.containingAddress, PhysFrame.startAddress,
      Nat.mul_div_cancel _ (PageSize.bytes_pos _)]
  rw [identityMap, created, bind_run_of_ok _ (ofExcept_run (.ok _) state),
    modifyGet_run, page]
  rfl

theorem identityMap_run_beyond (lower : 2 ^ 48 ≤ frame.startAddress)
    (upper : frame.startAddress < 2 ^ 52) (state : ConfigMachine T) :
    (identityMap frame).run state = .error .virtAddrInvalid state := by
  have refused :
      VirtAddr.new frame.startAddress = .error .virtAddrInvalid := by
    rw [VirtAddr.new, dif_neg (by omega), if_neg (by omega)]
  rw [identityMap, refused, bind_run, ofExcept_run]

theorem identityMapEach_cons_ok (fits : frame.startAddress < 2 ^ 48)
    (succeeded : (identityCall frame state).result = .ok ()) :
    (identityMapEach (frame :: frames)).run state =
      (identityMapEach frames).run (state.identityMapped frame) := by
  rw [identityMapEach, bind_run_of_ok _ (identityMap_run fits state),
    succeeded]

theorem identityMapEach_cons_error (fits : frame.startAddress < 2 ^ 48)
    {reason : MapToError .size4KiB}
    (failed : (identityCall frame state).result = .error reason) :
    (identityMapEach (frame :: frames)).run state =
      .ok (.error reason) (state.identityMapped frame) := by
  rw [identityMapEach, bind_run_of_ok _ (identityMap_run fits state), failed]
  rfl

theorem identityMapEach_cons_beyond (lower : 2 ^ 48 ≤ frame.startAddress)
    (upper : frame.startAddress < 2 ^ 52) :
    (identityMapEach (frame :: frames)).run state =
      .error .virtAddrInvalid state := by
  rw [identityMapEach, bind_run, identityMap_run_beyond lower upper]

end Turn

/-! ## The frames of a range -/

/-- The frames that `map_phys` goes through. -/
def framesOf (phys : PhysAddr) (size : Nat) : List (PhysFrame .size4KiB) :=
  PhysFrame.rangeInclusive ⟨phys.value / 4096⟩ ⟨(phys.value + size) / 4096⟩

theorem rangeInclusive_cons {size : PageSize} {first last : Nat}
    (ordered : first ≤ last) :
    PhysFrame.rangeInclusive (⟨first⟩ : PhysFrame size) ⟨last⟩ =
      ⟨first⟩ :: PhysFrame.rangeInclusive ⟨first + 1⟩ ⟨last⟩ := by
  have count : last + 1 - first = last + 1 - (first + 1) + 1 := by omega
  rw [PhysFrame.rangeInclusive, count, List.range'_succ, List.map_cons]
  rfl

theorem framesOf_eq_cons (phys : PhysAddr) (size : Nat) :
    framesOf phys size =
      ⟨phys.value / 4096⟩ ::
        PhysFrame.rangeInclusive ⟨phys.value / 4096 + 1⟩
          ⟨(phys.value + size) / 4096⟩ :=
  rangeInclusive_cons (Nat.div_le_div_right (Nat.le_add_right _ _))

theorem mem_framesOf {phys : PhysAddr} {size : Nat}
    {frame : PhysFrame .size4KiB} :
    frame ∈ framesOf phys size ↔
      phys.value / 4096 ≤ frame.number ∧
        frame.number ≤ (phys.value + size) / 4096 :=
  PhysFrame.mem_rangeInclusive

theorem startAddress_lt {address : Nat} (low : address < 2 ^ 48) :
    (⟨address / 4096⟩ : PhysFrame .size4KiB).startAddress < 2 ^ 48 := by
  simp only [PhysFrame.startAddress, PageSize.bytes]
  omega

section Calls

variable {T : Type} [Mapper T] {phys : PhysAddr} {size : Nat}

theorem mapPhys_run (fits : phys.value + size < 2 ^ 52)
    (state : ConfigMachine T) :
    (mapPhys phys size).run state =
      (identityMapEach (framesOf phys size)).run state := by
  have summed : checkedAdd phys.value size = .ok (phys.value + size) := by
    rw [checkedAdd_eq_ok, wordSize]
    omega
  have created :
      PhysAddr.new (phys.value + size) = .ok ⟨phys.value + size, fits⟩ :=
    PhysAddr.new_eq_ok.mpr rfl
  rw [mapPhys, summed, bind_run_of_ok _ (ofExcept_run (.ok _) state), created,
    bind_run_of_ok _ (ofExcept_run (.ok _) state)]
  rfl

theorem mapPhysTable_run (fits : phys.value + size < 2 ^ 52)
    (state : ConfigMachine T) :
    (mapPhysTable phys size).run state =
      (identityMapEach
        ((framesOf phys size).map fun _ => ⟨phys.value / 4096⟩)).run
          state := by
  have summed : checkedAdd phys.value size = .ok (phys.value + size) := by
    rw [checkedAdd_eq_ok, wordSize]
    omega
  have created :
      PhysAddr.new (phys.value + size) = .ok ⟨phys.value + size, fits⟩ :=
    PhysAddr.new_eq_ok.mpr rfl
  rw [mapPhysTable, summed, bind_run_of_ok _ (ofExcept_run (.ok _) state),
    created, bind_run_of_ok _ (ofExcept_run (.ok _) state)]
  rfl

/-- Without an end, both functions panic alike. -/
theorem mapPhysTable_run_of_noEnd (beyond : 2 ^ 52 ≤ phys.value + size)
    (state : ConfigMachine T) :
    (mapPhysTable phys size).run state = (mapPhys phys size).run state := by
  have refused : PhysAddr.new (phys.value + size) = .error .physAddrInvalid := by
    rw [PhysAddr.new, dif_neg (by omega)]
  cases summed : checkedAdd phys.value size with
  | error fault =>
      rw [mapPhys, mapPhysTable, summed, bind_run, bind_run, ofExcept_run]
  | ok sum =>
      rw [checkedAdd_eq_ok] at summed
      have sumEq := summed.2
      rw [mapPhys, mapPhysTable, checkedAdd_eq_ok.mpr summed,
        bind_run_of_ok _ (ofExcept_run (.ok _) state),
        bind_run_of_ok _ (ofExcept_run (.ok _) state), sumEq, refused,
        bind_run, bind_run, ofExcept_run]

end Calls

/-! ## The pages of a range -/

/-- A frame and the page with the same address. -/
def identityPair (frame : PhysFrame .size4KiB) :
    PhysFrame .size4KiB × Page .size4KiB :=
  (frame, ⟨frame.number⟩)

section Pages

variable {T : Type} [Mapper T] {frames : List (PhysFrame .size4KiB)}
variable {state final : ConfigMachine T}

/-- Below the end of the virtual addresses, the loop maps pairs as `map_virt`
does. -/
theorem identityMapEach_run_eq
    (fits : ∀ frame ∈ frames, frame.startAddress < 2 ^ 48)
    (state : ConfigMachine T) :
    (identityMapEach frames).run state =
      (mapPairs (frames.map identityPair)).run state := by
  induction frames generalizing state with
  | nil => rfl
  | cons frame frames inductionHypothesis =>
      have next :=
        inductionHypothesis
          (fun later member => fits later (List.mem_cons_of_mem frame member))
          (state.identityMapped frame)
      rw [identityMapEach,
        bind_run_of_ok _
          (identityMap_run (fits frame List.mem_cons_self) state),
        List.map_cons, identityPair, mapPairs, bind_run, modifyGet_run]
      cases answer : (identityCall frame state).result with
      | ok value =>
          simp only [identityCall] at answer
          simp only [answer]
          exact next
      | error reason =>
          simp only [identityCall] at answer
          simp only [answer]
          rfl

/-- A loop that ends well has not met the end of the virtual addresses. -/
theorem identityMapEach_fits
    (bounded : ∀ frame ∈ frames, frame.startAddress < 2 ^ 52)
    (returned : (identityMapEach frames).run state = .ok (.ok ()) final) :
    ∀ frame ∈ frames, frame.startAddress < 2 ^ 48 := by
  induction frames generalizing state with
  | nil => simp
  | cons frame frames inductionHypothesis =>
      have firstBounded := bounded frame List.mem_cons_self
      have fits : frame.startAddress < 2 ^ 48 := by
        by_contra beyond
        rw [identityMapEach_cons_beyond (by omega) firstBounded] at returned
        cases returned
      cases answer : (identityCall frame state).result with
      | error reason =>
          rw [identityMapEach_cons_error fits answer] at returned
          cases returned
      | ok value =>
          rw [identityMapEach_cons_ok fits answer] at returned
          have rest :=
            inductionHypothesis
              (fun later member =>
                bounded later (List.mem_cons_of_mem frame member))
              returned
          intro other member
          rcases List.mem_cons.mp member with rfl | later
          · exact fits
          · exact rest other later

end Pages

/-! ## Agreement of the two functions -/

/-- What a caller sees of a run: its result or panic, and the mappings. -/
structure SameOutcome {T : Type} [Mapper T] {α : Type}
    (left right : EStateM.Result Panic (ConfigMachine T) α) : Prop where
  answer : answerOf left = answerOf right
  mappings :
    ∀ size (page : Page size),
      entry (finalState left).table size page =
        entry (finalState right).table size page

section Agreement

variable {T : Type} [Mapper T] [ReportingMapper T]
variable {phys : PhysAddr} {size : Nat}

omit [ReportingMapper T] in
/-- The call behind an answer. -/
theorem identityMap_run_ok {frame : PhysFrame .size4KiB}
    {state final : ConfigMachine T} {answer : Except (MapToError .size4KiB) Unit}
    (returned : (identityMap frame).run state = .ok answer final) :
    ∃ page : Page .size4KiB,
      (mapTo page frame ⟨true, true, false⟩ state.table
        state.allocator).result = answer := by
  rw [identityMap, bind_run_ok] at returned
  obtain ⟨virt, _, created, mapped⟩ := returned
  rw [ofExcept_run_ok] at created
  obtain ⟨_, rfl⟩ := created
  rw [modifyGet_run] at mapped
  cases mapped
  exact ⟨_, rfl⟩

/-- An error about a mapped page names a frame of the loop. -/
theorem identityMapEach_reports {frames : List (PhysFrame .size4KiB)}
    {state final : ConfigMachine T} {taken : PhysFrame .size4KiB}
    (stopped :
      (identityMapEach frames).run state =
        .ok (.error (.pageAlreadyMapped taken)) final) :
    taken ∈ frames := by
  induction frames generalizing state with
  | nil => cases stopped
  | cons frame frames inductionHypothesis =>
      rw [identityMapEach, bind_run_ok] at stopped
      obtain ⟨answer, middle, called, looped⟩ := stopped
      cases answer with
      | ok value => exact List.mem_cons_of_mem frame (inductionHypothesis looped)
      | error reason =>
          obtain ⟨page, failed⟩ := identityMap_run_ok called
          cases looped
          rw [reported_frame rfl failed]
          exact List.mem_cons_self

/-- The page of the first frame is identity mapped afresh by its turn. -/
def FirstMaps (phys : PhysAddr) (state : ConfigMachine T) : Prop :=
  phys.value < 2 ^ 48 ∧
    CanMap (⟨phys.value / 4096⟩ : Page .size4KiB) ⟨phys.value / 4096⟩
      ⟨true, true, false⟩ state.table state.allocator

/-- Behind the first turn, `map_phys_table` finds the page that it has just
mapped. -/
theorem mapPhysTable_second_turn (fits : phys.value + size < 2 ^ 52)
    (several : phys.value / 4096 < (phys.value + size) / 4096)
    {state : ConfigMachine T} (firstMaps : FirstMaps phys state) :
    answerOf ((mapPhysTable phys size).run state) =
      .ok (.error (.pageAlreadyMapped ⟨phys.value / 4096⟩)) := by
  have firstFits :
      (⟨phys.value / 4096⟩ : PhysFrame .size4KiB).startAddress < 2 ^ 48 :=
    startAddress_lt firstMaps.1
  have succeeded :
      (identityCall (⟨phys.value / 4096⟩ : PhysFrame .size4KiB) state).result =
        .ok () :=
    (mapTo_eq_ok_iff rfl).mpr firstMaps.2
  have effect :=
    mapped_effect (⟨phys.value / 4096⟩ : Page .size4KiB)
      ⟨phys.value / 4096⟩ state
  have reported :
      (identityCall (⟨phys.value / 4096⟩ : PhysFrame .size4KiB)
          (state.identityMapped ⟨phys.value / 4096⟩)).result =
        .error (.pageAlreadyMapped ⟨phys.value / 4096⟩) := by
    apply ReportingMapper.used_reported
    intro unused
    have contradiction := (effect.mapped succeeded).2.symm.trans unused
    cases contradiction
  rw [mapPhysTable_run fits, framesOf_eq_cons, rangeInclusive_cons several,
    List.map_cons, List.map_cons, identityMapEach_cons_ok firstFits succeeded,
    identityMapEach_cons_error firstFits reported]
  rfl

/-- `map_phys` goes on to other frames and does not report the first one. -/
theorem not_sameOutcome (fits : phys.value + size < 2 ^ 52)
    (several : phys.value / 4096 < (phys.value + size) / 4096)
    {state : ConfigMachine T} (firstMaps : FirstMaps phys state) :
    ¬ SameOutcome ((mapPhysTable phys size).run state)
      ((mapPhys phys size).run state) := by
  intro same
  have answers := same.answer
  have firstFits :
      (⟨phys.value / 4096⟩ : PhysFrame .size4KiB).startAddress < 2 ^ 48 :=
    startAddress_lt firstMaps.1
  have succeeded :
      (identityCall (⟨phys.value / 4096⟩ : PhysFrame .size4KiB) state).result =
        .ok () :=
    (mapTo_eq_ok_iff rfl).mpr firstMaps.2
  rw [mapPhysTable_second_turn fits several firstMaps, mapPhys_run fits,
    framesOf_eq_cons, identityMapEach_cons_ok firstFits succeeded] at answers
  cases looped :
      (identityMapEach
        (PhysFrame.rangeInclusive ⟨phys.value / 4096 + 1⟩
          ⟨(phys.value + size) / 4096⟩)).run
        (state.identityMapped ⟨phys.value / 4096⟩) with
  | error fault final =>
      rw [looped] at answers
      cases answers
  | ok answer final =>
      rw [looped] at answers
      cases answers
      have member := identityMapEach_reports looped
      rw [PhysFrame.mem_rangeInclusive] at member
      simp only at member
      omega

theorem mapPhysTable_run_eq {state : ConfigMachine T}
    (excused :
      phys.value / 4096 = (phys.value + size) / 4096 ∨
        2 ^ 52 ≤ phys.value + size ∨ ¬ FirstMaps phys state) :
    (mapPhysTable phys size).run state = (mapPhys phys size).run state := by
  by_cases beyond : 2 ^ 52 ≤ phys.value + size
  · exact mapPhysTable_run_of_noEnd beyond state
  · have fits : phys.value + size < 2 ^ 52 := by omega
    have inRange := phys.inRange
    rw [mapPhysTable_run fits, mapPhys_run fits, framesOf_eq_cons,
      List.map_cons]
    rcases excused with single | noEnd | notFirst
    · rw [← single]
      simp [PhysFrame.rangeInclusive]
    · exact absurd noEnd beyond
    · by_cases low : phys.value < 2 ^ 48
      · have firstFits := startAddress_lt low
        cases answer :
            (identityCall (⟨phys.value / 4096⟩ : PhysFrame .size4KiB)
              state).result with
        | ok value =>
            exact absurd ⟨low, (mapTo_eq_ok_iff rfl).mp answer⟩ notFirst
        | error reason =>
            rw [identityMapEach_cons_error firstFits answer,
              identityMapEach_cons_error firstFits answer]
      · have lower :
            2 ^ 48 ≤
              (⟨phys.value / 4096⟩ : PhysFrame .size4KiB).startAddress := by
          simp only [PhysFrame.startAddress, PageSize.bytes]
          omega
        have upper :
            (⟨phys.value / 4096⟩ : PhysFrame .size4KiB).startAddress <
              2 ^ 52 := by
          simp only [PhysFrame.startAddress, PageSize.bytes]
          omega
        rw [identityMapEach_cons_beyond lower upper,
          identityMapEach_cons_beyond lower upper]

/-- The functions agree exactly when the range lies in one frame, has no end
or begins with a frame that cannot be mapped. -/
theorem mapPhysTable_agrees_iff (phys : PhysAddr) (size : Nat)
    (state : ConfigMachine T) :
    SameOutcome ((mapPhysTable phys size).run state)
        ((mapPhys phys size).run state) ↔
      phys.value / 4096 = (phys.value + size) / 4096 ∨
        2 ^ 52 ≤ phys.value + size ∨ ¬ FirstMaps phys state := by
  constructor
  · intro same
    by_contra disagrees
    have firstMaps : FirstMaps phys state := by
      by_contra notFirst
      exact disagrees (Or.inr (Or.inr notFirst))
    have ordered : phys.value / 4096 ≤ (phys.value + size) / 4096 :=
      Nat.div_le_div_right (Nat.le_add_right _ _)
    exact not_sameOutcome (by omega) (by omega) firstMaps same
  · intro excused
    rw [mapPhysTable_run_eq excused]
    exact ⟨rfl, fun _ _ => rfl⟩

end Agreement

theorem mapPhysTable_agrees_within_frame :
    SameOutcome ((mapPhysTable ⟨0xFEC00000, by decide⟩ 32).run freshWindow)
      ((mapPhys ⟨0xFEC00000, by decide⟩ 32).run freshWindow) :=
  (mapPhysTable_agrees_iff ⟨0xFEC00000, by decide⟩ 32 freshWindow).mpr
    (Or.inl (by decide))

theorem freshWindow_firstMaps {phys : PhysAddr}
    (low : phys.value < 2 ^ 48) : FirstMaps phys freshWindow :=
  ⟨low, unmapped_of_empty (RadixTable.new_empty _) _,
    Supplied.not_out fun index _ => by simp [freshWindow]⟩

/-- A range over two pages. -/
theorem mapPhysTable_disagrees_two_pages :
    ¬ SameOutcome
      ((mapPhysTable ⟨0xFEC00000, by decide⟩ 4096).run freshWindow)
      ((mapPhys ⟨0xFEC00000, by decide⟩ 4096).run freshWindow) :=
  not_sameOutcome (by decide) (by decide) (freshWindow_firstMaps (by decide))

end RustKernel.Kernel
