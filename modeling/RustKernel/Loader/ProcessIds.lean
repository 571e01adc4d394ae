import Mathlib.Logic.Relation
import RustKernel.Loader.Isolation

/-!
# Process ids

Both loaders end with a load of `IDINDEX` and a store to it.  The two are
separate steps, so the steps of calls that overlap may come in any order.  The
value that is stored is the value that was loaded, and so no order of steps
ever changes the counter.
-/

namespace RustKernel.Loader

open RustKernel.Foundations
open RustKernel.Machine
open RustKernel.Memory
open RustKernel.Paging

/-- A call of one of the two constructors of `Process`. -/
inductive Construction where
  | kernelFromElf (descriptors : List MemoryDescriptor) (elf : ElfFile)
      (kernelStackStart kernelStackEnd mem : Nat)
  | fromElf (elf kernel : ElfFile) (kernelStackStart kernelStackEnd mem : Nat)

namespace Construction

variable {T C : Type} [Mapper T] [Mapper C]

def program : Construction → EStateM Panic (Machine T C) (Process T)
  | .kernelFromElf descriptors elf kernelStackStart kernelStackEnd mem =>
      Loader.kernelFromElf descriptors elf kernelStackStart kernelStackEnd mem
  | .fromElf elf kernel kernelStackStart kernelStackEnd mem =>
      Loader.fromElf elf kernel kernelStackStart kernelStackEnd mem

/-- What the constructor does before it loads `IDINDEX`. -/
def build : Construction → EStateM Panic (Machine T C) Header
  | .kernelFromElf descriptors elf kernelStackStart kernelStackEnd mem => do
      kernelSetup descriptors kernelStackStart kernelStackEnd mem
      let header ← MonadExcept.ofExcept elf.header
      loadSegments elf ignoreAnswer
      return header
  | .fromElf elf kernel kernelStackStart kernelStackEnd mem => do
      userSetup kernelStackStart kernelStackEnd mem
      let _ ← MonadExcept.ofExcept kernel.header
      mapKernel kernel
      let header ← MonadExcept.ofExcept elf.header
      loadSegments elf tolerateMapped
      return header

theorem program_eq (call : Construction) :
    (call.program : EStateM Panic (Machine T C) (Process T)) =
      call.build >>= makeProcess := by
  cases call with
  | kernelFromElf descriptors elf kernelStackStart kernelStackEnd mem =>
      simp only [program, build, kernelFromElf_eq, bind_assoc, pure_bind]
  | fromElf elf kernel kernelStackStart kernelStackEnd mem =>
      simp only [program, build, fromElf_eq, bind_assoc, pure_bind]

end Construction

/-! ## Calls that share the counter -/

/-- `IDINDEX`, the processes of calls between their load and their store, and
the processes that have been returned. -/
structure IdState (T : Type) where
  idIndex : Nat
  loaded : List (Process T)
  returned : List (Process T)

/-- One access to `IDINDEX`, by any call. -/
inductive IdStep {T : Type} (C : Type) [Mapper T] [Mapper C] :
    IdState T → IdState T → Prop
  | load (state : IdState T) (call : Construction)
      (machine built : Machine T C) (header : Header) :
      call.build.run machine = .ok header built →
      IdStep C state
        { state with
          loaded :=
            ⟨state.idIndex, built.table, processStackAddress,
              header.entry⟩ :: state.loaded }
  | store (state : IdState T) (earlier later : List (Process T))
      (process : Process T) :
      state.loaded = earlier ++ process :: later →
      IdStep C state
        ⟨process.id, earlier ++ later, process :: state.returned⟩

section Runs

variable {T C : Type} [Mapper T] [Mapper C]

/-- The counter is left alone. -/
def SameIdIndex (before after : Machine T C) : Prop :=
  after.idIndex = before.idIndex

instance : LoaderRelation (SameIdIndex (T := T) (C := C)) where
  refl := fun _ => rfl
  trans := fun begun ended => Eq.trans ended begun
  drawFrame := fun _ => rfl
  mapped := fun _ _ _ _ _ => rfl
  identityMapped := fun _ _ => rfl

theorem sameIdIndex_loadSegments (elf : ElfFile) (afterMap : AfterMap) :
    Preserves (SameIdIndex (T := T) (C := C)) (loadSegments elf afterMap) := by
  apply preserves_loadSegments
  intro header _ data fileSize page _ _
  apply preserves_copyPage
  intro frame bytes _ state
  rfl

theorem Construction.build_keeps_idIndex (call : Construction) :
    Preserves (SameIdIndex (T := T) (C := C)) call.build := by
  cases call with
  | kernelFromElf descriptors elf kernelStackStart kernelStackEnd mem =>
      refine Preserves.bind (preserves_kernelSetup _ _ _ _) ?_
      intro _
      apply Preserves.ofExcept_bind
      intro header _
      refine Preserves.bind (sameIdIndex_loadSegments _ _) ?_
      intro _
      exact Preserves.pure header
  | fromElf elf kernel kernelStackStart kernelStackEnd mem =>
      refine Preserves.bind (preserves_userSetup _ _ _) ?_
      intro _
      apply Preserves.ofExcept_bind
      intro _ _
      refine Preserves.bind (preserves_mapKernel kernel) ?_
      intro _
      apply Preserves.ofExcept_bind
      intro header _
      refine Preserves.bind (sameIdIndex_loadSegments _ _) ?_
      intro _
      exact Preserves.pure header

/-- A call that returns is a load followed by a store. -/
theorem Construction.steps_of_run_ok (call : Construction)
    {machine final : Machine T C} {process : Process T} {state : IdState T}
    (shared : machine.idIndex = state.idIndex)
    (returned : call.program.run machine = .ok process final) :
    Relation.ReflTransGen (IdStep C) state
      ⟨final.idIndex, state.loaded, process :: state.returned⟩ := by
  rw [call.program_eq, bind_run_ok] at returned
  obtain ⟨header, built, begun, ended⟩ := returned
  have kept : built.idIndex = machine.idIndex :=
    call.build_keeps_idIndex.of_run_ok begun
  rw [makeProcess_run, EStateM.Result.ok.injEq] at ended
  obtain ⟨rfl, rfl⟩ := ended
  have loading := IdStep.load state call machine built header begun
  rw [← shared, ← kept] at loading
  apply Relation.ReflTransGen.tail (.single loading)
  exact IdStep.store
    { state with
      idIndex := built.idIndex
      loaded :=
        ⟨built.idIndex, built.table, processStackAddress, header.entry⟩ ::
          state.loaded }
    [] state.loaded _ rfl

/-- Every id is the first value of the counter. -/
structure OneId (first : Nat) (state : IdState T) : Prop where
  counter : state.idIndex = first
  loaded : ∀ process ∈ state.loaded, process.id = first
  returned : ∀ process ∈ state.returned, process.id = first

theorem OneId.step {first : Nat} {state next : IdState T}
    (oneId : OneId first state) (step : IdStep C state next) :
    OneId first next := by
  cases step with
  | load call machine built header _ =>
      exact
        { counter := oneId.counter
          loaded := List.forall_mem_cons.mpr ⟨oneId.counter, oneId.loaded⟩
          returned := oneId.returned }
  | store earlier later process split =>
      have loaded := oneId.loaded
      rw [split, List.forall_mem_append, List.forall_mem_cons] at loaded
      exact
        { counter := loaded.2.1
          loaded := List.forall_mem_append.mpr ⟨loaded.1, loaded.2.2⟩
          returned := List.forall_mem_cons.mpr ⟨loaded.2.1, oneId.returned⟩ }

theorem OneId.run {first : Nat} {state final : IdState T}
    (oneId : OneId first state)
    (run : Relation.ReflTransGen (IdStep C) state final) :
    OneId first final := by
  induction run with
  | refl => exact oneId
  | tail _ step inductionHypothesis => exact inductionHypothesis.step step

/-- In every order of the steps of any calls, the returned ids are different
exactly when no more than one call has returned. -/
theorem ids_distinct_iff {first : Nat} {final : IdState T}
    (run : Relation.ReflTransGen (IdStep C) ⟨first, [], []⟩ final) :
    final.returned.Pairwise (fun left right => left.id ≠ right.id) ↔
      final.returned.length ≤ 1 := by
  have oneId : OneId first final :=
    OneId.run ⟨rfl, by simp, by simp⟩ run
  have ids := oneId.returned
  cases listed : final.returned with
  | nil => simp
  | cons newest earlier =>
      cases earlier with
      | nil => simp
      | cons older oldest =>
          rw [listed] at ids
          simp [ids newest (by simp), ids older (by simp)]

end Runs

/-! ## A kernel and a program -/

def kernelCall : Construction :=
  .kernelFromElf bootDescriptors residentElf 0x200000 0x200000 0

def guestCall : Construction :=
  .fromElf guestElf residentElf 0x200000 0x200000 0

theorem kernel_then_guest :
    ∃ kernel guest booted final,
      kernelCall.program.run bootMachine = .ok kernel booted ∧
        guestCall.program.run (bootedMachine residentSpace) =
          .ok guest final ∧
        OneId 0 ⟨final.idIndex, [], [guest, kernel]⟩ ∧
        Relation.ReflTransGen (IdStep RadixTable) ⟨0, [], []⟩
          ⟨final.idIndex, [], [guest, kernel]⟩ := by
  obtain ⟨kernel, booted, kernelReturned⟩ :=
    kernelFromElf_returns_boot (loadable_layOut residentTable)
  obtain ⟨guest, final, copied⟩ := fromElf_returns_guest
  obtain ⟨guestReturned, _⟩ :=
    (refines_fromElf residentElf 0x200000 0x200000 0
      guestElf_fits).of_run_ok
      (clear_start bootedMachine_fresh bootedMachine_ready) copied
  have first :
      Relation.ReflTransGen (IdStep RadixTable) ⟨0, [], []⟩
        ⟨booted.idIndex, [], [kernel]⟩ :=
    kernelCall.steps_of_run_ok rfl kernelReturned
  have oneId : OneId 0 ⟨booted.idIndex, [], [kernel]⟩ :=
    OneId.run ⟨rfl, by simp, by simp⟩ first
  have second :
      Relation.ReflTransGen (IdStep RadixTable) ⟨0, [], []⟩
        ⟨final.idIndex, [], [guest, kernel]⟩ :=
    first.trans
      (guestCall.steps_of_run_ok oneId.counter.symm guestReturned)
  exact ⟨kernel, guest, booted, final, kernelReturned, guestReturned,
    OneId.run ⟨rfl, by simp, by simp⟩ second, second⟩

/-- Two calls return, so the ids are not distinct. -/
theorem ids_distinct_iff_kernel :
    ∃ kernel guest booted final,
      kernelCall.program.run bootMachine = .ok kernel booted ∧
        guestCall.program.run (bootedMachine residentSpace) =
          .ok guest final ∧
        (([guest, kernel] : List (Process RadixTable)).Pairwise
            (fun left right => left.id ≠ right.id) ↔
          [guest, kernel].length ≤ 1) := by
  obtain ⟨kernel, guest, booted, final, kernelReturned, guestReturned, _,
    run⟩ := kernel_then_guest
  exact ⟨kernel, guest, booted, final, kernelReturned, guestReturned,
    ids_distinct_iff run⟩

/-- The program is loaded after the kernel and gets the same id. -/
theorem guest_shares_id :
    ∃ kernel guest booted final,
      kernelCall.program.run bootMachine = .ok kernel booted ∧
        guestCall.program.run (bootedMachine residentSpace) =
          .ok guest final ∧
        Relation.ReflTransGen (IdStep RadixTable) ⟨0, [], []⟩
          ⟨final.idIndex, [], [guest, kernel]⟩ ∧
        ¬ [guest, kernel].Pairwise fun left right => left.id ≠ right.id := by
  obtain ⟨kernel, guest, booted, final, kernelReturned, guestReturned, shared,
    run⟩ := kernel_then_guest
  refine ⟨kernel, guest, booted, final, kernelReturned, guestReturned, run,
    ?_⟩
  intro distinct
  rw [List.pairwise_pair] at distinct
  apply distinct
  rw [shared.returned guest (by simp), shared.returned kernel (by simp)]

end RustKernel.Loader
