import RustKernel.Kernel.AddressSpaces
import RustKernel.Kernel.BootWindow
import RustKernel.Kernel.HeapInit
import RustKernel.Kernel.MapPhys

/-!
# The functions that change the active table

`map_virt`, `map_phys`, `map_phys_table`, `init_heap_new` and the mapping of
the boot image draw frames and call `map_to` on the active table, and do
nothing else to it.  Each of them is a run of the steps between which the
address spaces stay isolated.
-/

namespace RustKernel.Kernel

open RustKernel.Foundations
open RustKernel.Machine
open RustKernel.Paging
open RustKernel.Loader

/-- One use of the active table or of the allocator. -/
inductive ActiveStep {C : Type} [Mapper C] :
    C × FrameAllocator → C × FrameAllocator → Prop
  | draw (table : C) (allocator : FrameAllocator) :
      ActiveStep (table, allocator) (table, allocator.allocateFrame.2)
  | map (table : C) (allocator : FrameAllocator) {size : PageSize}
      (page : Page size) (frame : PhysFrame size) (flags : PageTableFlags) :
      flags.present = true →
      ActiveStep (table, allocator)
        ((mapTo page frame flags table allocator).table,
          (mapTo page frame flags table allocator).allocator)

section Programs

variable {C : Type} [Mapper C]

/-- The second state is reached by uses of the table and the allocator. -/
def ConfigMachine.Uses (before after : ConfigMachine C) : Prop :=
  Relation.ReflTransGen ActiveStep (before.table, before.allocator)
    (after.table, after.allocator)

def HeapMachine.Uses (before after : HeapMachine C) : Prop :=
  Relation.ReflTransGen ActiveStep (before.table, before.allocator)
    (after.table, after.allocator)

instance : RunRelation (ConfigMachine.Uses (C := C)) where
  refl := fun _ => .refl
  trans := fun earlier later => earlier.trans later

instance : RunRelation (HeapMachine.Uses (C := C)) where
  refl := fun _ => .refl
  trans := fun earlier later => earlier.trans later

theorem uses_mapped {size : PageSize} (page : Page size)
    (frame : PhysFrame size) (state : ConfigMachine C) :
    ConfigMachine.Uses state (state.mapped page frame) :=
  .single (ActiveStep.map state.table state.allocator page frame
    ⟨true, true, false⟩ rfl)

theorem uses_mapPairs {size : PageSize}
    (pairs : List (PhysFrame size × Page size)) :
    Preserves (ConfigMachine.Uses (C := C)) (mapPairs pairs) := by
  induction pairs with
  | nil => exact Preserves.pure _
  | cons pair pairs inductionHypothesis =>
      obtain ⟨frame, page⟩ := pair
      refine Preserves.bind (fun state => uses_mapped page frame state) ?_
      intro answer
      cases answer with
      | ok value => exact inductionHypothesis
      | error reason => exact Preserves.pure _

theorem uses_mapVirt (size : PageSize) (phys : PhysAddr) (virt : VirtAddr)
    (length : Nat) :
    Preserves (ConfigMachine.Uses (C := C)) (mapVirt size phys virt length) :=
  Preserves.ofExcept_bind fun _ _ => Preserves.ofExcept_bind fun _ _ =>
    Preserves.ofExcept_bind fun _ _ => Preserves.ofExcept_bind fun _ _ =>
      uses_mapPairs _

theorem uses_identityMapEach (frames : List (PhysFrame .size4KiB)) :
    Preserves (ConfigMachine.Uses (C := C)) (identityMapEach frames) := by
  induction frames with
  | nil => exact Preserves.pure _
  | cons frame frames inductionHypothesis =>
      refine Preserves.bind ?_ ?_
      · exact Preserves.ofExcept_bind fun virt _ state =>
          uses_mapped (Page.containingAddress virt) frame state
      · intro answer
        cases answer with
        | ok value => exact inductionHypothesis
        | error reason => exact Preserves.pure _

theorem uses_mapPhys (phys : PhysAddr) (size : Nat) :
    Preserves (ConfigMachine.Uses (C := C)) (mapPhys phys size) :=
  Preserves.ofExcept_bind fun _ _ => Preserves.ofExcept_bind fun _ _ =>
    uses_identityMapEach _

theorem uses_mapPhysTable (phys : PhysAddr) (size : Nat) :
    Preserves (ConfigMachine.Uses (C := C)) (mapPhysTable phys size) :=
  Preserves.ofExcept_bind fun _ _ => Preserves.ofExcept_bind fun _ _ =>
    uses_identityMapEach _

theorem uses_mapBootImage (address length : Nat) :
    Preserves (ConfigMachine.Uses (C := C)) (mapBootImage address length) := by
  refine Preserves.ofExcept_bind fun phys _ => ?_
  refine Preserves.ofExcept_bind fun virt _ => ?_
  refine Preserves.bind (uses_mapVirt .size2MiB phys virt length) ?_
  intro answer
  refine Preserves.ofExcept_bind fun _ _ => ?_
  refine Preserves.ofExcept_bind fun _ _ => ?_
  refine Preserves.ofExcept_bind fun _ _ => ?_
  apply Preserves.forM
  intro frame _
  exact Preserves.ofExcept_bind fun _ _ => Preserves.ofExcept_bind fun _ _ =>
    Preserves.ofExcept_bind fun virt _ state =>
      uses_mapped (Page.containingAddress virt) frame state

theorem uses_mapHeapPages {flags : PageTableFlags}
    (present : flags.present = true) (pages : List (Page .size4KiB)) :
    Preserves (HeapMachine.Uses (C := C)) (mapHeapPages flags pages) := by
  induction pages with
  | nil => exact Preserves.pure _
  | cons page pages inductionHypothesis =>
      refine Preserves.bind (fun state => ?_) ?_
      · exact .single (ActiveStep.draw state.table state.allocator)
      · intro drawn
        cases drawn with
        | none => exact Preserves.pure _
        | some frame =>
            refine Preserves.bind (fun state => ?_) fun _ =>
              inductionHypothesis
            exact .single (ActiveStep.map state.table state.allocator page
              frame flags present)

theorem uses_initHeapNew (offset : Nat) (user : Bool) :
    Preserves (HeapMachine.Uses (C := C)) (initHeapNew offset user) := by
  refine Preserves.ofExcept_bind fun pages _ => ?_
  refine Preserves.bind (uses_mapHeapPages rfl pages) ?_
  intro answer
  cases answer with
  | error reason => exact Preserves.pure _
  | ok value =>
      refine Preserves.ofExcept_bind fun start _ => ?_
      exact Preserves.bind (fun _ => .refl) fun _ => Preserves.pure _

end Programs

/-! ## Runs of calls -/

section Calls

variable {T C : Type} [StoredMapper T] [StoredMapper C]
variable {kernel : ElfFile} {kept : Set (PhysFrame .size4KiB)}

/-- A use of the active table between two calls that make processes. -/
theorem spaceSteps_of_uses {spaces : AddressSpaces T C}
    {used : C × FrameAllocator}
    (uses :
      Relation.ReflTransGen ActiveStep (spaces.current, spaces.allocator)
        used) :
    ∃ next : AddressSpaces T C,
      Relation.ReflTransGen (SpaceStep kernel kept) spaces next ∧
        (next.current, next.allocator) = used ∧
        next.processes = spaces.processes ∧
        next.idIndex = spaces.idIndex := by
  induction uses with
  | refl => exact ⟨spaces, .refl, rfl, rfl, rfl⟩
  | tail _ step inductionHypothesis =>
      obtain ⟨middle, run, rfl, sameProcesses, sameIndex⟩ := inductionHypothesis
      cases step with
      | draw =>
          exact ⟨middle.drew, run.tail (.draw middle), rfl, sameProcesses,
            sameIndex⟩
      | map _ _ page frame flags present =>
          exact ⟨middle.mappedActive page frame flags,
            run.tail (.mapActive middle page frame flags present), rfl,
            sameProcesses, sameIndex⟩

/-- The kernel has called one of its functions on the active table and the
allocator; the functions that may stop early have returned, and the programs
that are loaded are copied to their frames.  What the functions write to the
tables is not looked at here. -/
inductive CallStep (kernel : ElfFile) (kept : Set (PhysFrame .size4KiB)) :
    AddressSpaces T C → AddressSpaces T C → Prop
  | allocateFrame (spaces : AddressSpaces T C) :
      CallStep kernel kept spaces spaces.drew
  | mapVirt (spaces : AddressSpaces T C) (size : PageSize) (phys : PhysAddr)
      (virt : VirtAddr) (length : Nat) (dereferenced : List Dereference)
      (answer : Except (MapToError size) Unit) (after : ConfigMachine C) :
      (mapVirt size phys virt length).run
          ⟨spaces.current, spaces.allocator, dereferenced⟩ =
        .ok answer after →
      CallStep kernel kept spaces
        { spaces with current := after.table, allocator := after.allocator }
  | mapPhys (spaces : AddressSpaces T C) (phys : PhysAddr) (size : Nat)
      (dereferenced : List Dereference)
      (answer : Except (MapToError .size4KiB) Unit)
      (after : ConfigMachine C) :
      (mapPhys phys size).run
          ⟨spaces.current, spaces.allocator, dereferenced⟩ =
        .ok answer after →
      CallStep kernel kept spaces
        { spaces with current := after.table, allocator := after.allocator }
  | mapPhysTable (spaces : AddressSpaces T C) (phys : PhysAddr) (size : Nat)
      (dereferenced : List Dereference)
      (answer : Except (MapToError .size4KiB) Unit)
      (after : ConfigMachine C) :
      (mapPhysTable phys size).run
          ⟨spaces.current, spaces.allocator, dereferenced⟩ =
        .ok answer after →
      CallStep kernel kept spaces
        { spaces with current := after.table, allocator := after.allocator }
  | mapBootImage (spaces : AddressSpaces T C) (address length : Nat)
      (dereferenced : List Dereference) (after : ConfigMachine C) :
      (mapBootImage address length).run
          ⟨spaces.current, spaces.allocator, dereferenced⟩ =
        .ok () after →
      CallStep kernel kept spaces
        { spaces with current := after.table, allocator := after.allocator }
  | initHeapNew (spaces : AddressSpaces T C) (offset : Nat) (user : Bool)
      (handed : Option (Nat × Nat))
      (answer : Except (MapToError .size4KiB) Unit) (after : HeapMachine C) :
      (initHeapNew offset user).run
          ⟨spaces.current, spaces.allocator, handed⟩ =
        .ok answer after →
      CallStep kernel kept spaces
        { spaces with current := after.table, allocator := after.allocator }
  | newKernelProcess (spaces : AddressSpaces T C) (elf : ElfFile)
      (kernelStackStart kernelStackEnd memSize : Nat) (newPageTable : T)
      (managed : ManagedProcess T) (final : Machine T C) :
      spaces.CopiesLand elf → Empty newPageTable →
      spaces.Boxed kept newPageTable →
      (newKernelProcess elf kernel kernelStackStart kernelStackEnd memSize).run
          (Machine.start newPageTable spaces.current spaces.allocator
            spaces.idIndex) = .ok managed final →
      CallStep kernel kept spaces (spaces.created managed final)

variable {initial spaces next final : AddressSpaces T C}

/-- The two states differ in the writes to memory only. -/
structure AddressSpaces.Agrees (left right : AddressSpaces T C) : Prop where
  current : left.current = right.current
  allocator : left.allocator = right.allocator
  idIndex : left.idIndex = right.idIndex
  processes : left.processes = right.processes

theorem AddressSpaces.Agrees.used (agrees : next.Agrees spaces)
    {table : C} {allocator : FrameAllocator}
    (uses :
      Relation.ReflTransGen ActiveStep (spaces.current, spaces.allocator)
        (table, allocator)) :
    ∃ reached : AddressSpaces T C,
      Relation.ReflTransGen (SpaceStep kernel kept) next reached ∧
        reached.Agrees
          { spaces with current := table, allocator := allocator } := by
  rw [← agrees.current, ← agrees.allocator] at uses
  obtain ⟨reached, run, same, processes, index⟩ := spaceSteps_of_uses uses
  cases same
  exact ⟨reached, run, rfl, rfl, index.trans agrees.idIndex,
    processes.trans agrees.processes⟩

/-- A call is a run of steps. -/
theorem CallStep.steps (step : CallStep kernel kept spaces next)
    {here : AddressSpaces T C} (agrees : here.Agrees spaces) :
    ∃ reached : AddressSpaces T C,
      Relation.ReflTransGen (SpaceStep kernel kept) here
          reached ∧
        reached.Agrees next := by
  cases step with
  | allocateFrame =>
      have drawn :
          SpaceStep kernel kept here here.drew :=
        .draw here
      refine ⟨here.drew, .single drawn, agrees.current, ?_, agrees.idIndex,
        agrees.processes⟩
      rw [AddressSpaces.drew, AddressSpaces.drew, agrees.allocator]
  | mapVirt size phys virt length _ _ after returned =>
      exact agrees.used
        ((uses_mapVirt size phys virt length).of_run_ok returned)
  | mapPhys phys size _ _ after returned =>
      exact agrees.used ((uses_mapPhys phys size).of_run_ok returned)
  | mapPhysTable phys size _ _ after returned =>
      exact agrees.used ((uses_mapPhysTable phys size).of_run_ok returned)
  | mapBootImage address length _ after returned =>
      exact agrees.used
        ((uses_mapBootImage address length).of_run_ok returned)
  | initHeapNew offset user _ _ after returned =>
      exact agrees.used ((uses_initHeapNew offset user).of_run_ok returned)
  | newKernelProcess elf _ _ _ newPageTable managed machine land empty boxed
      returned =>
      have tables : here.tables = spaces.tables := by
        rw [AddressSpaces.tables, agrees.processes, AddressSpaces.tables]
      have boxedHere : here.Boxed kept newPageTable := by
        rw [AddressSpaces.Boxed, agrees.allocator, agrees.current, tables]
        exact boxed
      have landHere : here.CopiesLand elf := by
        refine ⟨land.fits, ?_⟩
        rw [agrees.allocator, agrees.current]
        exact land.ready
      rw [← agrees.current, ← agrees.allocator, ← agrees.idIndex] at returned
      refine ⟨here.created managed machine, .single (.create here elf _ _ _ _
        managed machine landHere empty boxedHere returned), rfl, rfl, rfl, ?_⟩
      rw [AddressSpaces.created, AddressSpaces.created, agrees.processes]

/-- Runs of calls are runs of steps. -/
theorem callSteps_steps
    (run : Relation.ReflTransGen (CallStep kernel kept) initial final) :
    ∃ reached : AddressSpaces T C,
      Relation.ReflTransGen (SpaceStep kernel kept) initial
          reached ∧
        reached.Agrees final := by
  induction run with
  | refl => exact ⟨initial, .refl, rfl, rfl, rfl, rfl⟩
  | tail _ step inductionHypothesis =>
      obtain ⟨here, earlier, agrees⟩ := inductionHypothesis
      obtain ⟨reached, later, agrees⟩ := step.steps agrees
      exact ⟨reached, earlier.trans later, agrees⟩

theorem AddressSpaces.Isolated.of_agrees
    (isolated : spaces.Isolated kernel) (agrees : spaces.Agrees next) :
    next.Isolated kernel := by
  obtain ⟨current, allocator, index, processes, stores⟩ := spaces
  obtain ⟨rfl, rfl, rfl, rfl⟩ := agrees
  exact { isolated with }

/-- The address spaces of the processes are isolated after every sequence of
calls of the functions that share the active table and the allocator. -/
theorem kernelCalls_isolated [LawfulMapper T] [LawfulMapper C]
    [LawfulStoredMapper T] [LawfulStoredMapper C]
    (booted : initial.Booted kernel)
    (once : NeverTwice initial.allocator.answers)
    (run :
      Relation.ReflTransGen
        (CallStep kernel
          (AddressSpaces.residentFrames kernel initial.current))
        initial final) :
    final.Isolated kernel := by
  obtain ⟨reached, steps, agrees⟩ := callSteps_steps run
  exact ((booted.separate once).run steps).isolated.of_agrees agrees

end Calls

/-- Two processes of one program, each in a table whose box is a frame that
the kernel has drawn. -/
theorem kernelCalls_isolated_guests :
    ∃ (first second : ManagedProcess RadixTable)
        (final : AddressSpaces RadixTable RadixTable),
      final.processes = [first, second] ∧ final.Isolated residentElf := by
  have separate := guestSpaces_booted.separate guestSpaces_once
  obtain ⟨first, one, madeFirst, boxedFirst, landFirst, ready, toFirst⟩ :=
    guest_created separate guestSpaces_ready (by decide)
  obtain ⟨second, two, madeSecond, boxedSecond, landSecond, _⟩ :=
    guest_created (separate.run toFirst) ready (by decide)
  have begun :
      CallStep residentElf
        (AddressSpaces.residentFrames residentElf guestSpaces.current)
        guestSpaces guestSpaces.drew :=
    .allocateFrame guestSpaces
  have calls :=
    (((Relation.ReflTransGen.single begun).tail
      (.newKernelProcess _ _ _ _ _ _ first one landFirst
        (RadixTable.new_empty _) boxedFirst madeFirst)).tail
      (.allocateFrame _)).tail
      (.newKernelProcess _ _ _ _ _ _ second two landSecond
        (RadixTable.new_empty _) boxedSecond madeSecond)
  exact ⟨first, second, _, rfl,
    kernelCalls_isolated guestSpaces_booted guestSpaces_once calls⟩

end RustKernel.Kernel
