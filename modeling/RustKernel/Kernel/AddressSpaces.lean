import Mathlib.Logic.Relation
import RustKernel.Kernel.ProcessManager
import RustKernel.Loader.FrameBudget
import RustKernel.Loader.FrameOwners

/-!
# The address spaces of a running kernel

`new_kernel_process` is called with the active table and with the one frame
allocator, which the rest of the kernel uses as well.  What is proved here
holds in every order of those uses: user code of a process reaches frames that
no other process reaches, that no table is stored in, and that the kernel is
not loaded in.
-/

namespace RustKernel.Kernel

open RustKernel.Foundations
open RustKernel.Machine
open RustKernel.Memory
open RustKernel.Paging
open RustKernel.Loader

/-- The processes, what is shared by the calls that make them, and the writes
to physical memory so far. -/
structure AddressSpaces (T C : Type) where
  current : C
  allocator : FrameAllocator
  idIndex : Nat
  processes : List (ManagedProcess T)
  stores : List (Store Origin)

section Functions

variable {T C : Type} [StoredMapper T] [StoredMapper C]

namespace AddressSpaces

def tables (spaces : AddressSpaces T C) : List T :=
  spaces.processes.map fun managed => managed.process.addressSpace

/-- The frames that the kernel is loaded in. -/
def residentFrames (kernel : ElfFile) (current : C) :
    Set (PhysFrame .size4KiB) :=
  {frame | ∃ page ∈ kernelPages kernel,
    translatePage current page = some frame}

def contents (spaces : AddressSpaces T C) (memory : Nat → UInt8) :
    Nat → UInt8 :=
  Store.applyAll memory spaces.stores

/-- A frame of the box that a new table is put in: it is in use for nothing
else. -/
def Boxed (kept : Set (PhysFrame .size4KiB)) (spaces : AddressSpaces T C)
    (newPageTable : T) : Prop :=
  ∀ frame ∈ tableFrames newPageTable,
    Unowned spaces.allocator.answers spaces.allocator.drawn
      (frameHoldings kept spaces.current spaces.tables) frame

/-- The kernel has asked for a frame. -/
def drew (spaces : AddressSpaces T C) : AddressSpaces T C :=
  { spaces with allocator := spaces.allocator.allocateFrame.2 }

/-- The kernel has called `map_to` on the active table. -/
def mappedActive {size : PageSize} (page : Page size)
    (frame : PhysFrame size) (flags : PageTableFlags)
    (spaces : AddressSpaces T C) : AddressSpaces T C :=
  let outcome := mapTo page frame flags spaces.current spaces.allocator
  { spaces with
    current := outcome.table
    allocator := outcome.allocator
    stores := spaces.stores ++ outcome.stores.map tableStore }

/-- `new_kernel_process` has returned. -/
def created (managed : ManagedProcess T) (final : Machine T C)
    (spaces : AddressSpaces T C) : AddressSpaces T C :=
  { current := final.current
    allocator := final.allocator
    idIndex := final.idIndex
    processes := spaces.processes ++ [managed]
    stores := spaces.stores ++ final.stores }

end AddressSpaces

/-- The copies of the program land in the frames that they are for: each ends
in its page, and the page at the address of a frame that the allocator still
gives is free in the active table, or maps the frame. -/
structure AddressSpaces.CopiesLand (spaces : AddressSpaces T C)
    (elf : ElfFile) : Prop where
  fits : ∀ header ∈ elf.loadHeaders, FitsFrame header
  ready :
    ∀ index frame, spaces.allocator.drawn ≤ index →
      spaces.allocator.answers index = some frame →
        IdentityReady spaces.current frame

/-- What the kernel does with the active table and the allocator.  It loads
programs whose copies land in their frames; other copies may go to any memory,
that of the page tables included. -/
inductive SpaceStep (kernel : ElfFile) (kept : Set (PhysFrame .size4KiB)) :
    AddressSpaces T C → AddressSpaces T C → Prop
  | draw (spaces : AddressSpaces T C) :
      SpaceStep kernel kept spaces spaces.drew
  | mapActive (spaces : AddressSpaces T C) {size : PageSize}
      (page : Page size) (frame : PhysFrame size) (flags : PageTableFlags) :
      flags.present = true →
      SpaceStep kernel kept spaces (spaces.mappedActive page frame flags)
  | create (spaces : AddressSpaces T C) (elf : ElfFile)
      (kernelStackStart kernelStackEnd memSize : Nat) (newPageTable : T)
      (managed : ManagedProcess T) (final : Machine T C) :
      spaces.CopiesLand elf → Empty newPageTable →
      spaces.Boxed kept newPageTable →
      (newKernelProcess elf kernel kernelStackStart kernelStackEnd memSize).run
          (Machine.start newPageTable spaces.current spaces.allocator
            spaces.idIndex) = .ok managed final →
      SpaceStep kernel kept spaces (spaces.created managed final)

end Functions

/-! ## What every step keeps -/

section Steps

variable {T C : Type} [StoredMapper T] [StoredMapper C]
variable {kernel : ElfFile} {kept : Set (PhysFrame .size4KiB)}
variable {spaces next : AddressSpaces T C}

/-- The address space of a process beside the kernel in it. -/
structure HousesKernel (kernel : ElfFile) (current : C) (table : T) :
    Prop where
  small :
    ∀ size (page : Page size) (frame : PhysFrame size),
      UserMapped table page frame → size = .size4KiB
  kernelMapped :
    ∀ page ∈ kernelPages kernel, ∃ frame,
      translatePage current page = some frame ∧
        entry table .size4KiB page = .leaf frame presentWritable

/-- The invariant of the address spaces. -/
structure AddressSpaces.Separate (kernel : ElfFile)
    (kept : Set (PhysFrame .size4KiB)) (spaces : AddressSpaces T C) :
    Prop where
  once : NeverTwice spaces.allocator.answers
  owned :
    Owned spaces.allocator.answers spaces.allocator.drawn
      (frameHoldings kept spaces.current spaces.tables)
  translated :
    ∀ page ∈ kernelPages kernel, ∃ frame ∈ kept,
      translatePage spaces.current page = some frame
  housed :
    ∀ table ∈ spaces.tables, HousesKernel kernel spaces.current table

theorem newKernelProcess_run_ok {elf : ElfFile}
    {kernelStackStart kernelStackEnd memSize : Nat}
    {state final : Machine T C} {managed : ManagedProcess T} :
    (newKernelProcess elf kernel kernelStackStart kernelStackEnd memSize).run
        state = .ok managed final ↔
      (throughActive.fromElf elf kernel kernelStackStart kernelStackEnd
            memSize).run state = .ok managed.process final ∧
        managed.state = .ready ∧ managed.flags = .kernel := by
  rw [newKernelProcess, bind_run_ok]
  constructor
  · rintro ⟨process, middle, returned, made⟩
    rw [pure_run_ok] at made
    obtain ⟨rfl, rfl⟩ := made
    exact ⟨returned, rfl, rfl⟩
  · obtain ⟨process, state, flags⟩ := managed
    rintro ⟨returned, rfl, rfl⟩
    exact ⟨process, final, returned, rfl⟩

omit [StoredMapper T] [StoredMapper C] in
theorem AddressSpaces.tables_created (managed : ManagedProcess T)
    (final : Machine T C) :
    (spaces.created managed final).tables =
      spaces.tables ++ [managed.process.addressSpace] := by
  simp [AddressSpaces.tables, AddressSpaces.created]

theorem HousesKernel.later {before after : C} {table : T}
    (houses : HousesKernel kernel before table)
    (translations :
      ∀ page frame, translatePage before page = some frame →
        translatePage after page = some frame) :
    HousesKernel kernel after table where
  small := houses.small
  kernelMapped := by
    intro page member
    obtain ⟨frame, translated, leaf⟩ := houses.kernelMapped page member
    exact ⟨frame, translations page frame translated, leaf⟩

theorem AddressSpaces.Separate.drew (separate : spaces.Separate kernel kept) :
    spaces.drew.Separate kernel kept where
  once := separate.once
  owned := separate.owned.later (Nat.le_succ _)
  translated := separate.translated
  housed := separate.housed

variable [LawfulMapper C]

theorem AddressSpaces.Separate.mappedActive
    (separate : spaces.Separate kernel kept) {size : PageSize}
    (page : Page size) (frame : PhysFrame size) {flags : PageTableFlags}
    (present : flags.present = true) :
    (spaces.mappedActive page frame flags).Separate kernel kept := by
  have effect :=
    LawfulMapper.mapTo_effect spaces.current spaces.allocator page frame flags
      present
  have answers :
      (spaces.mappedActive page frame flags).allocator.answers =
        spaces.allocator.answers :=
    effect.advances.answers_eq
  constructor
  case once => exact answers ▸ separate.once
  case owned =>
    rw [answers]
    apply separate.owned.grow .active .active ∅ separate.once
      effect.advances.drawn_le
    · exact fun _ member => absurd member (Set.notMem_empty _)
    · intro owner held member
      rcases mem_frameHoldings_current spaces.current member with
        old | ⟨rfl, stored⟩
      · exact Or.inl old
      · rcases effect.tablesDrawn held stored with before | drawn
        · exact Or.inl before
        · exact Or.inr (Or.inl ⟨rfl, drawn⟩)
  case translated =>
    intro page member
    obtain ⟨held, resident, translated⟩ := separate.translated page member
    exact ⟨held, resident, translatePage_mapTo present translated⟩
  case housed =>
    intro table member
    exact (separate.housed table member).later fun _ _ translated =>
      translatePage_mapTo present translated

omit [LawfulMapper C] in
/-- A call of `from_elf` begins with a table that is stored in its box. -/
theorem AddressSpaces.Separate.begun (separate : spaces.Separate kernel kept)
    {newPageTable : T} (empty : Empty newPageTable)
    (boxed : spaces.Boxed kept newPageTable) :
    Accounted kept spaces.tables
      (Machine.start newPageTable spaces.current spaces.allocator
        spaces.idIndex) := by
  refine ⟨separate.once, ?_⟩
  apply separate.owned.grow .active (.table spaces.tables.length)
    (tableFrames newPageTable) separate.once (Nat.le_refl _) boxed
  intro owner frame held
  rcases mem_holdings.mp held with old | new | ⟨page, _, given, leaf, _⟩
  · exact Or.inl old
  · exact Or.inr (Or.inr new)
  · rw [Machine.start, empty] at leaf
    cases leaf

variable [LawfulMapper T]

/-- A program whose copies land in their frames is loaded as if every copy were
sent to its frame. -/
theorem AddressSpaces.Separate.constructed
    [LawfulStoredMapper T] [LawfulStoredMapper C]
    (separate : spaces.Separate kernel kept) {elf : ElfFile}
    {kernelStackStart kernelStackEnd memSize : Nat} {newPageTable : T}
    {managed : ManagedProcess T} {final : Machine T C}
    (land : spaces.CopiesLand elf) (empty : Empty newPageTable)
    (boxed : spaces.Boxed kept newPageTable)
    (returned :
      (newKernelProcess elf kernel kernelStackStart kernelStackEnd memSize).run
          (Machine.start newPageTable spaces.current spaces.allocator
            spaces.idIndex) = .ok managed final) :
    (fromElf elf kernel kernelStackStart kernelStackEnd memSize).run
        (Machine.start newPageTable spaces.current spaces.allocator
          spaces.idIndex) = .ok managed.process final := by
  have clear := clear_start (separate.begun empty boxed).fresh land.ready
  exact
    ((refines_fromElf kernel kernelStackStart kernelStackEnd memSize
      land.fits).of_run_ok clear (newKernelProcess_run_ok.mp returned).1).1

theorem AddressSpaces.Separate.created
    (separate : spaces.Separate kernel kept) {elf : ElfFile}
    {kernelStackStart kernelStackEnd memSize : Nat} {newPageTable : T}
    {managed : ManagedProcess T} {final : Machine T C}
    (empty : Empty newPageTable) (boxed : spaces.Boxed kept newPageTable)
    (returned :
      (fromElf elf kernel kernelStackStart kernelStackEnd memSize).run
          (Machine.start newPageTable spaces.current spaces.allocator
            spaces.idIndex) = .ok managed.process final) :
    (spaces.created managed final).Separate kernel kept := by
  have begun := separate.begun empty boxed
  obtain ⟨accounted, made⟩ := accounted_fromElf begun returned
  have translations :
      KeepsTranslations
        (Machine.start newPageTable spaces.current spaces.allocator
          spaces.idIndex) final :=
    keepsTranslations_fromElf.of_run_ok returned
  constructor
  case once => exact accounted.once
  case owned =>
    rw [AddressSpaces.tables_created, made]
    exact accounted.owned
  case translated =>
    intro page member
    obtain ⟨held, resident, translated⟩ := separate.translated page member
    exact ⟨held, resident, translations page held translated⟩
  case housed =>
    rw [AddressSpaces.tables_created]
    intro table member
    rcases List.mem_append.mp member with old | new
    · exact (separate.housed table old).later translations
    · rw [List.mem_singleton] at new
      subst new
      have leaves := userLeaves_fromElf empty returned
      constructor
      case small =>
        intro size page frame user
        obtain ⟨flags, leaf, accessible⟩ := user
        rw [made] at leaf
        have reached := leaves.holds size page frame flags leaf accessible
        cases size with
        | size4KiB => rfl
        | size2MiB => exact reached.elim
        | size1GiB => exact reached.elim
      case kernelMapped =>
        intro page member
        obtain ⟨frame, translated, leaf⟩ :=
          fromElf_maps_kernel returned page member
        exact ⟨frame, translations page frame translated, leaf⟩

variable [LawfulStoredMapper T] [LawfulStoredMapper C]

theorem AddressSpaces.Separate.step (separate : spaces.Separate kernel kept)
    (step : SpaceStep kernel kept spaces next) :
    next.Separate kernel kept := by
  cases step with
  | draw => exact separate.drew
  | mapActive page frame flags present =>
      exact separate.mappedActive page frame present
  | create elf _ _ _ newPageTable managed final land empty boxed returned =>
      exact separate.created empty boxed
        (separate.constructed land empty boxed returned)

theorem AddressSpaces.Separate.run (separate : spaces.Separate kernel kept)
    (run : Relation.ReflTransGen (SpaceStep kernel kept) spaces next) :
    next.Separate kernel kept := by
  induction run with
  | refl => exact separate
  | tail _ step inductionHypothesis => exact inductionHypothesis.step step

end Steps

/-! ## Runs -/

section Runs

variable {T C : Type} [StoredMapper T] [StoredMapper C]
variable {kernel : ElfFile} {kept : Set (PhysFrame .size4KiB)}
variable {initial spaces next final : AddressSpaces T C}

/-- A kernel that has made no process yet: the frames of its table and its own
frames are different, and the allocator gives none of them. -/
structure AddressSpaces.Booted (kernel : ElfFile)
    (spaces : AddressSpaces T C) : Prop where
  noProcess : spaces.processes = []
  loaded :
    ∀ page ∈ kernelPages kernel,
      (translatePage spaces.current page).isSome
  tablesSpent :
    ∀ frame ∈ tableFrames spaces.current,
      Spent spaces.allocator.answers spaces.allocator.drawn frame
  residentSpent :
    ∀ frame ∈ AddressSpaces.residentFrames kernel spaces.current,
      Spent spaces.allocator.answers spaces.allocator.drawn frame ∧
        frame ∉ tableFrames spaces.current

theorem AddressSpaces.Booted.separate (booted : initial.Booted kernel)
    (once : NeverTwice initial.allocator.answers) :
    initial.Separate kernel
      (AddressSpaces.residentFrames kernel initial.current) where
  once := once
  owned := by
    have noTables : initial.tables = [] := by
      rw [AddressSpaces.tables, booted.noProcess]
      rfl
    rw [noTables]
    have onlyTwo (owner : FrameOwner) (frame : PhysFrame .size4KiB)
        (held : frame ∈ frameHoldings
          (AddressSpaces.residentFrames kernel initial.current)
          initial.current ([] : List T) owner) :
        owner = .resident ∧
            frame ∈ AddressSpaces.residentFrames kernel initial.current ∨
          owner = .active ∧ frame ∈ tableFrames initial.current := by
      cases owner with
      | resident => exact Or.inl ⟨rfl, held⟩
      | active => exact Or.inr ⟨rfl, held⟩
      | table process => simp [frameHoldings] at held
      | page process page => simp [frameHoldings] at held
    constructor
    case spent =>
      intro owner frame held
      rcases onlyTwo owner frame held with ⟨_, resident⟩ | ⟨_, stored⟩
      · exact (booted.residentSpent frame resident).1
      · exact booted.tablesSpent frame stored
    case unique =>
      intro left right frame heldLeft heldRight
      rcases onlyTwo left frame heldLeft with
        ⟨rfl, resident⟩ | ⟨rfl, stored⟩
      · rcases onlyTwo right frame heldRight with ⟨rfl, _⟩ | ⟨rfl, stored⟩
        · rfl
        · exact absurd stored (booted.residentSpent frame resident).2
      · rcases onlyTwo right frame heldRight with ⟨rfl, resident⟩ | ⟨rfl, _⟩
        · exact absurd stored (booted.residentSpent frame resident).2
        · rfl
  translated := by
    intro page member
    obtain ⟨frame, translated⟩ :=
      Option.isSome_iff_exists.mp (booted.loaded page member)
    exact ⟨frame, ⟨page, member, translated⟩, translated⟩
  housed := by
    intro table member
    rw [AddressSpaces.tables, booted.noProcess] at member
    cases member

omit [StoredMapper T] [StoredMapper C] in
theorem AddressSpaces.tables_getElem? {process : Nat}
    {managed : ManagedProcess T}
    (listed : spaces.processes[process]? = some managed) :
    spaces.tables[process]? = some managed.process.addressSpace := by
  rw [AddressSpaces.tables, List.getElem?_map, listed]
  rfl

/-- The frames of the kernel stay the same. -/
theorem AddressSpaces.Separate.resident
    (separate : spaces.Separate kernel kept) :
    AddressSpaces.residentFrames kernel spaces.current ⊆ kept := by
  rintro frame ⟨page, member, translated⟩
  obtain ⟨held, resident, same⟩ := separate.translated page member
  rw [translated] at same
  cases same
  exact resident

/-- User code reaches small pages only, and through each page a frame that no
other page of a process reaches, no table is stored in and no page of the
kernel is loaded in; two tables share no frame; the kernel is in every process
where the active table has it, and hidden from user code. -/
structure AddressSpaces.Isolated (kernel : ElfFile)
    (spaces : AddressSpaces T C) : Prop where
  small :
    ∀ managed ∈ spaces.processes, ∀ size (page : Page size)
        (frame : PhysFrame size),
      UserMapped managed.process.addressSpace page frame → size = .size4KiB
  ownPage :
    ∀ (left right : Nat) (first second : ManagedProcess T),
      spaces.processes[left]? = some first →
      spaces.processes[right]? = some second →
      ∀ (page other : Page .size4KiB) (frame : PhysFrame .size4KiB),
        UserMapped first.process.addressSpace page frame →
        UserMapped second.process.addressSpace other frame →
          left = right ∧ page = other
  pageNotTable :
    ∀ first ∈ spaces.processes, ∀ (page : Page .size4KiB)
        (frame : PhysFrame .size4KiB),
      UserMapped first.process.addressSpace page frame →
        frame ∉ tableFrames spaces.current ∧
          (∀ second ∈ spaces.processes,
            frame ∉ tableFrames second.process.addressSpace) ∧
          frame ∉ AddressSpaces.residentFrames kernel spaces.current
  ownTable :
    ∀ (left right : Nat) (first second : ManagedProcess T),
      spaces.processes[left]? = some first →
      spaces.processes[right]? = some second →
      ∀ frame ∈ tableFrames first.process.addressSpace,
        frame ∈ tableFrames second.process.addressSpace → left = right
  tableNotActive :
    ∀ managed ∈ spaces.processes,
      ∀ frame ∈ tableFrames managed.process.addressSpace,
        frame ∉ tableFrames spaces.current ∧
          frame ∉ AddressSpaces.residentFrames kernel spaces.current
  kernelMapped :
    ∀ managed ∈ spaces.processes, ∀ page ∈ kernelPages kernel,
      ∃ frame,
        translatePage spaces.current page = some frame ∧
          entry managed.process.addressSpace .size4KiB page =
            .leaf frame presentWritable

/-- Different owners, different frames. -/
theorem AddressSpaces.Separate.isolated
    (separate : spaces.Separate kernel kept) : spaces.Isolated kernel := by
  have unique := separate.owned.unique
  have listed (managed : ManagedProcess T)
      (member : managed ∈ spaces.processes) :
      managed.process.addressSpace ∈ spaces.tables :=
    List.mem_map_of_mem member
  have pageHeld (process : Nat) (managed : ManagedProcess T)
      (page : Page .size4KiB) (frame : PhysFrame .size4KiB)
      (located : spaces.processes[process]? = some managed)
      (user : UserMapped managed.process.addressSpace page frame) :
      frame ∈ frameHoldings kept spaces.current spaces.tables
        (.page process page) :=
    ⟨_, AddressSpaces.tables_getElem? located, user⟩
  have tableHeld (process : Nat) (managed : ManagedProcess T)
      (frame : PhysFrame .size4KiB)
      (located : spaces.processes[process]? = some managed)
      (stored : frame ∈ tableFrames managed.process.addressSpace) :
      frame ∈ frameHoldings kept spaces.current spaces.tables
        (.table process) :=
    ⟨_, AddressSpaces.tables_getElem? located, stored⟩
  constructor
  case small =>
    intro managed member
    exact (separate.housed _ (listed managed member)).small
  case ownPage =>
    intro left right first second atLeft atRight page other frame user
      otherUser
    have same :=
      unique _ _ frame (pageHeld left first page frame atLeft user)
        (pageHeld right second other frame atRight otherUser)
    cases same
    exact ⟨rfl, rfl⟩
  case pageNotTable =>
    intro first member page frame user
    obtain ⟨left, atLeft⟩ := List.mem_iff_getElem?.mp member
    have held := pageHeld left first page frame atLeft user
    refine ⟨?_, ?_, ?_⟩
    · intro stored
      cases unique _ .active frame held stored
    · intro second other stored
      obtain ⟨right, atRight⟩ := List.mem_iff_getElem?.mp other
      cases unique _ _ frame held
        (tableHeld right second frame atRight stored)
    · intro resident
      cases unique _ .resident frame held (separate.resident resident)
  case ownTable =>
    intro left right first second atLeft atRight frame stored otherStored
    have same :=
      unique _ _ frame (tableHeld left first frame atLeft stored)
        (tableHeld right second frame atRight otherStored)
    cases same
    rfl
  case tableNotActive =>
    intro managed member frame stored
    obtain ⟨process, located⟩ := List.mem_iff_getElem?.mp member
    have held := tableHeld process managed frame located stored
    constructor
    · intro active
      cases unique _ .active frame held active
    · intro resident
      cases unique _ .resident frame held (separate.resident resident)
  case kernelMapped =>
    intro managed member
    exact (separate.housed _ (listed managed member)).kernelMapped

end Runs

/-! ## Two processes of one program -/

/-- A kernel in its first state, with frames from 128 MiB on to be given. -/
def guestSpaces : AddressSpaces RadixTable RadixTable :=
  ⟨residentSpace, ⟨fun index => some ⟨0x8000 + index⟩, 0⟩, 0, [], []⟩

theorem residentFrames_residentSpace :
    AddressSpaces.residentFrames residentElf residentSpace = {⟨0x50⟩} := by
  have translated :
      translatePage residentSpace (⟨0x800⟩ : Page .size4KiB) =
        some ⟨0x50⟩ := rfl
  ext frame
  simp [AddressSpaces.residentFrames, kernelPages_residentElf, translated,
    eq_comm]

theorem guestSpaces_once : NeverTwice guestSpaces.allocator.answers := by
  intro left right frame atLeft atRight
  simp only [guestSpaces, Option.some.injEq] at atLeft atRight
  subst atLeft
  simp only [PhysFrame.mk.injEq] at atRight
  omega

theorem guestSpaces_booted : guestSpaces.Booted residentElf where
  noProcess := rfl
  loaded := by
    rw [kernelPages_residentElf]
    intro page member
    rw [List.mem_singleton] at member
    subst member
    rfl
  tablesSpent := by
    intro frame stored index _ given
    have low := (tableFrames_residentSpace stored).1
    simp only [guestSpaces, Option.some.injEq] at given
    subst given
    simp only at low
    omega
  residentSpent := by
    intro frame resident
    rw [guestSpaces, residentFrames_residentSpace] at resident
    rw [Set.mem_singleton_iff] at resident
    subst resident
    constructor
    · intro index _ given
      simp only [guestSpaces, Option.some.injEq, PhysFrame.mk.injEq] at given
      omega
    · intro stored
      exact (tableFrames_residentSpace stored).2 rfl

/-- The kernel draws a frame for the box of a table and loads the program,
for which the allocator has the frames. -/
theorem guest_created_of_supplied {kept : Set (PhysFrame .size4KiB)}
    {spaces : AddressSpaces RadixTable RadixTable}
    {box : PhysFrame .size4KiB}
    (separate : spaces.Separate residentElf kept)
    (ready :
      ∀ index frame, spaces.allocator.drawn ≤ index →
        spaces.allocator.answers index = some frame →
          IdentityReady spaces.current frame)
    (answer :
      spaces.allocator.answers spaces.allocator.drawn = some box)
    (enough :
      (Machine.start (RadixTable.new box) spaces.drew.current
        spaces.drew.allocator spaces.drew.idIndex).Supplied 1044) :
    ∃ managed machine,
      (newKernelProcess guestElf residentElf 0x200000 0x200000 0).run
          (Machine.start (RadixTable.new box) spaces.drew.current
            spaces.drew.allocator spaces.drew.idIndex) =
        .ok managed machine ∧
      spaces.drew.Boxed kept (RadixTable.new box) ∧
      spaces.drew.CopiesLand guestElf ∧
      machine.allocator.drawn ≤ spaces.drew.allocator.drawn + 1044 := by
  have boxed : spaces.drew.Boxed kept (RadixTable.new box) := by
    intro frame stored
    rw [RadixTable.mem_tableFrames_new.mp stored]
    exact separate.owned.unowned_answer separate.once answer
  have land : spaces.drew.CopiesLand guestElf :=
    ⟨guestElf_fits, fun index frame lower given =>
      ready index frame (Nat.le_of_succ_le lower) given⟩
  obtain ⟨frame, _, translated⟩ :=
    separate.translated ⟨0x800⟩ (by simp [kernelPages_residentElf])
  obtain ⟨process, machine, returned, within⟩ :=
    fromElf_returns_guest_supplied
      (separate.drew.begun (RadixTable.new_empty _) boxed).fresh land.ready
      ⟨frame, translated⟩ enough
  exact ⟨⟨process, .ready, .kernel⟩, machine,
    newKernelProcess_run_ok.mpr ⟨returned, rfl, rfl⟩, boxed, land, within⟩

/-- The frames of the first regions can be reached, and the allocator is still
among them. -/
structure GuestReady (count : Nat)
    (spaces : AddressSpaces RadixTable RadixTable) : Prop where
  answers : spaces.allocator.answers = fun index => some ⟨0x8000 + index⟩
  few : spaces.allocator.drawn ≤ count
  ready :
    ∀ index frame, spaces.allocator.drawn ≤ index →
      spaces.allocator.answers index = some frame →
        IdentityReady spaces.current frame

theorem guestSpaces_ready : GuestReady 0 guestSpaces where
  answers := rfl
  few := Nat.le_refl 0
  ready := by
    intro index frame _ given
    apply residentSpace_ready
    simp only [guestSpaces, Option.some.injEq] at given
    subst given
    simp only
    omega

/-- The kernel makes a process, and has frames for others. -/
theorem guest_created {kept : Set (PhysFrame .size4KiB)} {count : Nat}
    {spaces : AddressSpaces RadixTable RadixTable}
    (separate : spaces.Separate residentElf kept)
    (ready : GuestReady count spaces) (small : count ≤ 0x10000) :
    ∃ managed machine,
      (newKernelProcess guestElf residentElf 0x200000 0x200000 0).run
          (Machine.start (RadixTable.new ⟨0x8000 + spaces.allocator.drawn⟩)
            spaces.drew.current spaces.drew.allocator spaces.drew.idIndex) =
        .ok managed machine ∧
      spaces.drew.Boxed kept
        (RadixTable.new ⟨0x8000 + spaces.allocator.drawn⟩) ∧
      spaces.drew.CopiesLand guestElf ∧
      GuestReady (count + 1045) (spaces.drew.created managed machine) ∧
      Relation.ReflTransGen (SpaceStep residentElf kept) spaces
        (spaces.drew.created managed machine) := by
  have few := ready.few
  have answer :
      spaces.allocator.answers spaces.allocator.drawn =
        some ⟨0x8000 + spaces.allocator.drawn⟩ := by
    rw [ready.answers]
  have enough :
      (Machine.start
        (RadixTable.new ⟨0x8000 + spaces.allocator.drawn⟩)
        spaces.drew.current spaces.drew.allocator
        spaces.drew.idIndex).Supplied 1044 := by
    intro index _ upper
    change index < spaces.allocator.drawn + 1 + 1044 at upper
    refine ⟨⟨0x8000 + index⟩, congrFun ready.answers index, ?_⟩
    simp only [PhysFrame.startAddress, PageSize.bytes]
    omega
  obtain ⟨managed, machine, made, boxed, land, within⟩ :=
    guest_created_of_supplied separate ready.ready answer enough
  have drawn : SpaceStep residentElf kept spaces spaces.drew :=
    SpaceStep.draw spaces
  have constructed :=
    separate.drew.constructed land (RadixTable.new_empty _) boxed made
  have grown :
      Grows
        (Machine.start (RadixTable.new ⟨0x8000 + spaces.allocator.drawn⟩)
          spaces.drew.current spaces.drew.allocator spaces.drew.idIndex)
        machine :=
    (preserves_fromElf (grows_loadSegments guestElf tolerateMapped)).of_run_ok
      constructed
  have reachable :
      KeepsReady
        (Machine.start (RadixTable.new ⟨0x8000 + spaces.allocator.drawn⟩)
          spaces.drew.current spaces.drew.allocator spaces.drew.idIndex)
        machine :=
    keepsReady_fromElf.of_run_ok constructed
  refine ⟨managed, machine, made, boxed, land, ⟨?_, ?_, ?_⟩,
    (Relation.ReflTransGen.single drawn).tail
      (SpaceStep.create spaces.drew guestElf 0x200000 0x200000 0 _ managed
        machine land (RadixTable.new_empty _) boxed made)⟩
  · exact grown.advances.answers_eq.trans ready.answers
  · change machine.allocator.drawn ≤ spaces.allocator.drawn + 1 + 1044
      at within
    change machine.allocator.drawn ≤ count + 1045
    omega
  · intro index frame lower given
    change machine.allocator.answers index = some frame at given
    rw [grown.advances.answers_eq] at given
    exact reachable frame
      (land.ready index frame (Nat.le_trans grown.advances.drawn_le lower)
        given)

end RustKernel.Kernel
