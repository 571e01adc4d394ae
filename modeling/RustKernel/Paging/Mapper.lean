import Mathlib.Data.Set.Basic
import RustKernel.Foundations.Bytes
import RustKernel.Machine.Address

/-!
# Page tables through the mapper interface

The loaders reach page tables only through the `Mapper` and `FrameAllocator`
traits of the paging crate, which is not part of the repository.  `Mapper` is
the part of the trait that they call, together with what can be observed of a
table: the entry behind every page of every size and the frames in which the
table itself is stored.  `LawfulMapper` is the documented behaviour of
`map_to`, and all that the development assumes about the crate.
-/

namespace RustKernel.Paging

open RustKernel.Foundations
open RustKernel.Machine

/-! ## Pages of different sizes -/

/-- The page of a larger size around a page. -/
def enclosing {size : PageSize} (larger : PageSize) (page : Page size) :
    Page larger :=
  ⟨page.number * size.bytes / larger.bytes⟩

/-- Two pages have no address in common. -/
def Apart {size size' : PageSize} (left : Page size) (right : Page size') :
    Prop :=
  (left.number + 1) * size.bytes ≤ right.number * size'.bytes ∨
    (right.number + 1) * size'.bytes ≤ left.number * size.bytes

instance {size size' : PageSize} (left : Page size) (right : Page size') :
    Decidable (Apart left right) :=
  inferInstanceAs (Decidable (_ ∨ _))

theorem Apart.symm {size size' : PageSize}
    {left : Page size} {right : Page size'} (apart : Apart left right) :
    Apart right left :=
  Or.symm apart

theorem apart_iff_ne {size : PageSize} {left right : Page size} :
    Apart left right ↔ left ≠ right := by
  have positive := size.bytes_pos
  cases left with
  | mk left =>
      cases right with
      | mk right =>
          simp only [Apart, ne_eq, Page.mk.injEq,
            Nat.mul_le_mul_right_iff positive]
          omega

/-- A page does not stand apart from a page around it. -/
theorem not_apart_enclosing {size larger : PageSize} (page : Page size)
    (grows : size.bytes < larger.bytes) :
    ¬ Apart (enclosing larger page) page := by
  cases size <;> cases larger <;>
    simp only [Apart, enclosing, PageSize.bytes] at grows ⊢ <;> omega

/-! ## Flags, entries and frame allocators -/

structure PageTableFlags where
  present : Bool
  writable : Bool
  userAccessible : Bool
  deriving DecidableEq, Repr

/-- What a table holds for a page: nothing, a table of smaller pages, or the
frame to which the page is mapped. -/
inductive Entry (size : PageSize) where
  | unused
  | table
  | leaf (frame : PhysFrame size) (flags : PageTableFlags)
  deriving DecidableEq, Repr

/-- `mapper::MapToError`. -/
inductive MapToError (size : PageSize) where
  | frameAllocationFailed
  | parentEntryHugePage
  | pageAlreadyMapped (frame : PhysFrame size)
  deriving DecidableEq, Repr

/-- An implementation of `FrameAllocator<Size4KiB>`, by the answers that it
gives to successive calls and the number of calls made so far. -/
structure FrameAllocator where
  answers : Nat → Option (PhysFrame .size4KiB)
  drawn : Nat

namespace FrameAllocator

def allocateFrame (allocator : FrameAllocator) :
    Option (PhysFrame .size4KiB) × FrameAllocator :=
  (allocator.answers allocator.drawn,
    { allocator with drawn := allocator.drawn + 1 })

/-- Between the two states a call was answered so. -/
def Answered (before after : FrameAllocator)
    (answer : Option (PhysFrame .size4KiB)) : Prop :=
  ∃ index, before.drawn ≤ index ∧ index < after.drawn ∧
    before.answers index = answer

/-- The second state is reached from the first by calls. -/
structure Advances (before after : FrameAllocator) : Prop where
  answers_eq : after.answers = before.answers
  drawn_le : before.drawn ≤ after.drawn

theorem Advances.refl (allocator : FrameAllocator) :
    Advances allocator allocator :=
  ⟨rfl, Nat.le_refl _⟩

theorem Advances.trans {first middle last : FrameAllocator}
    (earlier : Advances first middle) (later : Advances middle last) :
    Advances first last where
  answers_eq := later.answers_eq.trans earlier.answers_eq
  drawn_le := Nat.le_trans earlier.drawn_le later.drawn_le

theorem Answered.earlier
    {first middle last : FrameAllocator}
    {answer : Option (PhysFrame .size4KiB)}
    (answered : Answered first middle answer)
    (later : Advances middle last) :
    Answered first last answer := by
  obtain ⟨index, lower, upper, given⟩ := answered
  exact ⟨index, lower, Nat.lt_of_lt_of_le upper later.drawn_le, given⟩

theorem Answered.later
    {first middle last : FrameAllocator}
    {answer : Option (PhysFrame .size4KiB)}
    (earlier : Advances first middle)
    (answered : Answered middle last answer) :
    Answered first last answer := by
  obtain ⟨index, lower, upper, given⟩ := answered
  refine ⟨index, Nat.le_trans earlier.drawn_le lower, upper, ?_⟩
  rw [← earlier.answers_eq]
  exact given

end FrameAllocator

/-! ## The mapper -/

/-- What a call of `map_to` leaves behind. -/
structure MapOutcome (T : Type) (size : PageSize) where
  result : Except (MapToError size) Unit
  table : T
  allocator : FrameAllocator
  stores : List (Store Unit)

class Mapper (T : Type) where
  entry : T → (size : PageSize) → Page size → Entry size
  tableFrames : T → Set (PhysFrame .size4KiB)
  mapTo :
    {size : PageSize} → Page size → PhysFrame size → PageTableFlags →
      T → FrameAllocator → MapOutcome T size

export Mapper (entry tableFrames mapTo)

section Observations

variable {T : Type} [Mapper T]

/-- `Mapper::<Size4KiB>::translate_page`; its errors are not told apart. -/
def translatePage (table : T) (page : Page .size4KiB) :
    Option (PhysFrame .size4KiB) :=
  match entry table .size4KiB page with
  | .leaf frame _ => some frame
  | _ => none

/-- `Translate::translate_addr`, for an address given by its low 48 bits. -/
def translateAddr (table : T) (address : Nat) : Option Nat :=
  match entry table .size1GiB ⟨address / PageSize.size1GiB.bytes⟩ with
  | .unused => none
  | .leaf frame _ =>
      some (frame.startAddress + address % PageSize.size1GiB.bytes)
  | .table =>
      match entry table .size2MiB ⟨address / PageSize.size2MiB.bytes⟩ with
      | .unused => none
      | .leaf frame _ =>
          some (frame.startAddress + address % PageSize.size2MiB.bytes)
      | .table =>
          match entry table .size4KiB ⟨address / PageSize.size4KiB.bytes⟩ with
          | .leaf frame _ =>
              some (frame.startAddress + address % PageSize.size4KiB.bytes)
          | _ => none

/-- What the processor makes of a pointer. -/
def translatePointer (table : T) (pointer : Nat) : Option Nat :=
  if IsCanonical pointer then translateAddr table (pointer % 2 ^ 48) else none

/-- A table without mappings, as `PageTable::new` makes it. -/
def Empty (table : T) : Prop :=
  ∀ size (page : Page size), entry table size page = .unused

/-- The page lies in no huge page. -/
def NoHugeParent {size : PageSize} (table : T) (page : Page size) : Prop :=
  ∀ larger frame flags, size.bytes < larger.bytes →
    entry table larger (enclosing larger page) ≠ .leaf frame flags

structure Unmapped {size : PageSize} (table : T) (page : Page size) :
    Prop where
  unused : entry table size page = .unused
  noHugeParent : NoHugeParent table page

/-- What the documentation of `map_to` says about one call. -/
structure MapToEffect {size : PageSize}
    (page : Page size) (frame : PhysFrame size) (flags : PageTableFlags)
    (before : T) (supply : FrameAllocator) (outcome : MapOutcome T size) :
    Prop where
  advances : supply.Advances outcome.allocator
  atMostThree : outcome.allocator.drawn ≤ supply.drawn + 3
  mapped :
    outcome.result = .ok () →
      entry before size page = .unused ∧
        entry outcome.table size page = .leaf frame flags
  targetKept :
    outcome.result ≠ .ok () →
      entry outcome.table size page = entry before size page
  sameSizeKept :
    ∀ other, other ≠ page →
      entry outcome.table size other = entry before size other
  /-- Entries of other sizes stay, except on the way to the page: a missing
  table is created, and a huge page there may gain flags before the call
  fails. -/
  otherSize :
    ∀ size' (other : Page size'), size' ≠ size →
      entry outcome.table size' other = entry before size' other ∨
      size.bytes < size'.bytes ∧ other = enclosing size' page ∧
        (entry before size' other = .unused ∧
            entry outcome.table size' other = .table ∨
          outcome.result = .error .parentEntryHugePage ∧
            ∃ hugeFrame old new,
              entry before size' other = .leaf hugeFrame old ∧
                entry outcome.table size' other = .leaf hugeFrame new)
  alreadyMapped :
    ∀ taken, outcome.result = .error (.pageAlreadyMapped taken) →
      entry before size page ≠ .unused
  hugeParent :
    outcome.result = .error .parentEntryHugePage →
      ∃ larger hugeFrame hugeFlags, size.bytes < larger.bytes ∧
        entry before larger (enclosing larger page) =
          .leaf hugeFrame hugeFlags
  allocationFailed :
    outcome.result = .error .frameAllocationFailed →
      supply.Answered outcome.allocator none
  tablesKept :
    ∀ kept ∈ tableFrames before, kept ∈ tableFrames outcome.table
  tablesDrawn :
    ∀ held ∈ tableFrames outcome.table,
      held ∈ tableFrames before ∨
        supply.Answered outcome.allocator (some held)
  storesInTables :
    ∀ store ∈ outcome.stores, ∀ target, store.Covers target →
      ∃ held ∈ tableFrames outcome.table, held.Holds target

end Observations

/-- The documented behaviour of the paging crate. -/
class LawfulMapper (T : Type) [Mapper T] : Prop where
  small_ne_table :
    ∀ (table : T) (page : Page .size4KiB),
      entry table .size4KiB page ≠ .table
  enclosing_table :
    ∀ (table : T) {size : PageSize} (larger : PageSize) (page : Page size),
      entry table size page ≠ .unused → size.bytes < larger.bytes →
        entry table larger (enclosing larger page) = .table
  mapTo_effect :
    ∀ (table : T) (supply : FrameAllocator) {size : PageSize}
      (page : Page size) (frame : PhysFrame size) (flags : PageTableFlags),
      flags.present = true →
        MapToEffect page frame flags table supply
          (mapTo page frame flags table supply)

/-! ## Consequences of one call -/

section Effect

variable {T : Type} [Mapper T] {size size' : PageSize}
variable {page : Page size} {frame : PhysFrame size} {flags : PageTableFlags}
variable {before : T} {supply : FrameAllocator} {outcome : MapOutcome T size}

namespace MapToEffect

/-- An unmapped page is mapped unless the allocator runs out. -/
theorem ok_of_unmapped
    (effect : MapToEffect page frame flags before supply outcome)
    (unmapped : Unmapped before page)
    (neverOut : ¬ supply.Answered outcome.allocator none) :
    outcome.result = .ok () := by
  cases answer : outcome.result with
  | ok value => rfl
  | error fault =>
      cases fault with
      | frameAllocationFailed =>
          exact absurd (effect.allocationFailed answer) neverOut
      | parentEntryHugePage =>
          obtain ⟨larger, hugeFrame, hugeFlags, grows, huge⟩ :=
            effect.hugeParent answer
          exact absurd huge
            (unmapped.noHugeParent larger hugeFrame hugeFlags grows)
      | pageAlreadyMapped taken =>
          exact absurd unmapped.unused (effect.alreadyMapped taken answer)

/-- A mapping keeps its frame, and its flags unless the call meets it as a
huge parent. -/
theorem leaf_kept
    (effect : MapToEffect page frame flags before supply outcome)
    {other : Page size'} {held : PhysFrame size'} {old : PageTableFlags}
    (leaf : entry before size' other = .leaf held old) :
    ∃ new, entry outcome.table size' other = .leaf held new ∧
      (outcome.result ≠ .error .parentEntryHugePage → new = old) := by
  by_cases sameSize : size' = size
  · subst sameSize
    by_cases same : other = page
    · subst same
      have failed : outcome.result ≠ .ok () := by
        intro succeeded
        rw [(effect.mapped succeeded).1] at leaf
        cases leaf
      exact ⟨old, by rw [effect.targetKept failed, leaf], fun _ => rfl⟩
    · exact ⟨old, by rw [effect.sameSizeKept other same, leaf], fun _ => rfl⟩
  · rcases effect.otherSize size' other sameSize with
      kept | ⟨_, _, ⟨wasUnused, _⟩ | ⟨failed, hugeFrame, was, now, before_eq, after_eq⟩⟩
    · exact ⟨old, by rw [kept, leaf], fun _ => rfl⟩
    · rw [leaf] at wasUnused
      cases wasUnused
    · rw [leaf] at before_eq
      cases before_eq
      exact ⟨now, after_eq, fun notHuge => absurd failed notHuge⟩

/-- What holds of the mappings before the call and of its target holds of the
mappings after it. -/
theorem leaves_after
    {Allowed :
      (size : PageSize) → Page size → PhysFrame size → PageTableFlags → Prop}
    (effect : MapToEffect page frame flags before supply outcome)
    (allowed :
      ∀ size (other : Page size) held given,
        entry before size other = .leaf held given →
          Allowed size other held given)
    (target : outcome.result = .ok () → Allowed size page frame flags)
    (reflagged :
      outcome.result = .error .parentEntryHugePage →
        ∀ size (other : Page size) held old new,
          Allowed size other held old → Allowed size other held new)
    {other : Page size'} {held : PhysFrame size'} {given : PageTableFlags}
    (leaf : entry outcome.table size' other = .leaf held given) :
    Allowed size' other held given := by
  by_cases sameSize : size' = size
  · subst sameSize
    by_cases same : other = page
    · subst same
      by_cases succeeded : outcome.result = .ok ()
      · rw [(effect.mapped succeeded).2] at leaf
        cases leaf
        exact target succeeded
      · rw [effect.targetKept succeeded] at leaf
        exact allowed _ _ _ _ leaf
    · rw [effect.sameSizeKept other same] at leaf
      exact allowed _ _ _ _ leaf
  · rcases effect.otherSize size' other sameSize with
      kept | ⟨_, _, ⟨_, nowTable⟩ | ⟨failed, hugeFrame, was, now, before_eq, after_eq⟩⟩
    · rw [kept] at leaf
      exact allowed _ _ _ _ leaf
    · rw [leaf] at nowTable
      cases nowTable
    · rw [leaf] at after_eq
      cases after_eq
      exact reflagged failed _ _ _ _ _ (allowed _ _ _ _ before_eq)

/-- No call creates a huge page around a page that is not larger. -/
theorem noHugeParent_kept
    (effect : MapToEffect page frame flags before supply outcome)
    {other : Page size'} (smaller : size.bytes ≤ size'.bytes)
    (noHugeParent : NoHugeParent before other) :
    NoHugeParent outcome.table other := by
  intro larger hugeFrame hugeFlags grows huge
  have different : larger ≠ size := by
    rintro rfl
    omega
  rcases effect.otherSize larger _ different with
    kept | ⟨_, _, ⟨_, nowTable⟩ | ⟨_, held, was, now, before_eq, _⟩⟩
  · rw [kept] at huge
    exact noHugeParent larger hugeFrame hugeFlags grows huge
  · rw [huge] at nowTable
    cases nowTable
  · exact noHugeParent larger held was grows before_eq

/-- A page apart from the target stays unmapped. -/
theorem unmapped_kept
    (effect : MapToEffect page frame flags before supply outcome)
    {other : Page size'} (unmapped : Unmapped before other)
    (apart : Apart page other) :
    Unmapped outcome.table other where
  unused := by
    by_cases sameSize : size' = size
    · subst sameSize
      rw [effect.sameSizeKept other (apart_iff_ne.mp apart).symm]
      exact unmapped.unused
    · rcases effect.otherSize size' other sameSize with
        kept | ⟨grows, rfl, _⟩
      · rw [kept]
        exact unmapped.unused
      · exact absurd apart.symm (not_apart_enclosing page grows)
  noHugeParent := by
    intro larger hugeFrame hugeFlags grows huge
    by_cases sameSize : larger = size
    · subst sameSize
      have different : enclosing larger other ≠ page := by
        rintro rfl
        exact not_apart_enclosing other grows apart
      rw [effect.sameSizeKept _ different] at huge
      exact unmapped.noHugeParent larger hugeFrame hugeFlags grows huge
    · rcases effect.otherSize larger _ sameSize with
        kept | ⟨_, _, ⟨_, nowTable⟩ | ⟨_, held, was, now, before_eq, _⟩⟩
      · rw [kept] at huge
        exact unmapped.noHugeParent larger hugeFrame hugeFlags grows huge
      · rw [huge] at nowTable
        cases nowTable
      · exact unmapped.noHugeParent larger held was grows before_eq

end MapToEffect

theorem translatePage_eq_some
    {table : T} {page : Page .size4KiB} {frame : PhysFrame .size4KiB} :
    translatePage table page = some frame ↔
      ∃ flags, entry table .size4KiB page = .leaf frame flags := by
  unfold translatePage
  cases entry table .size4KiB page with
  | unused => simp
  | table => simp
  | leaf held flags => simp [eq_comm]

theorem unmapped_of_empty {table : T} (empty : Empty table)
    (page : Page size) :
    Unmapped table page where
  unused := empty size page
  noHugeParent := by
    intro larger hugeFrame hugeFlags _ huge
    rw [empty larger] at huge
    cases huge

end Effect

section Lawful

variable {T : Type} [Mapper T] [LawfulMapper T]

/-- A small page without a mapping and outside every huge page is unmapped. -/
theorem unmapped_of_no_leaf
    {table : T} {page : Page .size4KiB}
    (noLeaf :
      ∀ size (other : Page size) held given,
        entry table size other = .leaf held given → Apart other page) :
    Unmapped table page where
  unused := by
    cases held : entry table .size4KiB page with
    | unused => rfl
    | table => exact absurd held (LawfulMapper.small_ne_table table page)
    | leaf frame flags =>
        exact absurd rfl (apart_iff_ne.mp (noLeaf _ page frame flags held))
  noHugeParent := by
    intro larger hugeFrame hugeFlags grows huge
    exact not_apart_enclosing page grows (noLeaf larger _ _ _ huge)

/-- A mapped small page translates every address in it. -/
theorem translateAddr_of_leaf
    {table : T} {page : Page .size4KiB} {frame : PhysFrame .size4KiB}
    {flags : PageTableFlags}
    (leaf : entry table .size4KiB page = .leaf frame flags)
    {address : Nat} (inPage : address / 4096 = page.number) :
    translateAddr table address =
      some (frame.startAddress + address % 4096) := by
  have used : entry table .size4KiB page ≠ .unused := by
    rw [leaf]
    simp
  have atGiB :
      enclosing .size1GiB page = ⟨address / PageSize.size1GiB.bytes⟩ := by
    unfold enclosing
    rw [← inPage]
    simp only [PageSize.bytes, Page.mk.injEq]
    omega
  have atMiB :
      enclosing .size2MiB page = ⟨address / PageSize.size2MiB.bytes⟩ := by
    unfold enclosing
    rw [← inPage]
    simp only [PageSize.bytes, Page.mk.injEq]
    omega
  have atKiB : page = ⟨address / PageSize.size4KiB.bytes⟩ := by
    cases page
    simpa [PageSize.bytes] using inPage.symm
  have giB :=
    LawfulMapper.enclosing_table table .size1GiB page used (by decide)
  have miB :=
    LawfulMapper.enclosing_table table .size2MiB page used (by decide)
  rw [atGiB] at giB
  rw [atMiB] at miB
  rw [atKiB] at leaf
  unfold translateAddr
  rw [giB]
  simp only
  rw [miB]
  simp only
  rw [leaf]
  rfl

end Lawful

end RustKernel.Paging
