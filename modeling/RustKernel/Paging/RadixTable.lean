import Mathlib.Data.List.Infix
import RustKernel.Paging.Mapper

/-!
# A radix page table

A four-level table that follows the crate's `map_to`: the walk creates missing
tables from the allocator, adds the flags of the call to the entries on its
way, and fails under a huge page.  It shows that the laws of `LawfulMapper`
can be met, and runs of the loaders are exhibited over it.
-/

namespace RustKernel.Paging

open RustKernel.Foundations
open RustKernel.Machine

/-- A table entry together with the table behind it. -/
inductive Slot where
  | unused
  | leaf (number : Nat) (flags : PageTableFlags)
  | table (frame : PhysFrame .size4KiB) (flags : PageTableFlags)
      (slots : Nat → Slot)

namespace Slot

/-- The entry that a walk along the indices reaches. -/
def follow : Slot → List Nat → Slot
  | slot, [] => slot
  | .table _ _ slots, index :: rest => (slots index).follow rest
  | _, _ :: _ => .unused

@[simp]
theorem follow_nil (slot : Slot) : slot.follow [] = slot := by
  cases slot <;> rfl

@[simp]
theorem follow_unused (path : List Nat) : unused.follow path = .unused := by
  cases path <;> rfl

@[simp]
theorem follow_table
    (frame : PhysFrame .size4KiB) (flags : PageTableFlags)
    (slots : Nat → Slot) (index : Nat) (rest : List Nat) :
    (table frame flags slots).follow (index :: rest) =
      (slots index).follow rest := rfl

@[simp]
theorem follow_leaf
    (number : Nat) (flags : PageTableFlags) (index : Nat) (rest : List Nat) :
    (leaf number flags).follow (index :: rest) = .unused := rfl

/-- The bits of an entry: the address it holds and its flags. -/
def bits (flags : PageTableFlags) : Nat :=
  flags.present.toNat + 2 * flags.writable.toNat +
    4 * flags.userAccessible.toNat

def encode (size : PageSize) : Slot → List UInt8
  | .unused => leBytes 8 0
  | .leaf number flags => leBytes 8 (number * size.bytes + bits flags)
  | .table frame flags _ => leBytes 8 (frame.startAddress + bits flags)

/-- A used entry of the last level maps a frame. -/
def toEntry (size : PageSize) : Slot → Entry size
  | .unused => .unused
  | .leaf number flags => .leaf ⟨number⟩ flags
  | .table frame flags _ =>
      match size with
      | .size4KiB => .leaf frame flags
      | _ => .table

def set (slots : Nat → Slot) (index : Nat) (slot : Slot) : Nat → Slot :=
  fun other => if other = index then slot else slots other

@[simp]
theorem set_same (slots : Nat → Slot) (index : Nat) (slot : Slot) :
    set slots index slot index = slot := by
  simp [set]

theorem set_other {slots : Nat → Slot} {index other : Nat} {slot : Slot}
    (different : other ≠ index) :
    set slots index slot other = slots other := by
  simp [set, different]

end Slot

def PageTableFlags.union (left right : PageTableFlags) : PageTableFlags where
  present := left.present || right.present
  writable := left.writable || right.writable
  userAccessible := left.userAccessible || right.userAccessible

/-! ## Mapping below an entry -/

structure SlotOutcome (size : PageSize) where
  result : Except (MapToError size) Unit
  slot : Slot
  allocator : FrameAllocator
  stores : List (Store Unit)

/-- The store that rewrites one of the 512 entries of a table. -/
def entryStore (size : PageSize)
    (home : PhysFrame .size4KiB) (index : Nat) (slot : Slot) : Store Unit :=
  ⟨(), home.startAddress + 8 * (index % 512), slot.encode size⟩

/-- `PageTable::zero`. -/
def zeroStore (home : PhysFrame .size4KiB) : Store Unit :=
  ⟨(), home.startAddress, List.replicate 4096 0⟩

def SlotOutcome.under {size : PageSize} (outcome : SlotOutcome size)
    (home : PhysFrame .size4KiB) (flags : PageTableFlags)
    (slots : Nat → Slot) (index : Nat) : SlotOutcome size where
  result := outcome.result
  slot := .table home flags (Slot.set slots index outcome.slot)
  allocator := outcome.allocator
  stores := outcome.stores ++ [entryStore size home index outcome.slot]

/-- `map_to` along a path of indices. -/
def mapAlong {size : PageSize} (frame : PhysFrame size)
    (flags : PageTableFlags) :
    List Nat → Slot → FrameAllocator → SlotOutcome size
  | [], .unused, supply => ⟨.ok (), .leaf frame.number flags, supply, []⟩
  | [], slot, supply => ⟨.error (.pageAlreadyMapped frame), slot, supply, []⟩
  | _ :: _, .leaf number old, supply =>
      ⟨.error .parentEntryHugePage, .leaf number (old.union flags), supply, []⟩
  | index :: rest, .table home old slots, supply =>
      (mapAlong frame flags rest (slots index) supply).under home
        (old.union flags) slots index
  | index :: rest, .unused, supply =>
      match supply.allocateFrame with
      | (none, supply) =>
          ⟨.error .frameAllocationFailed, .unused, supply, []⟩
      | (some home, supply) =>
          let below :=
            (mapAlong frame flags rest .unused supply).under home flags
              (fun _ => .unused) index
          { below with stores := zeroStore home :: below.stores }

/-- The frames of the tables at and below an entry. -/
def Slot.tables (slot : Slot) : Set (PhysFrame .size4KiB) :=
  { frame | ∃ path flags slots, slot.follow path = .table frame flags slots }

/-- The effect of `mapAlong`, entry by entry. -/
structure SlotEffect {size : PageSize} (path : List Nat)
    (frame : PhysFrame size) (flags : PageTableFlags)
    (before : Slot) (supply : FrameAllocator) (outcome : SlotOutcome size) :
    Prop where
  advances : supply.Advances outcome.allocator
  drawnBound : outcome.allocator.drawn ≤ supply.drawn + path.length
  mapped :
    outcome.result = .ok () →
      before.follow path = .unused ∧
        outcome.slot.follow path = .leaf frame.number flags
  targetKept :
    outcome.result ≠ .ok () →
      outcome.slot.follow path = before.follow path
  offPath :
    ∀ other, ¬ other <+: path →
      outcome.slot.follow other = before.follow other
  onPath :
    ∀ other, other <+: path → other ≠ path →
      outcome.slot.follow other = before.follow other ∨
      (before.follow other = .unused ∧
        ∃ home given slots,
          supply.Answered outcome.allocator (some home) ∧
            outcome.slot.follow other = .table home given slots) ∨
      (∃ home old oldSlots new newSlots,
        before.follow other = .table home old oldSlots ∧
          outcome.slot.follow other = .table home new newSlots) ∨
      (outcome.result = .error .parentEntryHugePage ∧
        ∃ number old new,
          before.follow other = .leaf number old ∧
            outcome.slot.follow other = .leaf number new)
  alreadyMapped :
    ∀ taken, outcome.result = .error (.pageAlreadyMapped taken) →
      before.follow path ≠ .unused
  hugeParent :
    outcome.result = .error .parentEntryHugePage →
      ∃ other number old, other <+: path ∧ other ≠ path ∧
        before.follow other = .leaf number old
  allocationFailed :
    outcome.result = .error .frameAllocationFailed →
      supply.Answered outcome.allocator none
  storesInTables :
    ∀ store ∈ outcome.stores, ∀ target, store.Covers target →
      ∃ held ∈ outcome.slot.tables, held.Holds target

section Effects

variable {size : PageSize} {frame : PhysFrame size} {flags : PageTableFlags}

theorem slotEffect_nil (slot : Slot) (supply : FrameAllocator) :
    SlotEffect [] frame flags slot supply
      (mapAlong frame flags [] slot supply) := by
  cases slot with
  | unused =>
      constructor <;> simp [mapAlong, FrameAllocator.Advances.refl]
      intro other nonempty
      cases other with
      | nil => exact absurd rfl nonempty
      | cons index rest => rfl
  | leaf number old =>
      constructor <;> simp [mapAlong, FrameAllocator.Advances.refl]
  | table home old slots =>
      constructor <;> simp [mapAlong, FrameAllocator.Advances.refl]

theorem slotEffect_hugeParent
    (index : Nat) (rest : List Nat) (number : Nat) (old : PageTableFlags)
    (supply : FrameAllocator) :
    SlotEffect (index :: rest) frame flags (.leaf number old) supply
      (mapAlong frame flags (index :: rest) (.leaf number old) supply) where
  advances := FrameAllocator.Advances.refl supply
  drawnBound := Nat.le_add_right _ _
  mapped := by simp [mapAlong]
  targetKept := by simp [mapAlong]
  offPath := by
    intro other notPrefix
    cases other with
    | nil => exact absurd ( List.nil_prefix) notPrefix
    | cons first path => rfl
  onPath := by
    intro other _ _
    cases other with
    | nil =>
        exact Or.inr (Or.inr (Or.inr ⟨rfl, number, old, _, rfl, rfl⟩))
    | cons first path => exact Or.inl rfl
  alreadyMapped := by simp [mapAlong]
  hugeParent := by
    intro _
    exact ⟨[], number, old, List.nil_prefix, by simp, rfl⟩
  allocationFailed := by simp [mapAlong]
  storesInTables := by simp [mapAlong]

theorem entryStore_inside {size : PageSize}
    (home : PhysFrame .size4KiB) (index : Nat) (slot : Slot)
    {target : Nat} (covered : (entryStore size home index slot).Covers target) :
    home.Holds target := by
  have width : (slot.encode size).length = 8 := by
    cases slot <;> simp [Slot.encode]
  simp only [entryStore, Store.Covers, width] at covered
  have bound : index % 512 < 512 := Nat.mod_lt _ (by decide)
  simp only [PhysFrame.Holds, PageSize.bytes]
  omega

theorem zeroStore_inside
    (home : PhysFrame .size4KiB)
    {target : Nat} (covered : (zeroStore home).Covers target) :
    home.Holds target := by
  simp only [zeroStore, Store.Covers, List.length_replicate] at covered
  simp only [PhysFrame.Holds, PageSize.bytes]
  omega

/-- The effect below one entry of a table, seen from the entry that holds the
table or is about to. -/
theorem SlotEffect.under
    {rest : List Nat} {index : Nat} {slots : Nat → Slot} {before : Slot}
    {first supply : FrameAllocator} {inner : SlotOutcome size}
    {home : PhysFrame .size4KiB} {given : PageTableFlags}
    (effect : SlotEffect rest frame flags (slots index) supply inner)
    (advanced : first.Advances supply)
    (drawnBound : supply.drawn ≤ first.drawn + 1)
    (below :
      ∀ other path, before.follow (other :: path) = (slots other).follow path)
    (here :
      (∃ old, before = .table home old slots) ∨
        before = .unused ∧ first.Answered inner.allocator (some home)) :
    SlotEffect (index :: rest) frame flags before first
      (inner.under home given slots index) where
  advances := advanced.trans effect.advances
  drawnBound := by
    have innerBound := effect.drawnBound
    simp only [SlotOutcome.under, List.length_cons]
    omega
  mapped := by
    intro succeeded
    rw [below]
    simpa [SlotOutcome.under] using effect.mapped succeeded
  targetKept := by
    intro failed
    rw [below]
    simpa [SlotOutcome.under] using effect.targetKept failed
  offPath := by
    intro other notPrefix
    cases other with
    | nil => exact absurd ( List.nil_prefix) notPrefix
    | cons first path =>
        rw [below]
        simp only [SlotOutcome.under, Slot.follow_table]
        by_cases same : first = index
        · subst same
          rw [Slot.set_same]
          apply effect.offPath
          intro isPrefix
          exact notPrefix (List.cons_prefix_cons.mpr ⟨rfl, isPrefix⟩)
        · rw [Slot.set_other same]
  onPath := by
    intro other isPrefix proper
    cases other with
    | nil =>
        rcases here with ⟨old, rfl⟩ | ⟨rfl, answered⟩
        · right; right; left
          exact ⟨home, old, slots, given, _, rfl, rfl⟩
        · right; left
          exact ⟨rfl, home, given, _, answered, rfl⟩
    | cons first path =>
        rw [List.cons_prefix_cons] at isPrefix
        obtain ⟨rfl, isPrefix⟩ := isPrefix
        have properRest : path ≠ rest := by
          rintro rfl
          exact proper rfl
        rw [below]
        simp only [SlotOutcome.under, Slot.follow_table, Slot.set_same]
        rcases effect.onPath path isPrefix properRest with
          kept | ⟨wasUnused, created, new, newSlots, answered, nowTable⟩ |
            tables | huge
        · exact Or.inl kept
        · exact Or.inr (Or.inl ⟨wasUnused, created, new, newSlots,
            FrameAllocator.Answered.later advanced answered, nowTable⟩)
        · exact Or.inr (Or.inr (Or.inl tables))
        · exact Or.inr (Or.inr (Or.inr huge))
  alreadyMapped := by
    intro taken failed
    rw [below]
    exact effect.alreadyMapped taken failed
  hugeParent := by
    intro failed
    obtain ⟨other, number, old, isPrefix, proper, huge⟩ :=
      effect.hugeParent failed
    refine ⟨index :: other, number, old,
      List.cons_prefix_cons.mpr ⟨rfl, isPrefix⟩, ?_, ?_⟩
    · simpa using proper
    · rw [below]
      exact huge
  allocationFailed := by
    intro failed
    exact FrameAllocator.Answered.later advanced
      (effect.allocationFailed failed)
  storesInTables := by
    intro store member target covered
    rcases List.mem_append.mp member with earlier | last
    · obtain ⟨held, ⟨path, heldFlags, heldSlots, found⟩, inside⟩ :=
        effect.storesInTables store earlier target covered
      refine ⟨held, ⟨index :: path, heldFlags, heldSlots, ?_⟩, inside⟩
      simpa [SlotOutcome.under] using found
    · rw [List.mem_singleton] at last
      subst last
      exact ⟨home, ⟨[], _, _, rfl⟩, entryStore_inside home index _ covered⟩

theorem SlotEffect.cons_store
    {path : List Nat} {before : Slot} {supply : FrameAllocator}
    {outcome : SlotOutcome size} {store : Store Unit}
    (effect : SlotEffect path frame flags before supply outcome)
    (inside :
      ∀ target, store.Covers target →
        ∃ held ∈ outcome.slot.tables, held.Holds target) :
    SlotEffect path frame flags before supply
      { outcome with stores := store :: outcome.stores } :=
  { effect with
    storesInTables := by
      intro other member target covered
      rcases List.mem_cons.mp member with rfl | later
      · exact inside target covered
      · exact effect.storesInTables other later target covered }

theorem mapAlong_effect
    (path : List Nat) (slot : Slot) (supply : FrameAllocator) :
    SlotEffect path frame flags slot supply
      (mapAlong frame flags path slot supply) := by
  induction path generalizing slot supply with
  | nil => exact slotEffect_nil slot supply
  | cons index rest inductionHypothesis =>
      cases slot with
      | leaf number old =>
          exact slotEffect_hugeParent index rest number old supply
      | table home old slots =>
          exact (inductionHypothesis (slots index) supply).under
            (FrameAllocator.Advances.refl supply) (Nat.le_succ _)
            (fun _ _ => rfl) (Or.inl ⟨old, rfl⟩)
      | unused =>
          have advanced :
              supply.Advances { supply with drawn := supply.drawn + 1 } :=
            ⟨rfl, Nat.le_succ _⟩
          cases answer : supply.answers supply.drawn with
          | none =>
              have failed :
                  supply.Answered { supply with drawn := supply.drawn + 1 }
                    none :=
                ⟨supply.drawn, Nat.le_refl _, Nat.lt_succ_self _, answer⟩
              constructor <;>
                simp [mapAlong, FrameAllocator.allocateFrame, answer, advanced,
                  failed]
          | some home =>
              have effect :=
                inductionHypothesis .unused
                  { supply with drawn := supply.drawn + 1 }
              have answered :
                  supply.Answered
                    (mapAlong frame flags rest .unused
                      { supply with drawn := supply.drawn + 1 }).allocator
                    (some home) := by
                have drawn := effect.advances.drawn_le
                exact ⟨supply.drawn, Nat.le_refl _, drawn, answer⟩
              simp only [mapAlong, FrameAllocator.allocateFrame, answer]
              apply SlotEffect.cons_store
              · exact effect.under advanced (Nat.le_refl _) (by simp)
                  (Or.inr ⟨rfl, answered⟩)
              · intro target covered
                exact ⟨home, ⟨[], _, _, rfl⟩, zeroStore_inside home covered⟩

theorem SlotEffect.tables_kept
    {path : List Nat} {before : Slot} {supply : FrameAllocator}
    {outcome : SlotOutcome size}
    (effect : SlotEffect path frame flags before supply outcome)
    {held : PhysFrame .size4KiB} (kept : held ∈ before.tables) :
    held ∈ outcome.slot.tables := by
  obtain ⟨other, old, slots, found⟩ := kept
  by_cases isPrefix : other <+: path
  · by_cases same : other = path
    · subst same
      have failed : outcome.result ≠ .ok () := by
        intro succeeded
        rw [(effect.mapped succeeded).1] at found
        cases found
      exact ⟨other, old, slots, by rw [effect.targetKept failed, found]⟩
    · rcases effect.onPath other isPrefix same with
        kept | ⟨wasUnused, _⟩ | ⟨home, was, wasSlots, new, newSlots, before_eq, after_eq⟩ |
          ⟨_, _, _, _, wasLeaf, _⟩
      · exact ⟨other, old, slots, by rw [kept, found]⟩
      · rw [found] at wasUnused
        cases wasUnused
      · rw [found] at before_eq
        cases before_eq
        exact ⟨other, new, newSlots, after_eq⟩
      · rw [found] at wasLeaf
        cases wasLeaf
  · exact ⟨other, old, slots, by rw [effect.offPath other isPrefix, found]⟩

theorem SlotEffect.tables_drawn
    {path : List Nat} {before : Slot} {supply : FrameAllocator}
    {outcome : SlotOutcome size}
    (effect : SlotEffect path frame flags before supply outcome)
    {held : PhysFrame .size4KiB} (now : held ∈ outcome.slot.tables) :
    held ∈ before.tables ∨ supply.Answered outcome.allocator (some held) := by
  obtain ⟨other, given, slots, found⟩ := now
  by_cases isPrefix : other <+: path
  · by_cases same : other = path
    · subst same
      have failed : outcome.result ≠ .ok () := by
        intro succeeded
        rw [(effect.mapped succeeded).2] at found
        cases found
      rw [effect.targetKept failed] at found
      exact Or.inl ⟨other, given, slots, found⟩
    · rcases effect.onPath other isPrefix same with
        kept | ⟨_, home, new, newSlots, answered, nowTable⟩ |
          ⟨home, was, wasSlots, new, newSlots, before_eq, after_eq⟩ |
          ⟨_, _, _, _, _, nowLeaf⟩
      · rw [kept] at found
        exact Or.inl ⟨other, given, slots, found⟩
      · rw [found] at nowTable
        cases nowTable
        exact Or.inr answered
      · rw [found] at after_eq
        cases after_eq
        exact Or.inl ⟨other, was, wasSlots, before_eq⟩
      · rw [found] at nowLeaf
        cases nowLeaf
  · rw [effect.offPath other isPrefix] at found
    exact Or.inl ⟨other, given, slots, found⟩

end Effects

/-! ## Indices of a page -/

/-- The index of a page in the top level. -/
def topIndex {size : PageSize} (page : Page size) : Nat :=
  page.number * size.bytes / (4096 * 512 * 512 * 512)

/-- The indices of a page below the top level. -/
def indices : {size : PageSize} → Page size → List Nat
  | .size4KiB, page =>
      [page.number / (512 * 512) % 512, page.number / 512 % 512,
        page.number % 512]
  | .size2MiB, page => [page.number / 512 % 512, page.number % 512]
  | .size1GiB, page => [page.number % 512]

theorem indices_ne_nil {size : PageSize} (page : Page size) :
    indices page ≠ [] := by
  cases size <;> simp [indices]

theorem indices_length_le {size : PageSize} (page : Page size) :
    (indices page).length ≤ 3 := by
  cases size <;> simp [indices]

theorem eq_of_indices {size : PageSize} {left right : Page size}
    (top : topIndex left = topIndex right)
    (same : indices left = indices right) :
    left = right := by
  cases left with
  | mk left =>
      cases right with
      | mk right =>
          cases size <;>
            simp only [topIndex, indices, PageSize.bytes, List.cons.injEq,
              and_true, Page.mk.injEq] at top same ⊢ <;> omega

theorem length_eq_of_same_size {size : PageSize} (left right : Page size) :
    (indices left).length = (indices right).length := by
  cases size <;> rfl

theorem indices_enclosing {size larger : PageSize} (page : Page size)
    (grows : size.bytes < larger.bytes) :
    topIndex (enclosing larger page) = topIndex page ∧
      indices (enclosing larger page) <+: indices page ∧
      indices (enclosing larger page) ≠ indices page := by
  cases size <;> cases larger <;>
    simp only [topIndex, enclosing, indices, PageSize.bytes,
      List.cons_prefix_cons, List.nil_prefix, and_true, ne_eq,
      List.cons.injEq, reduceCtorEq, and_false, not_false_eq_true]
      at grows ⊢ <;> omega

theorem eq_enclosing_of_indices {size size' : PageSize}
    {page : Page size} {other : Page size'}
    (top : topIndex other = topIndex page)
    ( isPrefix : indices other <+: indices page) (different : size' ≠ size) :
    size.bytes < size'.bytes ∧ other = enclosing size' page := by
  cases page with
  | mk number =>
      cases other with
      | mk otherNumber =>
          cases size <;> cases size' <;>
            simp only [topIndex, enclosing, indices, PageSize.bytes,
              List.cons_prefix_cons, List.nil_prefix, List.prefix_nil,
              and_true, Page.mk.injEq, ne_eq, reduceCtorEq, and_false,
              not_true_eq_false] at top isPrefix different ⊢ <;> omega

/-- A page inside which the walk to a smaller page stops. -/
theorem exists_enclosing_of_prefix {size : PageSize} {page : Page size}
    {path : List Nat} ( isPrefix : path <+: indices page)
    (proper : path ≠ indices page) (nonempty : path ≠ []) :
    ∃ larger : PageSize, size.bytes < larger.bytes ∧
      indices (enclosing larger page) = path ∧
      topIndex (enclosing larger page) = topIndex page := by
  have shorter : path.length < (indices page).length := by
    apply Nat.lt_of_le_of_ne isPrefix.length_le
    intro sameLength
    exact proper (isPrefix.eq_of_length sameLength)
  have positive : 0 < path.length := List.length_pos_iff.mpr nonempty
  have taken := List.prefix_iff_eq_take.mp isPrefix
  cases size with
  | size1GiB =>
      simp only [indices, List.length_singleton] at shorter
      omega
  | size2MiB =>
      simp only [indices, List.length_cons, List.length_nil] at shorter
      have length : path.length = 1 := by omega
      refine ⟨.size1GiB, by decide, ?_,
        (indices_enclosing page (by decide)).1⟩
      rw [taken, length]
      simp only [indices, enclosing, PageSize.bytes, List.take_succ_cons,
        List.take_zero, List.cons.injEq, and_true]
      omega
  | size4KiB =>
      simp only [indices, List.length_cons, List.length_nil] at shorter
      have length : path.length = 1 ∨ path.length = 2 := by omega
      rcases length with length | length
      · refine ⟨.size1GiB, by decide, ?_,
          (indices_enclosing page (by decide)).1⟩
        rw [taken, length]
        simp only [indices, enclosing, PageSize.bytes, List.take_succ_cons,
          List.take_zero, List.cons.injEq, and_true]
        omega
      · refine ⟨.size2MiB, by decide, ?_,
          (indices_enclosing page (by decide)).1⟩
        rw [taken, length]
        simp only [indices, enclosing, PageSize.bytes, List.take_succ_cons,
          List.take_zero, List.cons.injEq, and_true]
        omega

/-! ## The table -/

/-- A table whose top level, as the architecture has it, maps no page. -/
structure RadixTable where
  root : PhysFrame .size4KiB
  slots : Nat → Slot
  noHugeTop : ∀ index number flags, slots index ≠ .leaf number flags

/-- `PageTable::new`, stored in the given frame. -/
def RadixTable.new (root : PhysFrame .size4KiB) : RadixTable where
  root := root
  slots := fun _ => .unused
  noHugeTop := by simp

theorem mapAlong_ne_leaf
    {size : PageSize} {frame : PhysFrame size} {flags : PageTableFlags}
    {path : List Nat} {slot : Slot} {supply : FrameAllocator}
    (nonempty : path ≠ []) (notLeaf : ∀ number old, slot ≠ .leaf number old)
    (number : Nat) (new : PageTableFlags) :
    (mapAlong frame flags path slot supply).slot ≠ .leaf number new := by
  cases path with
  | nil => exact absurd rfl nonempty
  | cons index rest =>
      cases slot with
      | leaf held old => exact absurd rfl (notLeaf held old)
      | table home old slots => simp [mapAlong, SlotOutcome.under]
      | unused =>
          cases answer : supply.answers supply.drawn with
          | none => simp [mapAlong, FrameAllocator.allocateFrame, answer]
          | some home =>
              simp [mapAlong, FrameAllocator.allocateFrame, answer,
                SlotOutcome.under]

namespace RadixTable

/-- The walk to the entry of a page. -/
def slotOf {size : PageSize} (table : RadixTable) (page : Page size) : Slot :=
  (table.slots (topIndex page)).follow (indices page)

def mapPage {size : PageSize} (page : Page size) (frame : PhysFrame size)
    (flags : PageTableFlags) (table : RadixTable) (supply : FrameAllocator) :
    MapOutcome RadixTable size :=
  let below :=
    mapAlong frame flags (indices page) (table.slots (topIndex page)) supply
  { result := below.result
    table :=
      { root := table.root
        slots := Slot.set table.slots (topIndex page) below.slot
        noHugeTop := by
          intro index number old
          by_cases same : index = topIndex page
          · rw [same, Slot.set_same]
            exact mapAlong_ne_leaf (indices_ne_nil page)
              (table.noHugeTop _) number old
          · rw [Slot.set_other same]
            exact table.noHugeTop index number old }
    allocator := below.allocator
    stores :=
      below.stores ++
        [entryStore size table.root (topIndex page) below.slot] }

instance : Mapper RadixTable where
  entry table size page := (table.slotOf page).toEntry size
  tableFrames table :=
    { frame | frame = table.root ∨
      ∃ index, frame ∈ (table.slots index).tables }
  mapTo := mapPage

theorem entry_eq {size : PageSize} (table : RadixTable) (page : Page size) :
    entry table size page = (table.slotOf page).toEntry size := rfl

theorem new_empty (root : PhysFrame .size4KiB) : Empty (new root) := by
  intro size page
  simp [entry_eq, slotOf, new, Slot.toEntry]

theorem mem_tableFrames_new {root frame : PhysFrame .size4KiB} :
    frame ∈ tableFrames (new root) ↔ frame = root := by
  constructor
  · rintro (isRoot | ⟨index, path, flags, slots, found⟩)
    · exact isRoot
    · rw [new, Slot.follow_unused] at found
      cases found
  · exact Or.inl

section MapPage

variable {size : PageSize} (page : Page size) (frame : PhysFrame size)
variable (flags : PageTableFlags) (table : RadixTable)
variable (supply : FrameAllocator)

theorem slotOf_mapPage_of_top_ne {size' : PageSize} {other : Page size'}
    (different : topIndex other ≠ topIndex page) :
    (mapPage page frame flags table supply).table.slotOf other =
      table.slotOf other := by
  simp only [slotOf, mapPage]
  rw [Slot.set_other different]

theorem slotOf_mapPage_of_top_eq {size' : PageSize} {other : Page size'}
    (same : topIndex other = topIndex page) :
    (mapPage page frame flags table supply).table.slotOf other =
      (mapAlong frame flags (indices page) (table.slots (topIndex page))
        supply).slot.follow (indices other) := by
  simp only [slotOf, mapPage]
  rw [same, Slot.set_same]

theorem slotOf_mapPage_off_path {size' : PageSize} {other : Page size'}
    (offPath :
      topIndex other = topIndex page → ¬ indices other <+: indices page) :
    (mapPage page frame flags table supply).table.slotOf other =
      table.slotOf other := by
  by_cases same : topIndex other = topIndex page
  · rw [slotOf_mapPage_of_top_eq page frame flags table supply same,
      (mapAlong_effect _ _ _).offPath _ (offPath same), ← same]
    rfl
  · exact slotOf_mapPage_of_top_ne page frame flags table supply same

/-- Entries of another size, in terms of the walk. -/
theorem mapPage_otherSize
    {size' : PageSize} (other : Page size') (different : size' ≠ size) :
    let outcome := mapPage page frame flags table supply
    entry outcome.table size' other = entry table size' other ∨
      size.bytes < size'.bytes ∧ other = enclosing size' page ∧
        (entry table size' other = .unused ∧
            entry outcome.table size' other = .table ∨
          outcome.result = .error .parentEntryHugePage ∧
            ∃ hugeFrame old new,
              entry table size' other = .leaf hugeFrame old ∧
                entry outcome.table size' other = .leaf hugeFrame new) := by
  intro outcome
  by_cases onPath :
      topIndex other = topIndex page ∧ indices other <+: indices page
  · obtain ⟨top, isPrefix⟩ := onPath
    obtain ⟨grows, around⟩ := eq_enclosing_of_indices top isPrefix different
    have large : size' ≠ .size4KiB := by
      rintro rfl
      cases size <;> simp [PageSize.bytes] at grows
    have tableEntry :
        ∀ home given slots,
          (Slot.table home given slots).toEntry size' = .table := by
      intro home given slots
      cases size' with
      | size4KiB => exact absurd rfl large
      | size2MiB => rfl
      | size1GiB => rfl
    have proper : indices other ≠ indices page := by
      rw [around]
      exact (indices_enclosing page grows).2.2
    have walked :=
      slotOf_mapPage_of_top_eq page frame flags table supply top
    have before :
        table.slotOf other =
          (table.slots (topIndex page)).follow (indices other) := by
      rw [slotOf, top]
    simp only [entry_eq, outcome, walked, before]
    rcases (mapAlong_effect (indices page) (table.slots (topIndex page))
        supply).onPath _ isPrefix proper with
      kept | ⟨wasUnused, home, given, slots, _, nowTable⟩ |
        ⟨home, old, oldSlots, new, newSlots, wasTable, nowTable⟩ |
        ⟨failed, number, old, new, wasLeaf, nowLeaf⟩
    · exact Or.inl (by rw [kept])
    · refine Or.inr ⟨grows, around, Or.inl ⟨?_, ?_⟩⟩
      · rw [wasUnused, Slot.toEntry]
      · rw [nowTable, tableEntry]
    · exact Or.inl (by rw [nowTable, wasTable, tableEntry, tableEntry])
    · refine Or.inr ⟨grows, around, Or.inr ⟨failed, ⟨number⟩, old, new, ?_, ?_⟩⟩
      · rw [wasLeaf, Slot.toEntry]
      · rw [nowLeaf, Slot.toEntry]
  · left
    rw [entry_eq, entry_eq, slotOf_mapPage_off_path]
    intro top isPrefix
    exact onPath ⟨top, isPrefix⟩

theorem mapPage_hugeParent
    (failed :
      (mapPage page frame flags table supply).result =
        .error .parentEntryHugePage) :
    ∃ larger hugeFrame hugeFlags, size.bytes < larger.bytes ∧
      entry table larger (enclosing larger page) =
        .leaf hugeFrame hugeFlags := by
  obtain ⟨path, number, old, isPrefix, proper, found⟩ :=
    (mapAlong_effect (indices page) (table.slots (topIndex page))
      supply).hugeParent failed
  have nonempty : path ≠ [] := by
    rintro rfl
    rw [Slot.follow_nil] at found
    exact table.noHugeTop _ number old found
  obtain ⟨larger, grows, rfl, top⟩ :=
    exists_enclosing_of_prefix isPrefix proper nonempty
  refine ⟨larger, ⟨number⟩, old, grows, ?_⟩
  rw [entry_eq, slotOf, top, found, Slot.toEntry]

theorem mapPage_effect :
    MapToEffect page frame flags table supply
      (mapTo page frame flags table supply) := by
  have effect :
      SlotEffect (indices page) frame flags (table.slots (topIndex page))
        supply
        (mapAlong frame flags (indices page) (table.slots (topIndex page))
          supply) :=
    mapAlong_effect _ _ _
  have walked :=
    slotOf_mapPage_of_top_eq page frame flags table supply rfl
  constructor
  case advances => exact effect.advances
  case atMostThree =>
    have bound := effect.drawnBound
    have short := indices_length_le page
    change (mapAlong _ _ _ _ _).allocator.drawn ≤ _
    omega
  case mapped =>
    intro succeeded
    have both := effect.mapped succeeded
    change (table.slotOf page).toEntry size = _ ∧
      ((mapPage page frame flags table supply).table.slotOf page).toEntry size =
        _
    rw [walked, slotOf, both.1, both.2]
    exact ⟨rfl, rfl⟩
  case targetKept =>
    intro failed
    change ((mapPage page frame flags table supply).table.slotOf page).toEntry
      size = _
    rw [walked, effect.targetKept failed]
    rfl
  case sameSizeKept =>
    intro other different
    change ((mapPage page frame flags table supply).table.slotOf other).toEntry
      size = _
    rw [slotOf_mapPage_off_path]
    · rfl
    · intro top isPrefix
      apply different
      exact eq_of_indices top
        (isPrefix.eq_of_length (length_eq_of_same_size other page))
  case otherSize =>
    intro size' other different
    exact mapPage_otherSize page frame flags table supply other different
  case alreadyMapped =>
    intro taken failed unused
    have used := effect.alreadyMapped taken failed
    change (table.slotOf page).toEntry size = _ at unused
    change table.slotOf page ≠ _ at used
    cases found : table.slotOf page with
    | unused => exact used found
    | leaf number old => simp [found, Slot.toEntry] at unused
    | table home old slots =>
        rw [found] at unused
        cases size <;> simp [Slot.toEntry] at unused
  case hugeParent => exact mapPage_hugeParent page frame flags table supply
  case allocationFailed => exact effect.allocationFailed
  case tablesKept =>
    rintro kept (rfl | ⟨index, held⟩)
    · exact Or.inl rfl
    · refine Or.inr ⟨index, ?_⟩
      change kept ∈ (Slot.set table.slots _ _ index).tables
      by_cases same : index = topIndex page
      · subst same
        rw [Slot.set_same]
        exact effect.tables_kept held
      · rw [Slot.set_other same]
        exact held
  case tablesDrawn =>
    rintro held (rfl | ⟨index, found⟩)
    · exact Or.inl (Or.inl rfl)
    · change held ∈ (Slot.set table.slots _ _ index).tables at found
      by_cases same : index = topIndex page
      · subst same
        rw [Slot.set_same] at found
        rcases effect.tables_drawn found with before | answered
        · exact Or.inl (Or.inr ⟨_, before⟩)
        · exact Or.inr answered
      · rw [Slot.set_other same] at found
        exact Or.inl (Or.inr ⟨index, found⟩)
  case storesInTables =>
    intro store member target covered
    rcases List.mem_append.mp member with below | last
    · obtain ⟨held, found, inside⟩ :=
        effect.storesInTables store below target covered
      refine ⟨held, Or.inr ⟨topIndex page, ?_⟩, inside⟩
      change held ∈ (Slot.set table.slots _ _ (topIndex page)).tables
      rw [Slot.set_same]
      exact found
    · rw [List.mem_singleton] at last
      subst last
      exact ⟨table.root, Or.inl rfl, entryStore_inside _ _ _ covered⟩

end MapPage

theorem follow_append (slot : Slot) (front back : List Nat) :
    slot.follow (front ++ back) = (slot.follow front).follow back := by
  induction front generalizing slot with
  | nil => simp
  | cons index rest inductionHypothesis =>
      cases slot with
      | unused => simp
      | leaf number flags => simp
      | table frame flags slots =>
          rw [List.cons_append, Slot.follow_table, Slot.follow_table,
            inductionHypothesis]

theorem follow_eq_table {slot : Slot} {back : List Nat}
    (nonempty : back ≠ []) (used : slot.follow back ≠ .unused) :
    ∃ frame flags slots, slot = .table frame flags slots := by
  cases back with
  | nil => exact absurd rfl nonempty
  | cons index rest =>
      cases slot with
      | unused => exact absurd rfl used
      | leaf number flags => exact absurd rfl used
      | table frame flags slots => exact ⟨frame, flags, slots, rfl⟩

instance : LawfulMapper RadixTable where
  small_ne_table := by
    intro table page
    rw [entry_eq]
    cases table.slotOf page <;> simp [Slot.toEntry]
  enclosing_table := by
    intro table size larger page used grows
    obtain ⟨top, ⟨back, joined⟩, proper⟩ := indices_enclosing page grows
    have nonempty : back ≠ [] := by
      rintro rfl
      exact proper (by simpa using joined)
    have walkedUsed :
        ((table.slots (topIndex page)).follow
          (indices (enclosing larger page))).follow back ≠ .unused := by
      intro unused
      apply used
      rw [entry_eq, slotOf, ← joined, follow_append, unused, Slot.toEntry]
    obtain ⟨frame, flags, slots, found⟩ := follow_eq_table nonempty walkedUsed
    rw [entry_eq, slotOf, top, found]
    cases larger with
    | size4KiB => cases size <;> simp [PageSize.bytes] at grows
    | size2MiB => rfl
    | size1GiB => rfl
  mapTo_effect := by
    intro table supply size page frame flags _
    exact mapPage_effect page frame flags table supply

end RadixTable

end RustKernel.Paging
