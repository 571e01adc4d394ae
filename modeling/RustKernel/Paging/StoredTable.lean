import RustKernel.Paging.RadixTable

/-!
# Tables in the memory that they describe

A page table is stored in frames of physical memory, and a write to one of
those frames changes what the processor reads from the table.  `StoredMapper`
is the table that is left behind a write; a write elsewhere leaves the table
alone.  The entries of a `RadixTable` are taken apart into their eight bytes
and put together again.
-/

namespace RustKernel.Paging

open RustKernel.Foundations
open RustKernel.Machine

/-- What a write to physical memory makes of a table. -/
class StoredMapper (T : Type) extends Mapper T where
  struck : Store Unit → T → T

export StoredMapper (struck)

/-- The processor reads a table from the frames that store it, and from no
other memory. -/
class LawfulStoredMapper (T : Type) [StoredMapper T] : Prop where
  struck_elsewhere :
    ∀ (store : Store Unit) (table : T),
      (∀ held ∈ tableFrames table, ∀ target, store.Covers target →
        ¬ held.Holds target) →
      struck store table = table

/-! ## The entries of a radix table -/

namespace Slot

/-- The flags in the low bits of an entry. -/
def flagsOf (value : Nat) : PageTableFlags :=
  ⟨value.testBit 0, value.testBit 1, value.testBit 2⟩

/-- An entry that leads to another table keeps the slots behind it if it still
leads there; an entry that leads elsewhere is taken for an unused one. -/
def decodeTable (value : Nat) : Slot → Slot
  | .table frame _ slots =>
      if value / 4096 % 2 ^ 40 = frame.number then
        .table frame (flagsOf value) slots
      else .unused
  | _ => .unused

/-- The entry of a table whose entries map pages of the size. -/
def decode (size : PageSize) (value : Nat) (old : Slot) : Slot :=
  if value = 0 then .unused
  else if size = .size4KiB ∨ value.testBit 7 then
    .leaf (value % 2 ^ 52 / size.bytes) (flagsOf value)
  else decodeTable value old

/-- The eight bytes of an entry; bit 7 marks the huge pages. -/
def word (size : PageSize) : Slot → List UInt8
  | .leaf number flags =>
      let huge := if size = .size4KiB then 0 else 128
      leBytes 8 (number * size.bytes + huge + bits flags)
  | slot => slot.encode size

/-- The bytes of an entry behind a write, as a number. -/
def wordAfter (size : PageSize) (store : Store Unit) (address : Nat)
    (slot : Slot) : Nat :=
  let memory := store.apply fun target =>
    ((slot.word size)[target - address]?).getD 0
  leValue ((List.range 8).map fun index => memory (address + index))

/-- The write covers a byte of the entry at the address. -/
def Reaches (store : Store Unit) (address : Nat) : Prop :=
  ∃ index < 8, store.Covers (address + index)

instance (store : Store Unit) (address : Nat) :
    Decidable (Reaches store address) :=
  inferInstanceAs (Decidable (∃ index < 8, _))

/-- Where the entry at an index of the table in the frame is. -/
def entryAddress (home : PhysFrame .size4KiB) (index : Nat) : Nat :=
  home.startAddress + 8 * (index % 512)

/-- The entry at an index of the table in the frame, behind a write. -/
def entryAfter (store : Store Unit) (home : PhysFrame .size4KiB)
    (index : Nat) (size : PageSize)
    (decoded : Nat → Slot → Slot) (slot : Slot) : Slot :=
  if Reaches store (entryAddress home index) then
    decoded (slot.wordAfter size store (entryAddress home index)) slot
  else slot

/-- The pages that the entries of the tables one level down map. -/
def smaller : PageSize → PageSize
  | .size1GiB => .size2MiB
  | _ => .size4KiB

/-- The tables behind an entry, behind a write. -/
def after (store : Store Unit) : PageSize → Slot → Slot
  | size, .table home flags slots =>
      .table home flags fun index =>
        entryAfter store home index size (decode size)
          (after store (smaller size) (slots index))
  | _, slot => slot

theorem entryAfter_elsewhere {store : Store Unit}
    {home : PhysFrame .size4KiB}
    (elsewhere : ∀ target, store.Covers target → ¬ home.Holds target)
    (index : Nat) (size : PageSize) (decoded : Nat → Slot → Slot)
    (slot : Slot) :
    entryAfter store home index size decoded slot = slot := by
  unfold entryAfter
  apply if_neg
  rintro ⟨offset, inEntry, covered⟩
  apply elsewhere _ covered
  have bound : index % 512 < 512 := Nat.mod_lt _ (by decide)
  simp only [entryAddress, PhysFrame.Holds, PageSize.bytes]
  omega

theorem after_elsewhere {store : Store Unit} (slot : Slot) (size : PageSize)
    (elsewhere :
      ∀ held ∈ slot.tables, ∀ target, store.Covers target →
        ¬ held.Holds target) :
    after store size slot = slot := by
  induction slot generalizing size with
  | unused => cases size <;> rfl
  | leaf number flags => cases size <;> rfl
  | table home flags slots inductionHypothesis =>
      have atHome :
          ∀ target, store.Covers target → ¬ home.Holds target :=
        elsewhere home ⟨[], flags, slots, by simp⟩
      have below :
          ∀ index (size : PageSize), after store size (slots index) =
            slots index := by
        intro index size
        apply inductionHypothesis index size
        rintro held ⟨path, given, behind, found⟩
        exact elsewhere held ⟨index :: path, given, behind, found⟩
      have same :
          (fun index =>
            entryAfter store home index size (decode size)
              (after store (smaller size) (slots index))) = slots := by
        funext index
        rw [entryAfter_elsewhere atHome, below]
      rw [after, same]

end Slot

namespace RadixTable

theorem decodeTable_ne_leaf (value : Nat) (slot : Slot) (number : Nat)
    (flags : PageTableFlags) :
    Slot.decodeTable value slot ≠ .leaf number flags := by
  cases slot with
  | unused => simp [Slot.decodeTable]
  | leaf held given => simp [Slot.decodeTable]
  | table frame given slots =>
      rw [Slot.decodeTable]
      split <;> simp

/-- The table behind a write; the top level maps no page. -/
def strike (store : Store Unit) (table : RadixTable) : RadixTable where
  root := table.root
  slots := fun index =>
    Slot.entryAfter store table.root index .size4KiB Slot.decodeTable
      (Slot.after store .size1GiB (table.slots index))
  noHugeTop := by
    intro index number flags
    unfold Slot.entryAfter
    split
    · exact decodeTable_ne_leaf _ _ number flags
    · have notLeaf := table.noHugeTop index number flags
      cases found : table.slots index with
      | unused => simp [Slot.after]
      | leaf held given =>
          exact absurd found (table.noHugeTop index held given)
      | table home given slots => simp [Slot.after]

instance : StoredMapper RadixTable where
  struck := strike

instance : LawfulStoredMapper RadixTable where
  struck_elsewhere := by
    intro store table elsewhere
    have same : (strike store table).slots = table.slots := by
      funext index
      unfold strike
      simp only
      rw [Slot.entryAfter_elsewhere (elsewhere table.root (Or.inl rfl)),
        Slot.after_elsewhere]
      exact fun held stored => elsewhere held (Or.inr ⟨index, stored⟩)
    cases table
    simp only [struck, strike] at same ⊢
    simp only [same]

end RadixTable

end RustKernel.Paging
