import Mathlib.Algebra.Order.Ring.Nat
import Mathlib.Tactic.Common

/-!
# Little-endian fields and byte stores

Fixed-width little-endian encodings of natural numbers, the fields of a
concatenation of byte strings, and memories to which byte strings are stored.
-/

namespace RustKernel.Foundations

/-! ## Little-endian numbers -/

/-- The `width` low bytes of a number, least significant first. -/
def leBytes : Nat → Nat → List UInt8
  | 0, _ => []
  | width + 1, value =>
      UInt8.ofNat value :: leBytes width (value / 256)

def leValue : List UInt8 → Nat
  | [] => 0
  | byte :: bytes => byte.toNat + 256 * leValue bytes

@[simp]
theorem leBytes_length (width value : Nat) :
    (leBytes width value).length = width := by
  induction width generalizing value with
  | zero => rfl
  | succ width inductionHypothesis =>
      simp [leBytes, inductionHypothesis]

theorem leValue_leBytes (width value : Nat) :
    leValue (leBytes width value) = value % 256 ^ width := by
  induction width generalizing value with
  | zero => simp [leBytes, leValue, Nat.mod_one]
  | succ width inductionHypothesis =>
      rw [leBytes, leValue, inductionHypothesis, Nat.pow_succ',
        Nat.mod_mul]
      simp

theorem leValue_leBytes_of_lt {width value : Nat}
    (fits : value < 256 ^ width) :
    leValue (leBytes width value) = value := by
  rw [leValue_leBytes, Nat.mod_eq_of_lt fits]

theorem leBytes_leValue {width : Nat} {bytes : List UInt8}
    (lengthEq : bytes.length = width) :
    leBytes width (leValue bytes) = bytes := by
  subst lengthEq
  induction bytes with
  | nil => rfl
  | cons byte bytes inductionHypothesis =>
      have bound := byte.toNat_lt
      rw [List.length_cons, leBytes, leValue, Nat.add_mul_div_left _ _ (by decide),
        Nat.div_eq_of_lt bound, Nat.zero_add, inductionHypothesis]
      congr 1
      apply UInt8.toNat_inj.mp
      simp

/-! ## Big-endian numbers -/

/-- The `width` low bytes of a number, most significant first. -/
def beBytes (width value : Nat) : List UInt8 := (leBytes width value).reverse

def beValue (bytes : List UInt8) : Nat := leValue bytes.reverse

@[simp]
theorem beBytes_length (width value : Nat) :
    (beBytes width value).length = width := by
  rw [beBytes, List.length_reverse, leBytes_length]

theorem beValue_beBytes (width value : Nat) :
    beValue (beBytes width value) = value % 256 ^ width := by
  rw [beValue, beBytes, List.reverse_reverse, leValue_leBytes]

/-! ## Fields of a byte string -/

/-- The `length` bytes from `start` on. -/
def bytesAt (data : List UInt8) (start length : Nat) : List UInt8 :=
  (data.drop start).take length

theorem bytesAt_append_right
    {front back : List UInt8} {start length : Nat}
    (beyond : front.length ≤ start) :
    bytesAt (front ++ back) start length =
      bytesAt back (start - front.length) length := by
  unfold bytesAt
  rw [List.drop_append, List.drop_eq_nil_of_le beyond, List.nil_append]

theorem bytesAt_append_left
    {front back : List UInt8} {start length : Nat}
    (within : start + length ≤ front.length) :
    bytesAt (front ++ back) start length = bytesAt front start length := by
  unfold bytesAt
  rw [List.drop_append_of_le_length (by omega),
    List.take_append_of_le_length (by simp; omega)]

theorem bytesAt_whole {field : List UInt8} {length : Nat}
    (lengthEq : field.length = length) :
    bytesAt field 0 length = field := by
  subst lengthEq
  simp [bytesAt]

theorem bytesAt_front
    {field back : List UInt8} {length : Nat}
    (lengthEq : field.length = length) :
    bytesAt (field ++ back) 0 length = field := by
  subst lengthEq
  rw [bytesAt_append_left (by simp), bytesAt_whole rfl]

/-- The field that stands behind a byte string of known length. -/
theorem bytesAt_behind
    {front back : List UInt8} {start length offset : Nat}
    (frontLength : front.length = offset) :
    bytesAt (front ++ back) (offset + start) length =
      bytesAt back start length := by
  subst frontLength
  rw [bytesAt_append_right (by omega), Nat.add_sub_cancel_left]

/-- A table of entries of equal size, read at an index. -/
theorem bytesAt_flatMap
    {α : Type} {entries : List α} {encode : α → List UInt8} {size : Nat}
    {back : List UInt8}
    (sized : ∀ entry ∈ entries, (encode entry).length = size)
    {index : Nat} {entry : α} (found : entries[index]? = some entry) :
    bytesAt (entries.flatMap encode ++ back) (size * index) size =
      encode entry := by
  induction entries generalizing index with
  | nil => simp at found
  | cons head tail inductionHypothesis =>
      rw [List.flatMap_cons, List.append_assoc]
      cases index with
      | zero =>
          simp only [List.getElem?_cons_zero, Option.some.injEq] at found
          subst entry
          exact bytesAt_front (sized head (by simp))
      | succ index =>
          rw [List.getElem?_cons_succ] at found
          rw [show size * (index + 1) = size + size * index by
            rw [Nat.mul_succ, Nat.add_comm],
            bytesAt_behind (sized head (by simp))]
          exact inductionHypothesis
            (fun later member => sized later (by simp [member])) found

theorem flatMap_length
    {α : Type} {entries : List α} {encode : α → List UInt8} {size : Nat}
    (sized : ∀ entry ∈ entries, (encode entry).length = size) :
    (entries.flatMap encode).length = size * entries.length := by
  induction entries with
  | nil => simp
  | cons head tail inductionHypothesis =>
      rw [List.flatMap_cons, List.length_append, sized head (by simp),
        inductionHypothesis fun later member => sized later (by simp [member]),
        List.length_cons, Nat.mul_succ, Nat.add_comm]

theorem bytesAt_getElem? {data : List UInt8} {start length index : Nat}
    (within : index < length) :
    (bytesAt data start length)[index]? = data[start + index]? := by
  unfold bytesAt
  rw [List.getElem?_take_of_lt within, List.getElem?_drop]

theorem bytesAt_length {data : List UInt8} {start length : Nat}
    (within : start + length ≤ data.length) :
    (bytesAt data start length).length = length := by
  unfold bytesAt
  rw [List.length_take, List.length_drop]
  omega

/-! ## Stores to memory -/

/-- A byte string written at an address, with a note of what wrote it. -/
structure Store (ω : Type) where
  origin : ω
  address : Nat
  bytes : List UInt8
  deriving DecidableEq, Repr

namespace Store

variable {ω : Type}

def Covers (store : Store ω) (target : Nat) : Prop :=
  store.address ≤ target ∧ target < store.address + store.bytes.length

instance (store : Store ω) (target : Nat) : Decidable (store.Covers target) :=
  inferInstanceAs (Decidable (_ ∧ _))

def apply (memory : Nat → UInt8) (store : Store ω) : Nat → UInt8 :=
  fun target =>
    if store.address ≤ target then
      (store.bytes[target - store.address]?).getD (memory target)
    else
      memory target

theorem apply_of_not_covers
    {memory : Nat → UInt8} {store : Store ω} {target : Nat}
    (outside : ¬ store.Covers target) :
    store.apply memory target = memory target := by
  unfold apply
  split
  · next lower =>
      have beyond : store.bytes.length ≤ target - store.address := by
        unfold Covers at outside
        omega
      rw [List.getElem?_eq_none beyond, Option.getD_none]
  · rfl

theorem apply_at_index
    {memory : Nat → UInt8} {store : Store ω} {index : Nat} {byte : UInt8}
    (found : store.bytes[index]? = some byte) :
    store.apply memory (store.address + index) = byte := by
  unfold apply
  rw [if_pos (by omega), Nat.add_sub_cancel_left, found, Option.getD_some]

/-- The memory after stores made one after another. -/
def applyAll (memory : Nat → UInt8) (stores : List (Store ω)) : Nat → UInt8 :=
  stores.foldl apply memory

@[simp]
theorem applyAll_singleton (memory : Nat → UInt8) (store : Store ω) :
    applyAll memory [store] = store.apply memory := rfl

theorem applyAll_append
    (memory : Nat → UInt8) (earlier later : List (Store ω)) :
    applyAll memory (earlier ++ later) =
      applyAll (applyAll memory earlier) later := by
  unfold applyAll
  rw [List.foldl_append]

theorem applyAll_of_not_covers
    {memory : Nat → UInt8} {stores : List (Store ω)} {target : Nat}
    (outside : ∀ store ∈ stores, ¬ store.Covers target) :
    applyAll memory stores target = memory target := by
  induction stores generalizing memory with
  | nil => rfl
  | cons store rest inductionHypothesis =>
      change applyAll (store.apply memory) rest target = memory target
      rw [inductionHypothesis fun later member =>
          outside later (by simp [member]),
        apply_of_not_covers (outside store (by simp))]

end Store

end RustKernel.Foundations
