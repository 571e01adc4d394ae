import RustKernel.Machine.MemoryMove
import Mathlib.Data.List.GetD
import Mathlib.Data.List.Induction

/-!
# The words of a stack

A stack of words grows towards lower addresses in a byte-addressed memory.
Addresses wrap at the size of a word, so that no assumption about the pointer
is needed: the words that were pushed are found from the pointer on, the last
one first, as long as they do not fill the address space.
-/

namespace RustKernel.Machine

open RustKernel.Foundations

/-- How far an address lies behind another one. -/
def behind (address other : Nat) : Nat :=
  (other + (wordSize - address)) % wordSize

/-- The eight bytes from the address on are those of the value. -/
def storeWord (memory : Memory) (address value : Nat) : Memory := fun byte =>
  if behind address byte < 8 then
    (leBytes 8 value).getD (behind address byte) 0
  else
    memory byte

section Words

variable {memory : Memory} {address other value : Nat}

theorem behind_offset (inside : address < wordSize) {count : Nat}
    (small : count < wordSize) :
    behind address (offset address count) = count := by
  simp only [behind, offset, wordSize] at *
  omega

theorem readUnaligned_storeWord (inside : address < wordSize)
    (fits : value < wordSize) :
    readUnaligned (storeWord memory address value) address = value := by
  have bytes :
      (List.range 8).map
          (fun index => storeWord memory address value (offset address index)) =
        leBytes 8 value := by
    apply List.ext_getElem (by simp)
    intro index first second
    have small : index < 8 := by simpa using first
    have position :
        behind address (offset address index) = index :=
      behind_offset inside (by simp only [wordSize]; omega)
    simp only [List.getElem_map, List.getElem_range, storeWord, position]
    rw [if_pos small, List.getD_eq_getElem _ _ second]
  rw [readUnaligned, bytes, leValue_leBytes_of_lt]
  simpa [wordSize] using fits

/-- A store changes no word that it does not touch. -/
theorem readUnaligned_storeWord_of_apart {distance : Nat}
    (apart : behind address other = distance) (above : 8 ≤ distance)
    (below : distance + 8 ≤ wordSize) :
    readUnaligned (storeWord memory address value) other =
      readUnaligned memory other := by
  rw [readUnaligned, readUnaligned]
  congr 1
  apply List.map_congr_left
  intro index member
  have small := List.mem_range.mp member
  rw [storeWord, if_neg]
  simp only [behind, offset, wordSize] at *
  omega

end Words

/-- The pointer of a stack, and the memory. -/
structure Stack where
  pointer : UInt64
  memory : Memory

namespace Stack

def push (stack : Stack) (word : UInt64) : Stack where
  pointer := stack.pointer - 8
  memory := storeWord stack.memory (stack.pointer - 8).toNat word.toNat

def pushAll (stack : Stack) (words : List UInt64) : Stack :=
  words.foldl push stack

/-- The word at an index, counted from the pointer. -/
def word (stack : Stack) (index : Nat) : UInt64 :=
  UInt64.ofNat
    (readUnaligned stack.memory (offset stack.pointer.toNat (8 * index)))

theorem word_zero_push (stack : Stack) (word : UInt64) :
    (stack.push word).word 0 = word := by
  have inside := (stack.pointer - 8).toNat_lt
  rw [Stack.word, push, offset_of_lt inside, Nat.mul_zero, Nat.add_zero,
    readUnaligned_storeWord inside word.toNat_lt, UInt64.ofNat_toNat]

theorem word_succ_push (stack : Stack) (word : UInt64) {index : Nat}
    (room : 8 * (index + 2) ≤ wordSize) :
    (stack.push word).word (index + 1) = stack.word index := by
  have inside := (stack.pointer - 8).toNat_lt
  have pointer := stack.pointer.toNat_lt
  have moved :
      offset (stack.pointer - 8).toNat (8 * (index + 1)) =
        offset stack.pointer.toNat (8 * index) := by
    have eight : UInt64.toNat 8 = 8 := rfl
    rw [UInt64.toNat_sub, eight]
    simp only [offset, wordSize] at *
    omega
  have distance :
      behind (stack.pointer - 8).toNat
          (offset (stack.pointer - 8).toNat (8 * (index + 1))) =
        8 * (index + 1) :=
    behind_offset inside (by omega)
  rw [Stack.word, Stack.word, push,
    readUnaligned_storeWord_of_apart distance (by omega) (by omega), moved]

/-- The last pushed word comes first. -/
theorem word_pushAll {words : List UInt64} (stack : Stack)
    (room : 8 * words.length ≤ wordSize) {index : Nat} {word : UInt64}
    (found : words.reverse[index]? = some word) :
    (stack.pushAll words).word index = word := by
  induction words using List.reverseRecOn generalizing index with
  | nil => simp at found
  | append_singleton words last inductionHypothesis =>
      rw [List.length_append, List.length_singleton] at room
      rw [List.reverse_concat] at found
      rw [pushAll, List.foldl_concat]
      cases index with
      | zero =>
          rw [List.getElem?_cons_zero, Option.some.injEq] at found
          rw [word_zero_push, found]
      | succ index =>
          rw [List.getElem?_cons_succ] at found
          have inRange : index < words.length := by
            have bound := (List.getElem?_eq_some_iff.mp found).1
            simpa using bound
          rw [word_succ_push _ _ (by omega)]
          exact inductionHypothesis (by omega) found

/-! ### Taking words off -/

/-- The stack behind a number of words. -/
def drop (stack : Stack) (count : Nat) : Stack where
  pointer := stack.pointer + UInt64.ofNat (8 * count)
  memory := stack.memory

/-- The word at the pointer, and the stack behind it. -/
def pop (stack : Stack) : UInt64 × Stack :=
  (stack.word 0, ⟨stack.pointer + 8, stack.memory⟩)

theorem word_drop (stack : Stack) (count index : Nat) :
    (stack.drop count).word index = stack.word (count + index) := by
  have moved :
      offset (stack.pointer + UInt64.ofNat (8 * count)).toNat (8 * index) =
        offset stack.pointer.toNat (8 * (count + index)) := by
    rw [UInt64.toNat_add, UInt64.toNat_ofNat']
    simp only [offset, wordSize]
    omega
  simp only [word, drop, moved]

theorem drop_zero (stack : Stack) : stack.drop 0 = stack := by
  rw [drop, Nat.mul_zero]
  exact congrArg₂ Stack.mk (UInt64.add_zero _) rfl

theorem drop_pop (stack : Stack) (count : Nat) :
    stack.pop.2.drop count = stack.drop (count + 1) := by
  refine congrArg₂ Stack.mk ?_ rfl
  rw [pop, UInt64.add_assoc, ← UInt64.toNat_inj]
  have eight : UInt64.toNat 8 = 8 := rfl
  simp only [UInt64.toNat_add, UInt64.toNat_ofNat', eight]
  omega

/-- The words that a stack begins with. -/
def Begins (stack : Stack) (words : List UInt64) : Prop :=
  ∀ index word, words[index]? = some word → stack.word index = word

theorem begins_pushAll (stack : Stack) {words : List UInt64}
    (room : 8 * words.length ≤ wordSize) :
    (stack.pushAll words).Begins words.reverse :=
  fun _ _ found => stack.word_pushAll room found

theorem begins_append {stack : Stack} {front back : List UInt64} :
    stack.Begins (front ++ back) ↔
      stack.Begins front ∧ (stack.drop front.length).Begins back := by
  constructor
  · intro begins
    constructor
    · intro index word found
      have inside := (List.getElem?_eq_some_iff.mp found).1
      apply begins
      rw [List.getElem?_append_left inside, found]
    · intro index word found
      rw [word_drop]
      apply begins
      rw [List.getElem?_append_right (Nat.le_add_right ..),
        Nat.add_sub_cancel_left, found]
  · rintro ⟨first, later⟩ index word found
    by_cases inside : index < front.length
    · rw [List.getElem?_append_left inside] at found
      exact first index word found
    · rw [List.getElem?_append_right (Nat.not_lt.mp inside)] at found
      have read := later _ word found
      rwa [word_drop, Nat.add_sub_cancel' (Nat.not_lt.mp inside)] at read

theorem begins_cons {stack : Stack} {word : UInt64} {words : List UInt64} :
    stack.Begins (word :: words) ↔
      stack.word 0 = word ∧ (stack.drop 1).Begins words := by
  rw [← List.singleton_append, begins_append]
  refine and_congr_left fun _ => ?_
  constructor
  · exact fun begins => begins 0 word rfl
  · rintro top (_ | index) other found
    · exact top.trans (Option.some.inj found)
    · cases found

/-- The bytes of the first words behind a pointer. -/
def bytes (pointer : UInt64) (count : Nat) : Set Nat :=
  {address | behind pointer.toNat address < 8 * count}

/-- The pointer behind a number of pushes. -/
def lowered (pointer : UInt64) (count : Nat) : UInt64 :=
  pointer - UInt64.ofNat (8 * count)

theorem pointer_pushAll (stack : Stack) (words : List UInt64) :
    (stack.pushAll words).pointer = lowered stack.pointer words.length := by
  have eight : UInt64.toNat 8 = 8 := rfl
  induction words using List.reverseRecOn with
  | nil => exact (UInt64.sub_zero _).symm
  | append_singleton words last inductionHypothesis =>
      rw [pushAll, List.foldl_concat]
      change (stack.pushAll words).pointer - 8 = _
      rw [inductionHypothesis, lowered, lowered, ← UInt64.toNat_inj]
      simp only [UInt64.toNat_sub, UInt64.toNat_ofNat', eight,
        List.length_append, List.length_singleton]
      omega

/-- Pushes change nothing outside the words that they push. -/
theorem memory_pushAll (stack : Stack) (words : List UInt64) {address : Nat}
    (outside :
      address ∉ bytes (stack.pushAll words).pointer words.length) :
    (stack.pushAll words).memory address = stack.memory address := by
  induction words using List.reverseRecOn with
  | nil => rfl
  | append_singleton words last inductionHypothesis =>
      rw [pushAll, List.foldl_concat] at outside ⊢
      change address ∉ bytes ((stack.pushAll words).pointer - 8) _ at outside
      change storeWord (stack.pushAll words).memory
          ((stack.pushAll words).pointer - 8).toNat last.toNat address = _
      have eight : UInt64.toNat 8 = 8 := rfl
      have pointer := (stack.pushAll words).pointer.toNat_lt
      simp only [bytes, Set.mem_ofPred_eq, List.length_append,
        List.length_singleton, Nat.not_lt, behind, wordSize,
        UInt64.toNat_sub, eight] at outside
      rw [storeWord, if_neg]
      · apply inductionHypothesis
        simp only [bytes, Set.mem_ofPred_eq, behind, wordSize, Nat.not_lt]
        omega
      · simp only [behind, wordSize, UInt64.toNat_sub, eight]
        omega

/-- Words are read from their own bytes only. -/
theorem Begins.congr {left right : Stack} {words : List UInt64}
    (begins : left.Begins words) (samePointer : right.pointer = left.pointer)
    (room : 8 * words.length ≤ wordSize)
    (same :
      ∀ address ∈ bytes left.pointer words.length,
        right.memory address = left.memory address) :
    right.Begins words := by
  intro index value found
  have inside := (List.getElem?_eq_some_iff.mp found).1
  have pointer := left.pointer.toNat_lt
  rw [← begins index value found, word, word, samePointer, readUnaligned,
    readUnaligned]
  congr 2
  apply List.map_congr_left
  intro byte member
  have small := List.mem_range.mp member
  apply same
  simp only [bytes, Set.mem_ofPred_eq, behind, offset, wordSize] at *
  omega

end Stack

end RustKernel.Machine
