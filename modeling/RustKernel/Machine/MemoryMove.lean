import RustKernel.Foundations.BlockMove
import RustKernel.Foundations.Bytes
import RustKernel.Machine.Address

/-!
# `memcpy` and `memmove`

The two copy routines of the common crate over a byte-addressed memory.  A
pointer is a word and pointer arithmetic wraps at the size of a word.
-/

namespace RustKernel.Machine

open RustKernel.Foundations

abbrev Memory := Nat → UInt8

/-- `pointer.offset(count as isize)`. -/
def offset (pointer count : Nat) : Nat := (pointer + count) % wordSize

theorem offset_of_lt {pointer count : Nat}
    (fits : pointer + count < wordSize) :
    offset pointer count = pointer + count := Nat.mod_eq_of_lt fits

/-! ## The routines -/

/-- `rep movsb` with a clear direction flag: `rcx` bytes, from the lowest
address upwards, with `rdi` and `rsi` advanced behind each of them. -/
def repMovsb : Nat → Nat → Nat → Memory → Memory
  | 0, _, _, memory => memory
  | rcx + 1, rdi, rsi, memory =>
      repMovsb rcx (offset rdi 1) (offset rsi 1)
        (Function.update memory rdi (memory rsi))

/-- `memcpy`: the destination pointer and the memory. -/
def memcpy (dst src n : Nat) (memory : Memory) : Nat × Memory :=
  (dst, repMovsb n dst src memory)

/-- `*dst.offset(n) = *src.offset(n)`. -/
def moveByte (dst src n : Nat) (memory : Memory) : Memory :=
  Function.update memory (offset dst n) (memory (offset src n))

/-- `core::ptr::read_unaligned` of a `u64`. -/
def readUnaligned (memory : Memory) (address : Nat) : Nat :=
  leValue ((List.range 8).map fun index => memory (offset address index))

/-- `core::ptr::write` of a `u64`; an aligned word does not wrap. -/
def writeWord (memory : Memory) (address value : Nat) : Memory :=
  (⟨(), address, leBytes 8 value⟩ : Store Unit).apply memory

/-- The bytes down to the first end address that is a multiple of eight. -/
def moveToAligned (dst src : Nat) : Nat → Memory → Nat × Memory
  | 0, memory => (0, memory)
  | n + 1, memory =>
      if offset dst (n + 1) &&& 0x7 ≠ 0 then
        moveToAligned dst src n (moveByte dst src n memory)
      else
        (n + 1, memory)

/-- Words, as long as eight bytes are left. -/
def moveWords (dst src n : Nat) (memory : Memory) : Nat × Memory :=
  if 8 ≤ n then
    moveWords dst src (n - 8)
      (writeWord memory (offset dst (n - 8))
        (readUnaligned memory (offset src (n - 8))))
  else
    (n, memory)
termination_by n

/-- The bytes that are left. -/
def moveBytes (dst src : Nat) : Nat → Memory → Memory
  | 0, memory => memory
  | n + 1, memory => moveBytes dst src n (moveByte dst src n memory)

/-- Blocks of the distance between the two pointers, as long as one is left. -/
def moveBlocks (dst src overhang : Nat) (positive : 0 < overhang)
    (n : Nat) (memory : Memory) : Nat × Memory :=
  if overhang ≤ n then
    moveBlocks dst src overhang positive (n - overhang)
      (memcpy (offset dst (n - overhang)) (offset src (n - overhang))
        overhang memory).2
  else
    (n, memory)
termination_by n

/-- `memmove`: the destination pointer and the memory. -/
def memmove (dst src n : Nat) (memory : Memory) : Nat × Memory :=
  if overlaps : dst > src ∧ offset src n > dst then
    let overhang := dst - src
    if overhang < 64 then
      let (unaligned, memory) := moveToAligned dst src n memory
      let (rest, memory) := moveWords dst src unaligned memory
      (dst, moveBytes dst src rest memory)
    else
      let (rest, memory) :=
        moveBlocks dst src overhang (Nat.sub_pos_of_lt overlaps.1) n memory
      if rest = 0 then
        (dst, memory)
      else
        (dst, (memcpy dst src rest memory).2)
  else
    (dst, (memcpy dst src n memory).2)

/-! ## One step -/

theorem moveByte_movedOn {dst src n : Nat}
    (dstFits : dst + n < wordSize) (srcFits : src + n < wordSize)
    (memory : Memory) :
    MovedOn memory (moveByte dst src n memory) dst src n (n + 1) := by
  rw [moveByte, offset_of_lt dstFits, offset_of_lt srcFits]
  exact MovedOn.update memory dst src n

/-- A word is read as a whole before it is written, so that it may overlap
itself. -/
theorem writeWord_movedOn {dst src n : Nat}
    (dstFits : dst + (n + 8) < wordSize) (srcFits : src + (n + 8) < wordSize)
    (memory : Memory) :
    MovedOn memory
      (writeWord memory (offset dst n) (readUnaligned memory (offset src n)))
      dst src n (n + 8) := by
  have bytes :
      leBytes 8 (readUnaligned memory (offset src n)) =
        (List.range 8).map fun index => memory (src + n + index) := by
    rw [readUnaligned, offset_of_lt (by omega), leBytes_leValue (by simp)]
    apply List.map_congr_left
    intro index member
    rw [List.mem_range] at member
    rw [offset_of_lt (by omega)]
  rw [writeWord, bytes, offset_of_lt (by omega)]
  constructor
  · intro index lower upper
    rw [show dst + index = dst + n + (index - n) by omega,
      show src + index = src + n + (index - n) by omega]
    apply Store.apply_at_index
    simp [show index - n < 8 by omega]
  · intro address outside
    apply Store.apply_of_not_covers
    simp only [Store.Covers, List.length_map, List.length_range]
    omega

/-! ## The loops -/

/-- The ascending copy is right unless it overwrites bytes that it has yet to
read. -/
theorem repMovsb_movedOn {n dst src : Nat}
    (dstFits : dst + n < wordSize) (srcFits : src + n < wordSize)
    (apart : dst ≤ src ∨ src + n ≤ dst)
    (memory : Memory) :
    MovedOn memory (repMovsb n dst src memory) dst src 0 n := by
  induction n generalizing dst src memory with
  | zero =>
      exact MovedOn.refl memory dst src 0
  | succ n inductionHypothesis =>
      rw [repMovsb, offset_of_lt (by omega), offset_of_lt (by omega)]
      have first := MovedOn.update memory dst src 0
      have rest :
          MovedOn (Function.update memory dst (memory src)) _
            (dst + 1) (src + 1) 0 n :=
        inductionHypothesis (by omega) (by omega) (by omega) _
      rw [Nat.add_comm n 1]
      exact MovedOn.extendUp (by omega) first rest.shift (by omega)

section Overlapping

variable {dst src : Nat} (below : src ≤ dst)
include below

theorem moveToAligned_movedOn {n : Nat}
    (dstFits : dst + n < wordSize) (memory : Memory) :
    (moveToAligned dst src n memory).1 ≤ n ∧
      MovedOn memory (moveToAligned dst src n memory).2 dst src
        (moveToAligned dst src n memory).1 n := by
  induction n generalizing memory with
  | zero =>
      exact ⟨Nat.le_refl 0, MovedOn.refl memory dst src 0⟩
  | succ n inductionHypothesis =>
      rw [moveToAligned]
      by_cases unaligned : offset dst (n + 1) &&& 0x7 ≠ 0
      · rw [if_pos unaligned]
        have step :
            MovedOn memory (moveByte dst src n memory) dst src n (n + 1) :=
          moveByte_movedOn (by omega) (by omega) memory
        obtain ⟨bounded, rest⟩ :=
          inductionHypothesis (by omega) (moveByte dst src n memory)
        exact ⟨by omega, MovedOn.extendDown below step rest (by omega)⟩
      · rw [if_neg unaligned]
        exact ⟨Nat.le_refl _, MovedOn.refl memory dst src _⟩

theorem moveWords_movedOn {n : Nat}
    (dstFits : dst + n < wordSize) (memory : Memory) :
    (moveWords dst src n memory).1 ≤ n ∧
      MovedOn memory (moveWords dst src n memory).2 dst src
        (moveWords dst src n memory).1 n := by
  fun_induction moveWords dst src n memory with
  | case1 n memory left inductionHypothesis =>
      obtain ⟨bounded, rest⟩ := inductionHypothesis (by omega)
      have step : MovedOn memory _ dst src (n - 8) (n - 8 + 8) :=
        writeWord_movedOn (by omega) (by omega) memory
      rw [Nat.sub_add_cancel left] at step
      exact ⟨by omega, MovedOn.extendDown below step rest (by omega)⟩
  | case2 n memory _ =>
      exact ⟨Nat.le_refl _, MovedOn.refl memory dst src _⟩

theorem moveBytes_movedOn {n : Nat}
    (dstFits : dst + n < wordSize) (memory : Memory) :
    MovedOn memory (moveBytes dst src n memory) dst src 0 n := by
  induction n generalizing memory with
  | zero =>
      exact MovedOn.refl memory dst src 0
  | succ n inductionHypothesis =>
      have step :
          MovedOn memory (moveByte dst src n memory) dst src n (n + 1) :=
        moveByte_movedOn (by omega) (by omega) memory
      have rest :=
        inductionHypothesis (by omega) (moveByte dst src n memory)
      exact MovedOn.extendDown below step rest (by omega)

end Overlapping

/-- A block no longer than the distance between the pointers does not overlap
the place it is copied to. -/
theorem memcpy_movedOn {dst src n start : Nat}
    (dstFits : dst + (start + n) < wordSize) (apart : src + n ≤ dst)
    (memory : Memory) :
    MovedOn memory
      (memcpy (offset dst start) (offset src start) n memory).2
      dst src start (start + n) := by
  rw [memcpy, offset_of_lt (by omega), offset_of_lt (by omega)]
  exact MovedOn.shift (repMovsb_movedOn (by omega) (by omega) (by omega) memory)

theorem moveBlocks_movedOn {dst src overhang n : Nat}
    (distance : dst = src + overhang) (positive : 0 < overhang)
    (dstFits : dst + n < wordSize) (memory : Memory) :
    (moveBlocks dst src overhang positive n memory).1 ≤ n ∧
      (moveBlocks dst src overhang positive n memory).1 < overhang ∧
      MovedOn memory (moveBlocks dst src overhang positive n memory).2
        dst src (moveBlocks dst src overhang positive n memory).1 n := by
  fun_induction moveBlocks dst src overhang positive n memory with
  | case1 n memory left inductionHypothesis =>
      obtain ⟨bounded, short, rest⟩ := inductionHypothesis (by omega)
      have step :
          MovedOn memory _ dst src (n - overhang) (n - overhang + overhang) :=
        memcpy_movedOn (by omega) (by omega) memory
      rw [Nat.sub_add_cancel left] at step
      exact ⟨by omega, short,
        MovedOn.extendDown (by omega) step rest (by omega)⟩
  | case2 n memory left =>
      exact ⟨Nat.le_refl n, by omega, MovedOn.refl memory dst src n⟩

/-! ## The routines as a whole -/

/-- The ascending copy, byte by byte. -/
def copyAscending (dst src n : Nat) (memory : Memory) : Memory :=
  (List.range n).foldl
    (fun memory index =>
      Function.update memory (dst + index) (memory (src + index)))
    memory

theorem repMovsb_eq_copyAscending {n dst src : Nat}
    (dstFits : dst + n < wordSize) (srcFits : src + n < wordSize)
    (memory : Memory) :
    repMovsb n dst src memory = copyAscending dst src n memory := by
  induction n generalizing dst src memory with
  | zero => rfl
  | succ n inductionHypothesis =>
      rw [repMovsb, offset_of_lt (by omega), offset_of_lt (by omega),
        inductionHypothesis (by omega) (by omega)]
      simp only [copyAscending, List.range_succ_eq_map, List.foldl_cons,
        List.foldl_map, Nat.add_zero, Nat.succ_eq_add_one, Nat.add_assoc,
        Nat.add_comm 1]

/-- The three loops of a move by less than 64 bytes. -/
theorem moveBackward_movedOn {dst src n : Nat}
    (below : src ≤ dst) (dstFits : dst + n < wordSize) (memory : Memory) :
    let aligned := moveToAligned dst src n memory
    let words := moveWords dst src aligned.1 aligned.2
    MovedOn memory (moveBytes dst src words.1 words.2) dst src 0 n := by
  intro aligned words
  obtain ⟨alignedBound, alignedMoved⟩ :
      aligned.1 ≤ n ∧ MovedOn memory aligned.2 dst src aligned.1 n :=
    moveToAligned_movedOn below dstFits memory
  have alignedFits : dst + aligned.1 < wordSize := by omega
  obtain ⟨wordsBound, wordsMoved⟩ :
      words.1 ≤ aligned.1 ∧
        MovedOn aligned.2 words.2 dst src words.1 aligned.1 :=
    moveWords_movedOn below alignedFits aligned.2
  have wordsFit : dst + words.1 < wordSize := by omega
  have bytesMoved := moveBytes_movedOn below wordsFit words.2
  have upper :=
    MovedOn.extendDown below alignedMoved wordsMoved ⟨wordsBound, alignedBound⟩
  exact MovedOn.extendDown below upper bytesMoved (by omega)

/-- The blocks of a move by 64 bytes or more, and what they leave. -/
theorem moveApart_movedOn {dst src overhang n : Nat}
    (distance : dst = src + overhang) (positive : 0 < overhang)
    (dstFits : dst + n < wordSize) (memory : Memory) :
    let blocks := moveBlocks dst src overhang positive n memory
    MovedOn memory (memcpy dst src blocks.1 blocks.2).2 dst src 0 n := by
  intro blocks
  obtain ⟨bounded, short, blocksMoved⟩ :
      blocks.1 ≤ n ∧ blocks.1 < overhang ∧
        MovedOn memory blocks.2 dst src blocks.1 n :=
    moveBlocks_movedOn distance positive dstFits memory
  have rest : MovedOn blocks.2 _ dst src 0 blocks.1 :=
    repMovsb_movedOn (by omega) (by omega) (by omega) blocks.2
  exact MovedOn.extendDown (by omega) blocksMoved rest (by omega)

theorem memmove_movedOn {dst src n : Nat}
    (dstFits : dst + n < wordSize) (srcFits : src + n < wordSize)
    (memory : Memory) :
    MovedOn memory (memmove dst src n memory).2 dst src 0 n := by
  by_cases overlaps : dst > src ∧ offset src n > dst
  · rw [memmove, dif_pos overlaps]
    by_cases near : dst - src < 64
    · rw [if_pos near]
      exact moveBackward_movedOn (by omega) dstFits memory
    · rw [if_neg near]
      have distance : dst = src + (dst - src) := by omega
      have moved :=
        moveApart_movedOn distance (Nat.sub_pos_of_lt overlaps.1)
          dstFits memory
      simp only at moved ⊢
      split
      · next finished =>
          rw [finished] at moved
          exact moved
      · exact moved
  · rw [memmove, dif_neg overlaps]
    rw [offset_of_lt srcFits] at overlaps
    exact repMovsb_movedOn dstFits srcFits (by omega) memory

theorem memmove_pointer (dst src n : Nat) (memory : Memory) :
    (memmove dst src n memory).1 = dst := by
  unfold memmove
  split
  · simp only
    split
    · rfl
    · split <;> rfl
  · rfl

/-- `memmove` moves the block for every overlap of source and destination, and
`memcpy` is the ascending copy. -/
theorem memmove_moves_block {dst src n : Nat}
    (srcFits : src + n < wordSize) (dstFits : dst + n < wordSize)
    (memory : Memory) :
    ((memmove dst src n memory).1 = dst ∧
      ∀ address, (memmove dst src n memory).2 address =
        if dst ≤ address ∧ address < dst + n then
          memory (src + (address - dst))
        else
          memory address) ∧
    memcpy dst src n memory = (dst, copyAscending dst src n memory) := by
  refine ⟨⟨memmove_pointer dst src n memory, ?_⟩, ?_⟩
  · exact (memmove_movedOn dstFits srcFits memory).at_address
  · rw [memcpy, repMovsb_eq_copyAscending dstFits srcFits]

/-- Words that overlap themselves: the destination lies three bytes above the
source. -/
theorem memmove_moves_block_overlapping :
    ((memmove 4099 4096 40 fun address => UInt8.ofNat address).1 = 4099 ∧
      ∀ address,
        (memmove 4099 4096 40 fun address => UInt8.ofNat address).2 address =
          if 4099 ≤ address ∧ address < 4099 + 40 then
            UInt8.ofNat (4096 + (address - 4099))
          else
            UInt8.ofNat address) ∧
    memcpy 4099 4096 40 (fun address => UInt8.ofNat address) =
      (4099, copyAscending 4099 4096 40 fun address => UInt8.ofNat address) :=
  memmove_moves_block (by decide) (by decide) _

end RustKernel.Machine
