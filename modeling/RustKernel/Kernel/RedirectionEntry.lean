import RustKernel.Foundations.LastWrite
import RustKernel.Machine.Address

/-!
# Entries of the redirection table

An entry of the interrupt controller's redirection table is a pair of words,
whose bits the setters of `RedirectionEntry` write through the `bit_field`
crate.  The crate is a parameter, with what it documents as a hypothesis.

Whatever the order of the calls, the entry holds in each field what was
written there last.  `enable` and `disable` write the mask bit the wrong way
round: the controller takes a set bit as masked.
-/

namespace RustKernel.Kernel

open RustKernel.Foundations
open RustKernel.Machine

/-! ## The bit fields of a word -/

/-- The methods of `bit_field::BitField` on `u32`; ranges include their last
bit. -/
structure BitField where
  setBit : UInt32 → Nat → Bool → Except Panic UInt32
  setBits : UInt32 → Nat → Nat → UInt32 → Except Panic UInt32

/-- The methods change the named bits only, and accept every value that has
no more bits than are named. -/
structure BitField.Documented (bits : BitField) : Prop where
  setBit : ∀ word index value, index < 32 → ∃ next,
    bits.setBit word index value = .ok next ∧
      ∀ bit, next.toNat.testBit bit =
        if bit = index then value else word.toNat.testBit bit
  setBits : ∀ word first last value, first ≤ last → last < 32 →
    value.toNat < 2 ^ (last + 1 - first) → ∃ next,
      bits.setBits word first last value = .ok next ∧
        ∀ bit, next.toNat.testBit bit =
          if first ≤ bit ∧ bit ≤ last then value.toNat.testBit (bit - first)
          else word.toNat.testBit bit

/-- The number in the bits of a word from `first` on. -/
def bitsAt (word first width : Nat) : Nat := word / 2 ^ first % 2 ^ width

theorem testBit_bitsAt (word first width bit : Nat) :
    (bitsAt word first width).testBit bit =
      (decide (bit < width) && word.testBit (bit + first)) := by
  rw [bitsAt, Nat.testBit_mod_two_pow, Nat.testBit_div_two_pow]

/-- The bits of `after` from `first` on are those of the value, and the others
are those of `before`. -/
def Stored (before after first width value : Nat) : Prop :=
  ∀ bit, after.testBit bit =
    if first ≤ bit ∧ bit < first + width then value.testBit (bit - first)
    else before.testBit bit

namespace Stored

variable {before after first width value : Nat}

theorem bitsAt_self (stored : Stored before after first width value)
    (fits : value < 2 ^ width) : bitsAt after first width = value := by
  apply Nat.eq_of_testBit_eq
  intro bit
  rw [testBit_bitsAt, stored]
  by_cases inside : bit < width
  · simp [inside, Nat.add_comm bit first]
  · have wide : value < 2 ^ bit :=
      fits.trans_le (Nat.pow_le_pow_right (by decide) (by omega))
    simp [inside, Nat.testBit_lt_two_pow wide]

theorem bitsAt_of_apart (stored : Stored before after first width value)
    {other otherWidth : Nat}
    (apart : first + width ≤ other ∨ other + otherWidth ≤ first) :
    bitsAt after other otherWidth = bitsAt before other otherWidth := by
  apply Nat.eq_of_testBit_eq
  intro bit
  rw [testBit_bitsAt, testBit_bitsAt]
  by_cases inside : bit < otherWidth
  · rw [stored, if_neg (by omega)]
  · simp [inside]

end Stored

/-! ## The entry and its setters -/

structure RedirectionEntry where
  low : UInt32
  high : UInt32
  deriving DecidableEq, Repr

namespace RedirectionEntry

def new : RedirectionEntry := ⟨0, 0⟩

def getLow (entry : RedirectionEntry) : UInt32 := entry.low

def getHigh (entry : RedirectionEntry) : UInt32 := entry.high

section Setters

variable (bits : BitField) (entry : RedirectionEntry)

/-- `self.low.set_bit(index, value == 1)`. -/
def setLowBit (index : Nat) (value : UInt8) :
    Except Panic RedirectionEntry := do
  let low ← bits.setBit entry.low index (value == 1)
  return { entry with low }

/-- `self.low.set_bits(first..=last, value as _)`. -/
def setLowBits (first last : Nat) (value : UInt8) :
    Except Panic RedirectionEntry := do
  let low ← bits.setBits entry.low first last value.toUInt32
  return { entry with low }

def setVector (vector : UInt8) := setLowBits bits entry 0 7 vector

def setDeliveryMode (mode : UInt8) := setLowBits bits entry 8 10 mode

def setDestinationMode (mode : UInt8) := setLowBit bits entry 11 mode

def setDeliveryStatus (status : UInt8) := setLowBit bits entry 12 status

def setPolarity (polarity : UInt8) := setLowBit bits entry 13 polarity

def setIrr (irr : UInt8) := setLowBit bits entry 14 irr

def setTriggerMode (mode : UInt8) := setLowBit bits entry 15 mode

def setMask (mask : UInt8) := setLowBit bits entry 16 mask

def setDestination (dest : UInt8) : Except Panic RedirectionEntry := do
  let high ← bits.setBits entry.high 24 31 dest.toUInt32
  return { entry with high }

def enable := setMask bits entry 1

def disable := setMask bits entry 0

end Setters

/-- The entry as one number, as the controller's manual counts its bits. -/
def word (entry : RedirectionEntry) : Nat :=
  2 ^ 32 * entry.getHigh.toNat + entry.getLow.toNat

theorem word_lt (entry : RedirectionEntry) : entry.word < 2 ^ 64 := by
  have low := entry.getLow.toNat_lt
  have high := entry.getHigh.toNat_lt
  rw [word]
  omega

theorem testBit_word (entry : RedirectionEntry) (bit : Nat) :
    entry.word.testBit bit =
      if bit < 32 then entry.low.toNat.testBit bit
      else entry.high.toNat.testBit (bit - 32) :=
  Nat.testBit_two_pow_mul_add _ entry.low.toNat_lt bit

/-- What a setter for a single bit is given. -/
def flag (value : UInt8) : Nat := if value = 1 then 1 else 0

theorem flag_lt (value : UInt8) : flag value < 2 := by
  rw [flag]
  split <;> decide

theorem testBit_flag (value : UInt8) :
    (flag value).testBit 0 = (value == 1) := by
  rw [flag]
  split <;> simp_all

section Words

variable {bits : BitField} (entry : RedirectionEntry)

theorem setLowBit_stores (documented : bits.Documented) {index : Nat}
    (inside : index < 32) (value : UInt8) :
    ∃ next,
      setLowBit bits entry index value = .ok next ∧
        Stored entry.word next.word index 1 (flag value) := by
  obtain ⟨low, written, named⟩ :=
    documented.setBit entry.low index (value == 1) inside
  refine ⟨{ entry with low }, except_bind_eq_ok.mpr ⟨low, written, rfl⟩, ?_⟩
  intro bit
  rw [testBit_word, testBit_word]
  by_cases same : bit = index
  · subst same
    rw [if_pos inside, if_pos (by omega), named, if_pos rfl, Nat.sub_self,
      testBit_flag]
  · rw [if_neg (show ¬ (index ≤ bit ∧ bit < index + 1) by omega)]
    simp [named, same]

theorem setLowBits_stores (documented : bits.Documented)
    {first last : Nat} (ordered : first ≤ last) (inside : last < 32)
    {value : UInt8} (fits : value.toNat < 2 ^ (last + 1 - first)) :
    ∃ next,
      setLowBits bits entry first last value = .ok next ∧
        Stored entry.word next.word first (last + 1 - first) value.toNat := by
  obtain ⟨low, written, named⟩ :=
    documented.setBits entry.low first last value.toUInt32 ordered inside
      (by simpa using fits)
  refine ⟨{ entry with low }, except_bind_eq_ok.mpr ⟨low, written, rfl⟩, ?_⟩
  intro bit
  rw [testBit_word, testBit_word]
  by_cases range : first ≤ bit ∧ bit ≤ last
  · rw [if_pos (by omega), if_pos (by omega), named, if_pos range]
    simp
  · rw [if_neg (show ¬ (first ≤ bit ∧ bit < first + _) by omega)]
    simp [named, range]

theorem setDestination_stores (documented : bits.Documented)
    (dest : UInt8) :
    ∃ next,
      setDestination bits entry dest = .ok next ∧
        Stored entry.word next.word 56 8 dest.toNat := by
  obtain ⟨high, written, named⟩ :=
    documented.setBits entry.high 24 31 dest.toUInt32 (by decide) (by decide)
      (by simpa using dest.toNat_lt)
  refine ⟨{ entry with high }, except_bind_eq_ok.mpr ⟨high, written, rfl⟩, ?_⟩
  intro bit
  rw [testBit_word, testBit_word]
  by_cases range : 56 ≤ bit ∧ bit < 56 + 8
  · rw [if_neg (by omega), if_pos range, named, if_pos (by omega)]
    have position : bit - 32 - 24 = bit - 56 := by omega
    simp [position]
  · by_cases below : bit < 32
    · rw [if_pos below, if_neg range, if_pos below]
    · rw [if_neg below, if_neg range, if_neg below, named, if_neg (by omega)]

end Words

/-! ## Fields -/

/-- The fields of an entry; the reserved bits are a field of their own. -/
inductive Field where
  | vector
  | deliveryMode
  | destinationMode
  | deliveryStatus
  | polarity
  | irr
  | triggerMode
  | mask
  | reserved
  | destination
  deriving DecidableEq, Repr

namespace Field

def first : Field → Nat
  | vector => 0
  | deliveryMode => 8
  | destinationMode => 11
  | deliveryStatus => 12
  | polarity => 13
  | irr => 14
  | triggerMode => 15
  | mask => 16
  | reserved => 17
  | destination => 56

def width : Field → Nat
  | vector => 8
  | deliveryMode => 3
  | reserved => 39
  | destination => 8
  | _ => 1

theorem apart {left right : Field} (different : left ≠ right) :
    left.first + left.width ≤ right.first ∨
      right.first + right.width ≤ left.first := by
  cases left <;> cases right <;> first | exact absurd rfl different | decide

end Field

/-- The number in a field. -/
def field (entry : RedirectionEntry) (field : Field) : Nat :=
  bitsAt entry.word field.first field.width

theorem field_of_stored {before after : RedirectionEntry} {field : Field}
    {value : Nat}
    (stored : Stored before.word after.word field.first field.width value)
    (fits : value < 2 ^ field.width) :
    after.field = Function.update before.field field value := by
  funext other
  by_cases same : other = field
  · subst same
    rw [Function.update_self]
    exact stored.bitsAt_self fits
  · rw [Function.update_of_ne same]
    exact stored.bitsAt_of_apart (Field.apart (Ne.symm same))

/-- The packing of the controller. -/
def packed (values : Field → Nat) : Nat :=
  values .vector + 2 ^ 8 * values .deliveryMode +
    2 ^ 11 * values .destinationMode + 2 ^ 12 * values .deliveryStatus +
    2 ^ 13 * values .polarity + 2 ^ 14 * values .irr +
    2 ^ 15 * values .triggerMode + 2 ^ 16 * values .mask +
    2 ^ 56 * values .destination

theorem word_eq_packed {entry : RedirectionEntry}
    (reserved : entry.field .reserved = 0) :
    entry.word = packed entry.field := by
  have range := entry.word_lt
  simp only [packed, field, bitsAt, Field.first, Field.width] at reserved ⊢
  omega

theorem packed_inj {first second : Field → Nat}
    (firstFits : ∀ field, first field < 2 ^ field.width)
    (secondFits : ∀ field, second field < 2 ^ field.width)
    (same : packed first = packed second) : first .mask = second .mask := by
  have bound := fun field => And.intro (firstFits field) (secondFits field)
  have vector := bound .vector
  have deliveryMode := bound .deliveryMode
  have destinationMode := bound .destinationMode
  have deliveryStatus := bound .deliveryStatus
  have polarity := bound .polarity
  have irr := bound .irr
  have triggerMode := bound .triggerMode
  have mask := bound .mask
  simp only [packed, Field.width] at *
  omega

/-! ## Sequences of calls -/

inductive Call where
  | setVector (vector : UInt8)
  | setDeliveryMode (mode : UInt8)
  | setDestinationMode (mode : UInt8)
  | setDeliveryStatus (status : UInt8)
  | setPolarity (polarity : UInt8)
  | setIrr (irr : UInt8)
  | setTriggerMode (mode : UInt8)
  | setMask (mask : UInt8)
  | setDestination (dest : UInt8)
  | enable
  | disable
  deriving DecidableEq, Repr

namespace Call

/-- The call on an entry. -/
def perform (bits : BitField) (entry : RedirectionEntry) :
    Call → Except Panic RedirectionEntry
  | setVector vector => entry.setVector bits vector
  | setDeliveryMode mode => entry.setDeliveryMode bits mode
  | setDestinationMode mode => entry.setDestinationMode bits mode
  | setDeliveryStatus status => entry.setDeliveryStatus bits status
  | setPolarity polarity => entry.setPolarity bits polarity
  | setIrr irr => entry.setIrr bits irr
  | setTriggerMode mode => entry.setTriggerMode bits mode
  | setMask mask => entry.setMask bits mask
  | setDestination dest => entry.setDestination bits dest
  | enable => entry.enable bits
  | disable => entry.disable bits

/-- Delivery modes have three bits. -/
def Small : Call → Prop
  | setDeliveryMode mode => mode < 8
  | _ => True

/-- The field that a call is about, and the value it is to have. -/
def gives : Call → Field × Nat
  | setVector vector => (.vector, vector.toNat)
  | setDeliveryMode mode => (.deliveryMode, mode.toNat)
  | setDestinationMode mode => (.destinationMode, flag mode)
  | setDeliveryStatus status => (.deliveryStatus, flag status)
  | setPolarity polarity => (.polarity, flag polarity)
  | setIrr irr => (.irr, flag irr)
  | setTriggerMode mode => (.triggerMode, flag mode)
  | setMask mask => (.mask, flag mask)
  | setDestination dest => (.destination, dest.toNat)
  | enable => (.mask, 0)
  | disable => (.mask, 1)

/-- The value that the call stores there. -/
def stores : Call → Field × Nat
  | enable => (.mask, 1)
  | disable => (.mask, 0)
  | call => call.gives

/-- The call names no mask bit itself. -/
def Switches : Call → Prop
  | enable => True
  | disable => True
  | _ => False

theorem stores_field (call : Call) : call.stores.1 = call.gives.1 := by
  cases call <;> rfl

theorem stores_eq_gives_iff (call : Call) :
    call.stores = call.gives ↔ ¬ call.Switches := by
  cases call <;> simp [stores, gives, Switches]

theorem gives_fits {call : Call} (small : call.Small) :
    call.gives.2 < 2 ^ call.gives.1.width := by
  cases call with
  | setVector vector => exact vector.toNat_lt
  | setDeliveryMode mode => exact small
  | setDestination dest => exact dest.toNat_lt
  | enable => decide
  | disable => decide
  | _ value => exact flag_lt value

theorem stores_fits {call : Call} (small : call.Small) :
    call.stores.2 < 2 ^ call.stores.1.width := by
  by_cases switches : call.Switches
  · cases call <;> first | exact switches.elim | decide
  · rw [(stores_eq_gives_iff call).mpr switches]
    exact gives_fits small

theorem perform_stored {bits : BitField} (documented : bits.Documented)
    (entry : RedirectionEntry) {call : Call} (small : call.Small) :
    ∃ next,
      call.perform bits entry = .ok next ∧
        Stored entry.word next.word call.stores.1.first call.stores.1.width
          call.stores.2 := by
  have bit {index : Nat} (inside : index < 32) (value : UInt8) :=
    setLowBit_stores entry documented inside value
  cases call with
  | setVector vector =>
      exact setLowBits_stores entry documented (by decide) (by decide)
        vector.toNat_lt
  | setDeliveryMode mode =>
      exact setLowBits_stores entry documented (by decide) (by decide) small
  | setDestination dest => exact setDestination_stores entry documented dest
  | setDestinationMode mode => exact bit (by decide) mode
  | setDeliveryStatus status => exact bit (by decide) status
  | setPolarity polarity => exact bit (by decide) polarity
  | setIrr irr => exact bit (by decide) irr
  | setTriggerMode mode => exact bit (by decide) mode
  | setMask mask => exact bit (by decide) mask
  | enable => exact bit (by decide) 1
  | disable => exact bit (by decide) 0

/-- A call stores one value, and leaves the other fields. -/
theorem perform_field {bits : BitField} (documented : bits.Documented)
    (entry : RedirectionEntry) {call : Call} (small : call.Small) :
    ∃ next,
      call.perform bits entry = .ok next ∧
        next.field = lastValues entry.field [call.stores] := by
  obtain ⟨next, performed, stored⟩ := perform_stored documented entry small
  exact ⟨next, performed, field_of_stored stored (stores_fits small)⟩

end Call

/-- The calls, one after the other, on a new entry. -/
def build (bits : BitField) (calls : List Call) :
    Except Panic RedirectionEntry :=
  calls.foldlM (fun entry call => call.perform bits entry) new

theorem field_new (field : Field) : new.field field = 0 := by
  cases field <;> rfl

/-- The last value given to each field. -/
def given (calls : List Call) : Field → Nat :=
  lastValues (fun _ => 0) (calls.map Call.gives)

/-- The last value stored in each field. -/
def stored (calls : List Call) : Field → Nat :=
  lastValues (fun _ => 0) (calls.map Call.stores)

theorem build_field {bits : BitField} (documented : bits.Documented)
    {calls : List Call} (small : ∀ call ∈ calls, call.Small) :
    ∃ entry, build bits calls = .ok entry ∧ entry.field = stored calls := by
  obtain ⟨entry, built, shown⟩ :=
    shown_foldlM (fun entry => field entry) (fun call => [Call.stores call])
      (fun entry call member =>
        Call.perform_field documented entry (small call member)) new
  refine ⟨entry, built, ?_⟩
  have start : new.field = fun _ => 0 := funext field_new
  rw [shown, start, stored, List.map_eq_flatMap]

/-- The last one of the calls that are about the mask bit. -/
def lastMaskCall (calls : List Call) : Option Call :=
  (calls.filter fun call => call.gives.1 = .mask).getLast?

theorem lastValues_mask {write : Call → Field × Nat}
    (fields : ∀ call, (write call).1 = call.gives.1) (calls : List Call) :
    lastValues (fun _ => 0) (calls.map write) .mask =
      ((lastMaskCall calls).map fun call => (write call).2).getD 0 := by
  rw [lastValues_eq_getLast, List.filter_map, List.getLast?_map,
    Option.map_map]
  simp only [lastMaskCall, Function.comp_def, fields]

theorem mem_of_lastMaskCall {calls : List Call} {call : Call}
    (last : lastMaskCall calls = some call) : call.gives.1 = .mask := by
  have member := List.mem_of_getLast? last
  exact of_decide_eq_true (List.mem_filter.mp member).2

theorem stored_mask_iff (calls : List Call) :
    stored calls .mask = given calls .mask ↔
      ∀ call, lastMaskCall calls = some call → ¬ call.Switches := by
  rw [stored, given, lastValues_mask Call.stores_field,
    lastValues_mask fun _ => rfl]
  cases last : lastMaskCall calls with
  | none => simp
  | some call =>
      have about := mem_of_lastMaskCall last
      have sameField := call.stores_field
      simp only [Option.map_some, Option.getD_some, Option.some.injEq,
        forall_eq']
      rw [← call.stores_eq_gives_iff, Prod.ext_iff]
      exact (and_iff_right sameField).symm

/-- `enable` and `disable` are about the mask bit, so that the other fields
hold what they were given. -/
theorem stored_eq_given (calls : List Call) {field : Field}
    (other : field ≠ .mask) : stored calls field = given calls field := by
  rw [stored, given, lastValues_eq_getLast, lastValues_eq_getLast,
    List.filter_map, List.filter_map, List.getLast?_map, List.getLast?_map,
    Option.map_map, Option.map_map]
  simp only [Function.comp_def, Call.stores_field]
  congr 1
  apply Option.map_congr
  intro call member
  have about : call.gives.1 = field := by
    have kept := List.mem_of_getLast? member
    exact of_decide_eq_true (List.mem_filter.mp kept).2
  have plain : ¬ call.Switches := by
    intro switches
    cases call <;> first | exact switches.elim | exact other about.symm
  rw [call.stores_eq_gives_iff.mpr plain]

theorem lastValues_fits {write : Call → Field × Nat} {calls : List Call}
    (each :
      ∀ call ∈ calls, (write call).2 < 2 ^ (write call).1.width)
    (field : Field) :
    lastValues (fun _ => 0) (calls.map write) field < 2 ^ field.width := by
  apply lastValues_induction
    (P := fun (field : Field) value => value < 2 ^ field.width)
  · intro field
    exact Nat.two_pow_pos _
  · intro write member
    obtain ⟨call, called, rfl⟩ := List.mem_map.mp member
    exact each call called

theorem stored_reserved (calls : List Call) : stored calls .reserved = 0 := by
  rw [stored, lastValues_eq_getLast]
  have untouched :
      (calls.map Call.stores).filter (fun write => write.1 = .reserved) =
        [] := by
    rw [List.filter_eq_nil_iff]
    intro write member
    obtain ⟨call, _, rfl⟩ := List.mem_map.mp member
    cases call <;> simp [Call.stores, Call.gives]
  rw [untouched]
  rfl

/-- The words of the entry are the packing of the last given values. -/
def Packs (bits : BitField) (calls : List Call) : Prop :=
  ∃ entry,
    build bits calls = .ok entry ∧
      entry.getLow.toNat = packed (given calls) % 2 ^ 32 ∧
      entry.getHigh.toNat = packed (given calls) / 2 ^ 32

theorem words_iff (entry : RedirectionEntry) (number : Nat) :
    entry.getLow.toNat = number % 2 ^ 32 ∧
        entry.getHigh.toNat = number / 2 ^ 32 ↔
      entry.word = number := by
  have low := entry.getLow.toNat_lt
  rw [word]
  omega

/-- The entry is right unless the mask bit was last written by `enable` or
`disable`. -/
theorem packs_iff {bits : BitField} (documented : bits.Documented)
    {calls : List Call} (small : ∀ call ∈ calls, call.Small) :
    Packs bits calls ↔
      ∀ call, lastMaskCall calls = some call → ¬ call.Switches := by
  obtain ⟨entry, built, shown⟩ := build_field documented small
  have holds : entry.word = packed (stored calls) := by
    rw [← shown]
    apply word_eq_packed
    rw [shown]
    exact stored_reserved calls
  have whole :
      Packs bits calls ↔ packed (stored calls) = packed (given calls) := by
    simp only [Packs, built, Except.ok.injEq, exists_eq_left', words_iff, holds]
  rw [whole, ← stored_mask_iff]
  constructor
  · apply packed_inj
    · exact lastValues_fits fun call member =>
        Call.stores_fits (small call member)
    · exact lastValues_fits fun call member =>
        Call.gives_fits (small call member)
  · intro mask
    congr 1
    funext field
    by_cases same : field = .mask
    · rw [same, mask]
    · exact stored_eq_given calls same

/-! ## The crate, bit by bit -/

/-- The word with the given bits. -/
def ofBits (bits : Nat → Bool) : UInt32 :=
  UInt32.ofNat (Nat.ofBits fun index : Fin 32 => bits index)

theorem testBit_ofBits (bits : Nat → Bool) (bit : Nat) :
    (ofBits bits).toNat.testBit bit = (decide (bit < 32) && bits bit) := by
  have small := Nat.ofBits_lt_two_pow fun index : Fin 32 => bits index
  rw [ofBits, UInt32.toNat_ofNat_of_lt' small]
  by_cases inside : bit < 32
  · rw [Nat.testBit_ofBits_lt _ _ inside]
    simp [inside]
  · rw [Nat.testBit_ofBits_ge _ _ (by omega)]
    simp [inside]

theorem testBit_word_of_le (word : UInt32) {bit : Nat} (outside : 32 ≤ bit) :
    word.toNat.testBit bit = false :=
  Nat.testBit_lt_two_pow
    (word.toNat_lt.trans_le (Nat.pow_le_pow_right (by decide) outside))

/-- The crate, which checks its arguments first. -/
def bitByBit : BitField where
  setBit word index value :=
    if index < 32 then
      .ok (ofBits fun bit =>
        if bit = index then value else word.toNat.testBit bit)
    else
      .error (.message "assertion failed: bit < Self::BIT_LENGTH")
  setBits word first last value :=
    if first ≤ last ∧ last < 32 ∧ value.toNat < 2 ^ (last + 1 - first) then
      .ok (ofBits fun bit =>
        if first ≤ bit ∧ bit ≤ last then value.toNat.testBit (bit - first)
        else word.toNat.testBit bit)
    else
      .error (.message "value does not fit into bit range")

theorem bitByBit_documented : bitByBit.Documented where
  setBit word index value inside := by
    refine ⟨_, if_pos inside, ?_⟩
    intro bit
    rw [testBit_ofBits]
    by_cases narrow : bit < 32
    · simp [narrow]
    · rw [if_neg (by omega), testBit_word_of_le word (by omega)]
      simp [narrow]
  setBits word first last value ordered inside fits := by
    refine ⟨_, if_pos ⟨ordered, inside, fits⟩, ?_⟩
    intro bit
    rw [testBit_ofBits]
    by_cases narrow : bit < 32
    · simp [narrow]
    · rw [if_neg (by omega), testBit_word_of_le word (by omega)]
      simp [narrow]

/-- An entry that is unmasked by its setter. -/
theorem packs_iff_serial :
    Packs bitByBit
      [.disable, .setVector 0x45, .setDeliveryMode 7, .setMask 0,
        .setVector 0x46] := by
  rw [packs_iff bitByBit_documented]
  · intro call last
    cases last
    exact id
  · simp [Call.Small]

/-- An enabled entry is masked. -/
theorem enable_masks :
    ¬ Packs bitByBit [.setVector 0x45, .enable] ∧
      build bitByBit [.setVector 0x45, .enable] = .ok ⟨0x10045, 0⟩ ∧
      packed (given [.setVector 0x45, .enable]) = 0x45 := by
  have built :
      build bitByBit [.setVector 0x45, .enable] = .ok ⟨0x10045, 0⟩ := by
    decide +kernel
  have given :
      packed (given [.setVector 0x45, .enable]) = 0x45 := by
    decide
  refine ⟨?_, built, given⟩
  rintro ⟨entry, other, low, _⟩
  rw [built] at other
  cases other
  rw [given] at low
  revert low
  decide

end RedirectionEntry

end RustKernel.Kernel
