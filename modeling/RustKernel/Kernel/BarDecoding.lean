import Mathlib.Data.List.GetD
import RustKernel.Kernel.BarRegisters

/-!
# What `get_bars` makes of well-formed registers

A base address register holds the base of a range and the bits of its type;
its writable bits are those of the addresses that are aligned to the size of
the range.  `get_bars` recovers the sizes of 32-bit memory ranges.  The size
of a 64-bit range comes out wrong or stops the kernel, and an I/O range is
right only if its length fits a `u8` and it ends below the last port.
-/

namespace RustKernel.Kernel

open RustKernel.Foundations
open RustKernel.Machine

/-! ## Size masks -/

section Masks

variable {low high value rest : Nat}

theorem sizeMask_eq (ordered : low ≤ high) :
    2 ^ high - 2 ^ low = 2 ^ low * (2 ^ (high - low) - 1) := by
  rw [Nat.mul_sub, ← Nat.pow_add, Nat.add_sub_cancel' ordered, Nat.mul_one]

/-- The mask has the bits from `low` up to `high`. -/
theorem testBit_sizeMask (ordered : low ≤ high) (bit : Nat) :
    (2 ^ high - 2 ^ low).testBit bit = decide (low ≤ bit ∧ bit < high) := by
  rw [sizeMask_eq ordered, Nat.testBit_two_pow_mul, Nat.testBit_two_pow_sub_one]
  by_cases above : low ≤ bit
  · have shifted : bit - low < high - low ↔ bit < high := by omega
    simp [above, shifted]
  · simp [above]

theorem and_sizeMask (ordered : low ≤ high) (small : value < 2 ^ high) :
    value &&& (2 ^ high - 2 ^ low) = value / 2 ^ low * 2 ^ low := by
  apply Nat.eq_of_testBit_eq
  intro bit
  rw [Nat.testBit_and, testBit_sizeMask ordered, Nat.testBit_mul_two_pow,
    Nat.testBit_div_two_pow]
  by_cases above : low ≤ bit
  · by_cases below : bit < high
    · simp [above, below]
    · have clear : value.testBit bit = false :=
        Nat.testBit_lt_two_pow
          (small.trans_le (Nat.pow_le_pow_right (by decide) (by omega)))
      simp [above, below, clear]
  · simp [above]

/-- An aligned value, with the bits below the mask kept. -/
theorem or_sizeMask (ordered : low ≤ high) (aligned : 2 ^ low ∣ value)
    (small : value < 2 ^ high) (below : rest < 2 ^ low) :
    value + rest ||| (2 ^ high - 2 ^ low) = 2 ^ high - 2 ^ low + rest := by
  obtain ⟨quotient, rfl⟩ := aligned
  apply Nat.eq_of_testBit_eq
  intro bit
  rw [Nat.testBit_or, testBit_sizeMask ordered, sizeMask_eq ordered,
    Nat.testBit_two_pow_mul_add _ below, Nat.testBit_two_pow_mul_add _ below,
    Nat.testBit_two_pow_sub_one]
  by_cases under : bit < low
  · simp [under, Nat.not_le_of_lt under]
  · have shifted : bit - low < high - low ↔ bit < high := by omega
    by_cases inside : bit < high
    · simp [under, inside, shifted, Nat.le_of_not_lt under]
    · have clear : quotient.testBit (bit - low) = false := by
        apply Nat.testBit_lt_two_pow
        apply Nat.lt_of_mul_lt_mul_left (a := 2 ^ low)
        rw [← Nat.pow_add]
        exact small.trans_le (Nat.pow_le_pow_right (by decide) (by omega))
      simp [under, inside, shifted, clear]

end Masks

section Words

variable (word : UInt32)

theorem toNat_and_ports : (word &&& 0xFFFFFFFC).toNat = word.toNat / 4 * 4 := by
  rw [UInt32.toNat_and]
  have masked :
      word.toNat &&& (2 ^ 32 - 2 ^ 2) = word.toNat / 2 ^ 2 * 2 ^ 2 :=
    and_sizeMask (by decide) word.toNat_lt
  exact masked

theorem toNat_and_address :
    (word &&& 0xFFFFFFF0).toNat = word.toNat / 16 * 16 := by
  rw [UInt32.toNat_and]
  have masked :
      word.toNat &&& (2 ^ 32 - 2 ^ 4) = word.toNat / 2 ^ 4 * 2 ^ 4 :=
    and_sizeMask (by decide) word.toNat_lt
  exact masked

theorem used_iff (bar : Bar) : bar.used ↔ bar.data.toNat ≠ 0 :=
  not_congr UInt32.toNat_inj.symm

theorem isIo_iff (bar : Bar) : bar.isIo ↔ bar.data.toNat % 2 = 1 := by
  rw [Bar.isIo, ← UInt32.toNat_inj.ne, UInt32.toNat_and]
  have bit : bar.data.toNat &&& (1 : UInt32).toNat = bar.data.toNat % 2 :=
    Nat.and_two_pow_sub_one_eq_mod _ 1
  rw [bit]
  simp

theorem is64bit_iff (bar : Bar) :
    bar.is64bit ↔ bar.data.toNat / 2 % 4 = 2 := by
  rw [Bar.is64bit, ← UInt32.toNat_inj, UInt32.toNat_and,
    UInt32.toNat_shiftRight]
  have bits :
      bar.data.toNat >>> ((1 : UInt32).toNat % 32) &&& (3 : UInt32).toNat =
        bar.data.toNat / 2 % 4 := by
    have shifted :
        bar.data.toNat >>> ((1 : UInt32).toNat % 32) = bar.data.toNat / 2 := by
      rw [Nat.shiftRight_eq_div_pow]
      rfl
    rw [shifted]
    exact Nat.and_two_pow_sub_one_eq_mod _ 2
  rw [bits]
  rfl

theorem negateU32_ok {word result : UInt32} :
    negateU32 word = .ok result ↔
      word.toNat ≠ 0 ∧ result.toNat = 2 ^ 32 - word.toNat := by
  have bound := word.toNat_lt
  have negated :
      word.toNat ≠ 0 → (~~~word + 1).toNat = 2 ^ 32 - word.toNat := by
    intro some
    rw [UInt32.toNat_add, UInt32.toNat_not]
    simp [UInt32.size]
    omega
  rw [negateU32]
  by_cases zero : word = 0
  · rw [if_pos zero]
    simp [zero]
  · have some : word.toNat ≠ 0 := UInt32.toNat_inj.ne.mpr zero
    rw [if_neg zero, Except.ok.injEq, ← UInt32.toNat_inj, negated some]
    exact ⟨fun same => ⟨some, same.symm⟩, fun same => same.2.symm⟩

theorem negateU64_ok {word result : UInt64} :
    negateU64 word = .ok result ↔
      word.toNat ≠ 0 ∧ result.toNat = 2 ^ 64 - word.toNat := by
  have bound := word.toNat_lt
  have negated :
      word.toNat ≠ 0 → (~~~word + 1).toNat = 2 ^ 64 - word.toNat := by
    intro some
    rw [UInt64.toNat_add, UInt64.toNat_not]
    simp [UInt64.size]
    omega
  rw [negateU64]
  by_cases zero : word = 0
  · rw [if_pos zero]
    simp [zero]
  · have some : word.toNat ≠ 0 := UInt64.toNat_inj.ne.mpr zero
    rw [if_neg zero, Except.ok.injEq, ← UInt64.toNat_inj, negated some]
    exact ⟨fun same => ⟨some, same.symm⟩, fun same => same.2.symm⟩

theorem addU64_ok {left right sum : UInt64}
    (added : addU64 left right = .ok sum) :
    sum.toNat = left.toNat + right.toNat := by
  rw [addU64] at added
  split at added
  · cases added
    rw [UInt64.toNat_add]
    exact Nat.mod_eq_of_lt ‹_›
  · cases added

end Words

/-! ## Implemented registers -/

/-- A range of `2 ^ bits` addresses of a space with `2 ^ space` addresses. -/
structure BarRange (lowest highest space : Nat) where
  base : Nat
  bits : Nat
  lowest_le : lowest ≤ bits
  le_highest : bits ≤ highest
  aligned : 2 ^ bits ∣ base
  inside : base + 2 ^ bits ≤ 2 ^ space

/-- What a base address register implements.  The upper half of an I/O
register may be writable. -/
inductive ImplementedBar where
  | absent
  | io (upperHalf : Bool) (range : BarRange 2 16 16)
  | memory32 (prefetchable : Bool) (range : BarRange 4 31 32)
  | memory64 (prefetchable : Bool) (range : BarRange 4 63 64)

namespace ImplementedBar

/-- The contents and the writable bits of its registers. -/
def registers : ImplementedBar → List (UInt32 × UInt32)
  | absent => [(0, 0)]
  | io upperHalf range =>
      [(.ofNat (range.base + 1),
        .ofNat (2 ^ (if upperHalf then 32 else 16) - 2 ^ range.bits))]
  | memory32 prefetchable range =>
      [(.ofNat (range.base + 8 * prefetchable.toNat),
        .ofNat (2 ^ 32 - 2 ^ range.bits))]
  | memory64 prefetchable range =>
      [(.ofNat (range.base % 2 ^ 32 + (4 + 8 * prefetchable.toNat)),
        .ofNat ((2 ^ 64 - 2 ^ range.bits) % 2 ^ 32)),
        (.ofNat (range.base / 2 ^ 32),
          .ofNat ((2 ^ 64 - 2 ^ range.bits) / 2 ^ 32))]

/-- The register, or the low one of the two. -/
def content (bar : ImplementedBar) : UInt32 := (bar.registers.headD (0, 0)).1

/-- The resource has the base and the length of the range. -/
def Shows {I : Type} : ImplementedBar → Resource I → Prop
  | io _ range, .ioPort descriptor =>
      descriptor.memoryRange.1.toNat = range.base ∧
        descriptor.memoryRange.2.toNat + 1 = range.base + 2 ^ range.bits ∧
        descriptor.rangeLength.toNat = 2 ^ range.bits
  | memory32 _ range, .memoryRange (.fixedLocation _ base length) =>
      base.toNat = range.base ∧ length.toNat = 2 ^ range.bits
  | memory64 _ range, .memoryRange (.fixedLocation64 _ base length) =>
      base.toNat = range.base ∧ length.toNat = 2 ^ range.bits
  | _, _ => False

/-- The bars that `get_bars` gets right. -/
def Decodable : ImplementedBar → Prop
  | absent => True
  | io _ range => range.bits ≤ 7 ∧ range.base + 2 ^ range.bits < 2 ^ 16
  | memory32 _ _ => True
  | memory64 _ _ => False

/-- The registers from a number on are those of the bar. -/
def At (bar : ImplementedBar) (held writable : FunctionRegisters)
    (number : Nat) : Prop :=
  bar.registers =
    (List.range' number bar.registers.length).map fun number =>
      (held number, writable number)

theorem At.content {bar : ImplementedBar} {held writable : FunctionRegisters}
    {number : Nat} (shown : bar.At held writable number) :
    held number = bar.content := by
  rw [At] at shown
  rw [ImplementedBar.content, shown]
  cases bar <;> rfl

end ImplementedBar

/-! ## I/O ranges -/

theorem lastPort_ok {left right last : UInt16} :
    lastPort left right = .ok last ↔
      left.toNat + right.toNat < 2 ^ 16 ∧ left.toNat + right.toNat ≠ 0 ∧
        last.toNat + 1 = left.toNat + right.toNat := by
  have leftBound := left.toNat_lt
  have rightBound := right.toNat_lt
  rw [lastPort]
  by_cases fits : left.toNat + right.toNat < 2 ^ 16
  · have total : (left + right).toNat = left.toNat + right.toNat := by
      rw [UInt16.toNat_add, Nat.mod_eq_of_lt fits]
    rw [if_pos fits]
    by_cases zero : left + right = 0
    · have none : left.toNat + right.toNat = 0 := by
        rw [← total, zero]
        rfl
      simp [zero, none]
    · have some : left.toNat + right.toNat ≠ 0 := by
        rw [← total]
        exact UInt16.toNat_inj.ne.mpr zero
      have before :
          (left + right - 1).toNat = left.toNat + right.toNat - 1 := by
        rw [UInt16.toNat_sub_of_le, total]
        · rfl
        · rw [UInt16.le_iff_toNat_le, total]
          exact Nat.one_le_iff_ne_zero.mpr some
      rw [if_neg zero, Except.ok.injEq, ← UInt16.toNat_inj, before]
      omega
  · rw [if_neg fits]
    exact iff_of_false (by simp) fun sum => fits sum.1

theorem ioPort_ok {I : Type} {bar : Bar} {barl : UInt32}
    {resource : Resource I} :
    bar.ioPort barl = .ok resource ↔
      ∃ negated last,
        negateU32 (barl &&& 0xFFFFFFFC) = .ok negated ∧
          lastPort bar.getIo.toUInt16 negated.toUInt16 = .ok last ∧
          resource =
            .ioPort ⟨(bar.getIo.toUInt16, last), 1, false,
              negated.toUInt16.toUInt8⟩ := by
  rw [Bar.ioPort, except_bind_eq_ok]
  simp only [except_bind_eq_ok, pure, Except.pure, Except.ok.injEq,
    exists_and_left]
  simp only [eq_comm]

namespace BarRange

variable {lowest highest space : Nat} (range : BarRange lowest highest space)

theorem base_lt : range.base < 2 ^ space := by
  have size := Nat.two_pow_pos range.bits
  have inside := range.inside
  omega

theorem dvd_size (bits : Nat) (small : bits ≤ lowest) :
    2 ^ bits ∣ 2 ^ range.bits :=
  Nat.pow_dvd_pow 2 (small.trans range.lowest_le)

theorem size_le (bits : Nat) (large : highest ≤ bits) :
    2 ^ range.bits ≤ 2 ^ bits :=
  Nat.pow_le_pow_right (by decide) (range.le_highest.trans large)

/-- What the register reads after all ones are written, and its address bits. -/
theorem readBack {high rest : Nat} (spaceFits : space ≤ high)
    (inWord : high ≤ 32) (highest_le : highest ≤ high)
    (below : rest < 2 ^ lowest) :
    (UInt32.ofNat (range.base + rest) |||
        UInt32.ofNat (2 ^ high - 2 ^ range.bits)).toNat =
      2 ^ high - 2 ^ range.bits + rest := by
  have base := range.base_lt
  have inside := range.inside
  have lowest := range.size_le highest (Nat.le_refl _)
  have size := Nat.pow_le_pow_right (show 0 < 2 by decide) range.lowest_le
  have word := Nat.pow_le_pow_right (show 0 < 2 by decide) inWord
  have whole := Nat.pow_le_pow_right (show 0 < 2 by decide) spaceFits
  rw [UInt32.toNat_or, UInt32.toNat_ofNat_of_lt' (by simp [UInt32.size]; omega),
    UInt32.toNat_ofNat_of_lt' (by simp [UInt32.size]; omega)]
  exact or_sizeMask (range.le_highest.trans highest_le) range.aligned
    (by omega) (by omega)

end BarRange

namespace ImplementedBar

variable {I : Type} {bar : Bar} {barl : UInt32}

section Io

variable {upperHalf : Bool} {range : BarRange 2 16 16}

theorem getIo_toNat (data : bar.data = .ofNat (range.base + 1)) :
    bar.getIo.toUInt16.toNat = range.base := by
  have base := range.base_lt
  have aligned := (range.dvd_size 2 (by decide)).trans range.aligned
  rw [UInt32.toNat_toUInt16, Bar.getIo, toNat_and_ports, data,
    UInt32.toNat_ofNat_of_lt' (by simp [UInt32.size]; omega)]
  omega

theorem ports_masked
    (read :
      barl.toNat =
        2 ^ (if upperHalf then 32 else 16) - 2 ^ range.bits + 1) :
    (barl &&& 0xFFFFFFFC).toNat =
      2 ^ (if upperHalf then 32 else 16) - 2 ^ range.bits := by
  have four := range.dvd_size 2 (by decide)
  have small := range.size_le 16 (by decide)
  rw [toNat_and_ports, read]
  split <;> omega

/-- The length, cut to sixteen bits. -/
theorem ports_negated
    (read :
      barl.toNat =
        2 ^ (if upperHalf then 32 else 16) - 2 ^ range.bits + 1)
    {negated : UInt32}
    (computed : negateU32 (barl &&& 0xFFFFFFFC) = .ok negated) :
    negated.toUInt16.toNat = 2 ^ range.bits % 2 ^ 16 := by
  have small := range.size_le 16 (by decide)
  have positive := Nat.two_pow_pos range.bits
  have size := (negateU32_ok.mp computed).2
  rw [ports_masked read] at size
  rw [UInt32.toNat_toUInt16, size]
  split <;> omega

theorem io_shown (data : bar.data = .ofNat (range.base + 1))
    (read :
      barl.toNat =
        2 ^ (if upperHalf then 32 else 16) - 2 ^ range.bits + 1) :
    (∃ resource : Resource I,
        bar.ioPort barl = .ok resource ∧
          (io upperHalf range).Shows resource) ↔
      (io upperHalf range).Decodable := by
  have port := getIo_toNat data
  have small := range.size_le 16 (by decide)
  have positive := Nat.two_pow_pos range.bits
  have short : range.bits ≤ 7 ↔ 2 ^ range.bits < 2 ^ 8 := by
    rw [Nat.pow_lt_pow_iff_right (by decide)]
    omega
  rw [Decodable, short]
  constructor
  · rintro ⟨resource, decoded, shown⟩
    obtain ⟨negated, last, computed, ended, rfl⟩ := ioPort_ok.mp decoded
    obtain ⟨_, _, whole⟩ := shown
    obtain ⟨fits, _, _⟩ := lastPort_ok.mp ended
    have cut := ports_negated read computed
    rw [UInt16.toNat_toUInt8] at whole
    rw [port] at fits
    omega
  · rintro ⟨few, fits⟩
    have some : (barl &&& 0xFFFFFFFC).toNat ≠ 0 := by
      rw [ports_masked read]
      split <;> omega
    have computed :
        negateU32 (barl &&& 0xFFFFFFFC) = .ok (~~~(barl &&& 0xFFFFFFFC) + 1) :=
      if_neg (UInt32.toNat_inj.ne.mp some)
    have cut := ports_negated read computed
    have ended :
        ∃ last,
          lastPort bar.getIo.toUInt16
            (~~~(barl &&& 0xFFFFFFFC) + 1).toUInt16 = .ok last := by
      refine ⟨.ofNat (range.base + 2 ^ range.bits - 1), lastPort_ok.mpr ?_⟩
      rw [port, cut, UInt16.toNat_ofNat_of_lt' (by simp [UInt16.size]; omega)]
      omega
    obtain ⟨last, ended⟩ := ended
    refine ⟨_, ioPort_ok.mpr ⟨_, last, computed, ended, rfl⟩, ?_⟩
    have sum := (lastPort_ok.mp ended).2.2
    have final : last.toNat + 1 = range.base + 2 ^ range.bits := by
      rw [port, cut] at sum
      omega
    rw [Shows, UInt16.toNat_toUInt8, cut]
    refine ⟨port, final, ?_⟩
    omega

end Io

theorem memory32_shown {prefetchable : Bool} {range : BarRange 4 31 32}
    (data : bar.data = .ofNat (range.base + 8 * prefetchable.toNat))
    (read :
      barl.toNat = 2 ^ 32 - 2 ^ range.bits + 8 * prefetchable.toNat) :
    ∃ resource : Resource I,
      bar.memory32 barl = .ok resource ∧
        (memory32 prefetchable range).Shows resource := by
  have sixteen := range.dvd_size 4 (by decide)
  have small := range.size_le 31 (by decide)
  have positive := Nat.two_pow_pos range.bits
  have inside := range.inside
  have aligned := sixteen.trans range.aligned
  have type : prefetchable.toNat ≤ 1 := prefetchable.toNat_le
  have masked : (barl &&& 0xFFFFFFF0).toNat = 2 ^ 32 - 2 ^ range.bits := by
    rw [toNat_and_address, read]
    omega
  have address : bar.getAddress.toNat = range.base := by
    rw [Bar.getAddress, toNat_and_address, data,
      UInt32.toNat_ofNat_of_lt' (by simp [UInt32.size]; omega)]
    omega
  have some : (barl &&& 0xFFFFFFF0).toNat ≠ 0 := by omega
  have computed :
      negateU32 (barl &&& 0xFFFFFFF0) = .ok (~~~(barl &&& 0xFFFFFFF0) + 1) :=
    if_neg (UInt32.toNat_inj.ne.mp some)
  have size := (negateU32_ok.mp computed).2
  refine ⟨_, except_bind_eq_ok.mpr ⟨_, computed, rfl⟩, address, ?_⟩
  rw [size, masked]
  omega

/-- The complement of the high half is taken with the width of the sum. -/
theorem memory64_not_shown {prefetchable : Bool} {range : BarRange 4 63 64}
    {nar : Bar} {narl : UInt32} {resource : Resource I}
    (decoded : bar.memory64 nar barl narl = .ok resource) :
    ¬ (memory64 prefetchable range).Shows resource := by
  rw [Bar.memory64, except_bind_eq_ok] at decoded
  simp only [except_bind_eq_ok] at decoded
  obtain ⟨length, _, nlength, negated, rangeLength, added, closed⟩ := decoded
  cases closed
  rintro ⟨_, size⟩
  have small := range.size_le 63 (by decide)
  have narrow := narl.toNat_lt
  have masked : (narl.toUInt64 &&& 0xFFFFFFF0).toNat ≤ narl.toNat := by
    rw [UInt64.toNat_and, UInt32.toNat_toUInt64]
    exact Nat.and_le_left
  have high := (negateU64_ok.mp negated).2
  have sum := addU64_ok added
  change rangeLength.toNat = 2 ^ range.bits at size
  omega

/-! ## A turn at a bar -/

section Turn

variable {held writable : FunctionRegisters} {number : Nat}

theorem At.single {bar : ImplementedBar} {content mask : UInt32}
    (shown : bar.At held writable number)
    (one : bar.registers = [(content, mask)]) :
    content = held number ∧ mask = writable number := by
  rw [At, one] at shown
  injection shown with pair
  injection pair with sameContent sameMask
  exact ⟨sameContent, sameMask⟩

theorem At.io {upperHalf : Bool} {range : BarRange 2 16 16}
    (shown : (io upperHalf range).At held writable number) :
    held number = .ofNat (range.base + 1) ∧
      (held number ||| writable number).toNat =
        2 ^ (if upperHalf then 32 else 16) - 2 ^ range.bits + 1 := by
  obtain ⟨content, mask⟩ := shown.single rfl
  rw [← content, ← mask]
  refine ⟨rfl, ?_⟩
  cases upperHalf with
  | true =>
      exact range.readBack (by decide) (by decide) (by decide) (by decide)
  | false =>
      exact range.readBack (by decide) (by decide) (by decide) (by decide)

theorem At.memory32 {prefetchable : Bool} {range : BarRange 4 31 32}
    (shown : (memory32 prefetchable range).At held writable number) :
    held number = .ofNat (range.base + 8 * prefetchable.toNat) ∧
      (held number ||| writable number).toNat =
        2 ^ 32 - 2 ^ range.bits + 8 * prefetchable.toNat := by
  have type := prefetchable.toNat_le
  obtain ⟨content, mask⟩ := shown.single rfl
  rw [← content, ← mask]
  exact ⟨rfl,
    range.readBack (by decide) (by decide) (by decide) (by omega)⟩

/-- The content has the type bits of the bar. -/
def Typed : ImplementedBar → Nat → Prop
  | absent, content => content = 0
  | io _ _, content => content % 2 = 1
  | memory32 _ _, content => content % 2 = 0 ∧ content / 2 % 4 = 0
  | memory64 _ _, content => content % 2 = 0 ∧ content / 2 % 4 = 2

theorem At.typed {bar : ImplementedBar}
    (shown : bar.At held writable number) :
    bar.Typed (held number).toNat := by
  rw [shown.content]
  cases bar with
  | absent => rfl
  | io upperHalf range =>
      have base := range.base_lt
      have four := (range.dvd_size 2 (by decide)).trans range.aligned
      change (UInt32.ofNat (range.base + 1)).toNat % 2 = 1
      rw [UInt32.toNat_ofNat_of_lt' (by simp [UInt32.size]; omega)]
      omega
  | memory32 prefetchable range =>
      have base := range.base_lt
      have type := prefetchable.toNat_le
      have four := (range.dvd_size 4 (by decide)).trans range.aligned
      change
        (UInt32.ofNat (range.base + 8 * prefetchable.toNat)).toNat % 2 = 0 ∧
          (UInt32.ofNat (range.base + 8 * prefetchable.toNat)).toNat / 2 % 4 =
            0
      rw [UInt32.toNat_ofNat_of_lt' (by simp [UInt32.size]; omega)]
      omega
  | memory64 prefetchable range =>
      have type := prefetchable.toNat_le
      have four := (range.dvd_size 4 (by decide)).trans range.aligned
      change
        (UInt32.ofNat
            (range.base % 2 ^ 32 + (4 + 8 * prefetchable.toNat))).toNat % 2 =
            0 ∧
          (UInt32.ofNat
              (range.base % 2 ^ 32 + (4 + 8 * prefetchable.toNat))).toNat /
              2 % 4 = 2
      rw [UInt32.toNat_ofNat_of_lt' (by simp [UInt32.size]; omega)]
      omega

theorem At.passed {bar : ImplementedBar}
    (shown : bar.At held writable number) :
    passedBy held number + 1 = bar.registers.length := by
  have typed := shown.typed
  have passed : passedBy held number =
      if (held number).toNat % 2 ≠ 1 ∧ (held number).toNat / 2 % 4 = 2 then 1
      else 0 := by
    simp only [passedBy, Pairs, isIo_iff, is64bit_iff]
  rw [passed]
  cases bar with
  | memory64 prefetchable range =>
      rw [Typed] at typed
      rw [if_pos (by omega)]
      rfl
  | _ =>
      rw [Typed] at typed
      rw [if_neg (by omega)]
      rfl

/-- A turn at a register that is not zero has a resource. -/
theorem turnResource_isSome {resource : Option (Resource I)}
    (turn : turnResource writable held number = .ok resource) :
    resource.isSome = true ↔ held number ≠ 0 := by
  have some {outcome : Except Panic (Resource I)}
      (decoded : Option.some <$> outcome = .ok resource) :
      resource.isSome = true := by
    cases outcome with
    | error fault => cases decoded
    | ok value =>
        cases decoded
        rfl
  rw [turnResource] at turn
  by_cases used : (Bar.mk (held number)).used
  · rw [if_neg (not_not.mpr used)] at turn
    refine ⟨fun _ => used, fun _ => ?_⟩
    split at turn
    · exact some turn
    · split at turn
      · exact some turn
      · exact some turn
  · rw [if_pos used] at turn
    cases turn
    exact iff_of_false Bool.false_ne_true used

theorem map_some_ok {outcome : Except Panic (Resource I)}
    {P : Resource I → Prop} :
    (∃ resource, some <$> outcome = .ok resource ∧
        ∀ shown ∈ resource, P shown) ↔
      ∃ resource, outcome = .ok resource ∧ P resource := by
  cases outcome with
  | error fault => simp [Functor.map, Except.map]
  | ok value => simp [Functor.map, Except.map]

/-- A turn is right if and only if the bar is one of the decodable ones. -/
theorem At.turn_iff {bar : ImplementedBar}
    (shown : bar.At held writable number) :
    (∃ resource : Option (Resource I),
        turnResource writable held number = .ok resource ∧
          ∀ found ∈ resource, bar.Shows found) ↔
      bar.Decodable := by
  have typed := shown.typed
  have used : (Bar.mk (held number)).used ↔ (held number).toNat ≠ 0 :=
    used_iff _
  have isIo : (Bar.mk (held number)).isIo ↔ (held number).toNat % 2 = 1 :=
    isIo_iff _
  have wide :
      (Bar.mk (held number)).is64bit ↔ (held number).toNat / 2 % 4 = 2 :=
    is64bit_iff _
  cases bar with
  | absent =>
      rw [Typed] at typed
      rw [turnResource, if_pos (by rw [used]; exact not_not.mpr typed)]
      simp [Decodable]
  | io upperHalf range =>
      rw [Typed] at typed
      rw [turnResource, if_neg (not_not.mpr (used.mpr (by omega))),
        if_pos (isIo.mpr typed), map_some_ok]
      exact io_shown shown.io.1 shown.io.2
  | memory32 prefetchable range =>
      rw [Typed] at typed
      rw [turnResource]
      by_cases present : (Bar.mk (held number)).used
      · rw [if_neg (not_not.mpr present), if_neg (by rw [isIo]; omega),
          if_neg (by rw [wide]; omega), map_some_ok]
        exact iff_of_true (memory32_shown shown.memory32.1 shown.memory32.2)
          trivial
      · rw [if_pos present]
        simp [Decodable]
  | memory64 prefetchable range =>
      rw [Typed] at typed
      rw [turnResource, if_neg (not_not.mpr (used.mpr (by omega))),
        if_neg (by rw [isIo]; omega), if_pos (wide.mpr typed.2), map_some_ok]
      refine iff_of_false ?_ id
      rintro ⟨resource, decoded, right⟩
      exact memory64_not_shown decoded right

end Turn

end ImplementedBar

/-! ## Layouts -/

/-- The implemented registers of a function with a type 0 header, or of a
bridge with a type 1 header, from the first to the last one. -/
structure BarLayout where
  bridge : Bool
  bars : List ImplementedBar
  filled :
    (bars.flatMap ImplementedBar.registers).length = if bridge then 2 else 6

/-- The registers from a number on are those of the bars. -/
def BarsAt (bars : List ImplementedBar) (held writable : FunctionRegisters)
    (number : Nat) : Prop :=
  bars.flatMap ImplementedBar.registers =
    (List.range' number (bars.flatMap ImplementedBar.registers).length).map
      fun number => (held number, writable number)

section Loops

variable {I : Type} {held writable : FunctionRegisters} {number : Nat}

theorem barsAt_cons {bar : ImplementedBar} {bars : List ImplementedBar}
    (shown : BarsAt (bar :: bars) held writable number) :
    bar.At held writable number ∧
      BarsAt bars held writable (number + bar.registers.length) := by
  rw [BarsAt, List.flatMap_cons, List.length_append, ← List.range'_append_1,
    List.map_append] at shown
  exact List.append_inj shown (by simp)

theorem BarsAt.filled {bars : List ImplementedBar} {last : Nat}
    (shown : BarsAt bars held writable number) (before : last ≤ number)
    (first : Nat) :
    BarsAt bars (filled writable held first last) writable number := by
  rw [BarsAt, shown]
  rw [List.length_map, List.length_range']
  apply List.map_congr_left
  intro other member
  have beyond := (List.mem_range'_1.mp member).1
  rw [filled_eq_of_le (before.trans beyond)]

/-- The resources are those of the bars whose registers are not zero, in
their order. -/
def Decoded (bars : List ImplementedBar) (resources : List (Resource I)) :
    Prop :=
  List.Forall₂ ImplementedBar.Shows
    (bars.filter fun bar => bar.content ≠ 0) resources

theorem decoded_cons {bar : ImplementedBar} {bars : List ImplementedBar}
    {resource : Option (Resource I)} {later : List (Resource I)}
    (one : resource.isSome = true ↔ bar.content ≠ 0) :
    Decoded (bar :: bars) (resource.toList ++ later) ↔
      (∀ found ∈ resource, bar.Shows found) ∧ Decoded bars later := by
  cases resource with
  | none =>
      have zero : bar.content = 0 := by simpa using one
      simp [Decoded, zero]
  | some value =>
      have present : bar.content ≠ 0 := by simpa using one
      simp [Decoded, present]

/-- The loop is right if and only if every turn is. -/
theorem barsFrom_decoded_iff (address : FunctionAddress)
    {bars : List ImplementedBar} {toVal index : Nat} (small : toVal ≤ 6)
    (whole :
      index + (bars.flatMap ImplementedBar.registers).length = toVal)
    (shown : BarsAt bars held writable (barNumber index)) :
    (∃ (resources : List (Resource I)) (final : FunctionRegisters),
        (barsFrom (registerConfig writable) address toVal index).run held =
            .ok resources final ∧
          Decoded bars resources) ↔
      ∀ bar ∈ bars, bar.Decodable := by
  induction bars generalizing index held with
  | nil =>
      rw [barsFrom, dif_neg (by simp at whole; omega)]
      refine iff_of_true ⟨[], held, rfl, List.Forall₂.nil⟩ (by simp)
  | cons bar bars inductionHypothesis =>
      obtain ⟨own, rest⟩ := barsAt_cons shown
      have passed := own.passed
      rw [List.flatMap_cons, List.length_append] at whole
      have next :
          barNumber index + bar.registers.length =
            barNumber (index + 1 + passedBy held (barNumber index)) := by
        rw [barNumber, barNumber]
        rw [barNumber] at passed
        omega
      have moved :
          BarsAt bars
            (filled writable held (barNumber index)
              (barNumber index + 1 + passedBy held (barNumber index)))
            writable
            (barNumber (index + 1 + passedBy held (barNumber index))) := by
        rw [← next]
        exact rest.filled (by omega) _
      have later := inductionHypothesis (by omega) moved
      rw [List.forall_mem_cons, ← own.turn_iff (I := I), ← later]
      constructor
      · rintro ⟨resources, final, returned, right⟩
        obtain ⟨resource, after, turned, looped, rfl⟩ :=
          (barsFrom_registers_ok address (by omega) (by omega)).mp returned
        have one := ImplementedBar.turnResource_isSome turned
        rw [own.content] at one
        obtain ⟨here, there⟩ := (decoded_cons one).mp right
        exact ⟨⟨resource, turned, here⟩, after, final, looped, there⟩
      · rintro ⟨⟨resource, turned, here⟩, after, final, looped, there⟩
        have one := ImplementedBar.turnResource_isSome turned
        rw [own.content] at one
        exact ⟨_, final,
          (barsFrom_registers_ok address (by omega) (by omega)).mpr
            ⟨resource, after, turned, looped, rfl⟩,
          (decoded_cons one).mpr ⟨here, there⟩⟩

end Loops

namespace BarLayout

/-- The function has the header and the registers of the layout. -/
structure ShownIn (layout : BarLayout)
    (held writable : FunctionRegisters) : Prop where
  header :
    (held 3 >>> 16).toUInt8 &&& 0x7F = if layout.bridge then 1 else 0
  bars : BarsAt layout.bars held writable (barNumber 0)

variable {I : Type} {layout : BarLayout} {held writable : FunctionRegisters}

theorem ShownIn.getBars_run (shown : layout.ShownIn held writable)
    (address : FunctionAddress) :
    (getBars (registerConfig writable) address :
          EStateM Panic FunctionRegisters (List (Resource I))).run held =
      (barsFrom (registerConfig writable) address
          (if layout.bridge then 2 else 6) 0).run held := by
  have read :
      ((registerConfig writable).readU8 address Pci.headerType).run held =
        .ok (held 3 >>> 16).toUInt8 held := rfl
  have header := shown.header
  rw [getBars, bind_run_of_ok _ read, header]
  cases layout.bridge <;> rfl

/-- The registers of a function that has just those of the layout. -/
def heldBy (layout : BarLayout) : FunctionRegisters := fun number =>
  if number = 3 then
    if layout.bridge then 0x10000 else 0
  else
    ((layout.bars.flatMap ImplementedBar.registers).getD (number - 4) (0, 0)).1

def writableBy (layout : BarLayout) : FunctionRegisters := fun number =>
  ((layout.bars.flatMap ImplementedBar.registers).getD (number - 4) (0, 0)).2

theorem shownIn_heldBy (layout : BarLayout) :
    layout.ShownIn layout.heldBy layout.writableBy where
  header := by
    rw [heldBy, if_pos rfl]
    cases layout.bridge <;> rfl
  bars := by
    rw [BarsAt]
    apply List.ext_getElem (by simp)
    intro index first second
    have behind : barNumber 0 + 1 * index ≠ 3 := by
      rw [barNumber]
      omega
    have place : barNumber 0 + 1 * index - 4 = index := by
      rw [barNumber]
      omega
    rw [List.getElem_map, List.getElem_range', heldBy, writableBy,
      if_neg behind, place, List.getD_eq_getElem _ _ first]

/-- `get_bars` decodes a function if and only if it has no 64-bit memory range,
and its I/O ranges are short and end below the last port. -/
theorem getBars_decoded_iff (shown : layout.ShownIn held writable)
    (address : FunctionAddress) :
    (∃ (resources : List (Resource I)) (final : FunctionRegisters),
        (getBars (registerConfig writable) address).run held =
            .ok resources final ∧
          Decoded layout.bars resources) ↔
      ∀ bar ∈ layout.bars, bar.Decodable := by
  have whole := layout.filled
  simp only [shown.getBars_run address]
  apply barsFrom_decoded_iff address _ _ shown.bars
  · split <;> decide
  · rw [whole, Nat.zero_add]

/-- A network card with a memory range and 32 ports. -/
def networkCard : BarLayout where
  bridge := false
  bars :=
    [.memory32 false
        ⟨0xFEBC0000, 17, by decide, by decide, by decide, by decide⟩,
      .io true ⟨0xC000, 5, by decide, by decide, by decide, by decide⟩,
      .absent, .absent, .absent, .absent]
  filled := rfl

theorem getBars_decoded_iff_networkCard :
    ∃ (resources : List (Resource Unit)) (final : FunctionRegisters),
      (getBars (registerConfig networkCard.writableBy) ⟨0, 0, 3, 0⟩).run
          networkCard.heldBy = .ok resources final ∧
        Decoded networkCard.bars resources := by
  rw [getBars_decoded_iff networkCard.shownIn_heldBy]
  simp [networkCard, ImplementedBar.Decodable]

/-- A disk controller with a 64-bit memory range of 16 KiB. -/
def diskController : BarLayout where
  bridge := false
  bars :=
    [.memory64 false
        ⟨0xFEBF0000, 14, by decide, by decide, by decide, by decide⟩,
      .absent, .absent, .absent, .absent]
  filled := rfl

/-- Its range gets a length of almost `2 ^ 64`. -/
theorem diskController_misdecoded :
    (¬ ∃ (resources : List (Resource Unit)) (final : FunctionRegisters),
        (getBars (registerConfig diskController.writableBy) ⟨0, 0, 3, 0⟩).run
            diskController.heldBy = .ok resources final ∧
          Decoded diskController.bars resources) ∧
      turnResource diskController.writableBy diskController.heldBy
          (barNumber 0) =
        .ok (some (.memoryRange
          (.fixedLocation64 true 0xFEBF0000 0xFFFFFFFF00004010) :
            Resource Unit)) := by
  have length :
      (diskController.bars.flatMap ImplementedBar.registers).length = 6 := rfl
  constructor
  · simp only [diskController.shownIn_heldBy.getBars_run]
    rw [barsFrom_decoded_iff _ (by decide) (by rw [length]; rfl)
      diskController.shownIn_heldBy.bars]
    simp [diskController, ImplementedBar.Decodable]
  · rfl

end BarLayout

end RustKernel.Kernel
