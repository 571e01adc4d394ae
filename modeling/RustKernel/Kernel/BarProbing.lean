import RustKernel.Kernel.BarDecoding

/-!
# What probing leaves behind

`get_bars` writes all ones to the registers whose sizes it asks for and does
not write back what was there.  Which registers these are depends on their
contents: a register that looks like the low half of a 64-bit one takes the
next register with it, be that one behind the last base address register.
-/

namespace RustKernel.Kernel

open RustKernel.Foundations
open RustKernel.Machine

/-- The number of registers that the loop has still to probe, from a number
on, with `count` of them left to the header. -/
def probedCount (registers : FunctionRegisters) : Nat → Nat → Nat
  | 0, _ => 0
  | 1, number => 1 + passedBy registers number
  | count + 2, number =>
      if Pairs registers number then
        2 + probedCount registers count (number + 2)
      else
        1 + probedCount registers (count + 1) (number + 1)

theorem probedCount_succ (registers : FunctionRegisters)
    (count number : Nat) :
    probedCount registers (count + 1) number =
      1 + passedBy registers number +
        probedCount registers (count - passedBy registers number)
          (number + 1 + passedBy registers number) := by
  cases count with
  | zero =>
      rw [Nat.zero_sub]
      rfl
  | succ count =>
      rw [probedCount, passedBy]
      split
      · rfl
      · rfl

/-- The count depends on the registers from the number on. -/
theorem probedCount_congr {registers others : FunctionRegisters}
    {count number : Nat}
    (same : ∀ other, number ≤ other → registers other = others other) :
    probedCount registers count number = probedCount others count number := by
  induction count using Nat.strong_induction_on generalizing number with
  | _ count inductionHypothesis =>
      cases count with
      | zero => rfl
      | succ count =>
          have pairs : Pairs registers number ↔ Pairs others number := by
            rw [Pairs, Pairs, same number (Nat.le_refl _)]
          have passed : passedBy registers number = passedBy others number := by
            simp only [passedBy, pairs]
          rw [probedCount_succ, probedCount_succ, passed]
          congr 1
          apply inductionHypothesis _ (by omega)
          intro other beyond
          exact same other (by omega)

section Loops

variable {I : Type} {writable registers : FunctionRegisters}

/-- A loop that returns has set all writable bits of what it has probed, and
has changed nothing else. -/
theorem barsFrom_fills (address : FunctionAddress) {toVal : Nat}
    (small : toVal ≤ 6) {index : Nat} {resources : List (Resource I)}
    {final : FunctionRegisters}
    (returned :
      (barsFrom (registerConfig writable) address toVal index).run registers =
        .ok resources final) :
    final =
      filled writable registers (barNumber index)
        (barNumber index +
          probedCount registers (toVal - index) (barNumber index)) := by
  induction distance : toVal - index using Nat.strong_induction_on
    generalizing index registers resources with
  | _ left inductionHypothesis =>
      by_cases inside : index < toVal
      · obtain ⟨resource, later, _, looped, rfl⟩ :=
          (barsFrom_registers_ok address (by omega) inside).mp returned
        have next :
            barNumber (index + 1 + passedBy registers (barNumber index)) =
              barNumber index + 1 + passedBy registers (barNumber index) := by
          simp only [barNumber]
          omega
        have rest := inductionHypothesis _ (by omega) looped rfl
        obtain ⟨count, rfl⟩ : ∃ count, left = count + 1 := ⟨left - 1, by omega⟩
        have remaining :
            toVal - (index + 1 + passedBy registers (barNumber index)) =
              count - passedBy registers (barNumber index) := by
          omega
        have same :
            probedCount
                (filled writable registers (barNumber index)
                  (barNumber index + 1 +
                    passedBy registers (barNumber index)))
                (count - passedBy registers (barNumber index))
                (barNumber index + 1 + passedBy registers (barNumber index)) =
              probedCount registers
                (count - passedBy registers (barNumber index))
                (barNumber index + 1 +
                  passedBy registers (barNumber index)) :=
          probedCount_congr fun _ beyond => filled_eq_of_le beyond
        rw [rest, next, remaining, same, filled_filled (by omega) (by omega),
          probedCount_succ]
        congr 1
        omega
      · rw [barsFrom, dif_neg inside, pure_run_ok] at returned
        have none : left = 0 := by omega
        rw [none, probedCount, filled_of_le (by omega)]
        exact returned.2.symm

end Loops

/-! ## The whole function -/

/-- The registers that the header promises; `get_bars` takes no others. -/
def promised (registers : FunctionRegisters) : Nat :=
  if (registers 3 >>> 16).toUInt8 &&& 0x7F = 0 then 6
  else if (registers 3 >>> 16).toUInt8 &&& 0x7F = 1 then 2
  else 0

/-- The register is one of those that `get_bars` writes to. -/
def Probed (registers : FunctionRegisters) (number : Nat) : Prop :=
  barNumber 0 ≤ number ∧
    number <
      barNumber 0 + probedCount registers (promised registers) (barNumber 0)

variable {I : Type} {writable registers final : FunctionRegisters}
  {address : FunctionAddress} {resources : List (Resource I)}

theorem getBars_fills
    (returned :
      (getBars (registerConfig writable) address).run registers =
        .ok resources final) :
    final =
      filled writable registers (barNumber 0)
        (barNumber 0 +
          probedCount registers (promised registers) (barNumber 0)) := by
  have read :
      ((registerConfig writable).readU8 address Pci.headerType).run registers =
        .ok (registers 3 >>> 16).toUInt8 registers := rfl
  rw [getBars, bind_run_of_ok _ read] at returned
  rw [promised]
  by_cases device : (registers 3 >>> 16).toUInt8 &&& 0x7F = 0
  · rw [if_pos device] at returned ⊢
    exact barsFrom_fills address (by decide) returned
  · rw [if_neg device] at returned ⊢
    by_cases bridge : (registers 3 >>> 16).toUInt8 &&& 0x7F = 1
    · rw [if_pos bridge] at returned ⊢
      exact barsFrom_fills address (by decide) returned
    · rw [if_neg bridge] at returned ⊢
      rw [probedCount, filled_of_le (by omega)]
      exact (pure_run_ok.mp returned).2.symm

/-- A run of `get_bars` that returns leaves the function as it was if and only
if the writable bits of the registers that it probes were all set. -/
theorem getBars_restores_iff
    (returned :
      (getBars (registerConfig writable) address).run registers =
        .ok resources final) :
    (∀ number, final number = registers number) ↔
      ∀ number, Probed registers number →
        registers number ||| writable number = registers number := by
  rw [getBars_fills returned]
  apply forall_congr'
  intro number
  rw [filled]
  by_cases probed : Probed registers number
  · rw [if_pos ⟨probed.1, probed.2⟩]
    simp [probed]
  · rw [if_neg fun inside => probed ⟨inside.1, inside.2⟩]
    simp [probed]

/-! ## A host bridge and a network card -/

/-- A function without ranges. -/
def hostBridge : BarLayout where
  bridge := false
  bars := [.absent, .absent, .absent, .absent, .absent, .absent]
  filled := rfl

theorem hostBridge_writableBy (number : Nat) :
    hostBridge.writableBy number = 0 := by
  have each :
      ∀ pair ∈ hostBridge.bars.flatMap ImplementedBar.registers,
        pair.2 = 0 := by
    simp [hostBridge, ImplementedBar.registers]
  rw [BarLayout.writableBy, List.getD_eq_getElem?_getD]
  cases found :
      (hostBridge.bars.flatMap ImplementedBar.registers)[number - 4]? with
  | none => rfl
  | some pair => exact each pair (List.mem_of_getElem? found)

theorem getBars_returns_of_decodable (layout : BarLayout)
    (decodable : ∀ bar ∈ layout.bars, bar.Decodable)
    (address : FunctionAddress) :
    ∃ (resources : List (Resource Unit)) (final : FunctionRegisters),
      (getBars (registerConfig layout.writableBy) address).run layout.heldBy =
        .ok resources final := by
  have whole := layout.filled
  have shown := layout.shownIn_heldBy
  have small : (if layout.bridge then 2 else 6) ≤ 6 := by split <;> decide
  obtain ⟨resources, final, looped, _⟩ :=
    (barsFrom_decoded_iff (I := Unit) address small (by omega)
      shown.bars).mpr decodable
  exact ⟨resources, final, (shown.getBars_run address).trans looped⟩

theorem getBars_restores_iff_hostBridge :
    ∃ (resources : List (Resource Unit)) (final : FunctionRegisters),
      (getBars (registerConfig hostBridge.writableBy) ⟨0, 0, 0, 0⟩).run
          hostBridge.heldBy = .ok resources final ∧
        ∀ number, final number = hostBridge.heldBy number := by
  have decodable : ∀ bar ∈ hostBridge.bars, bar.Decodable := by
    simp [hostBridge, ImplementedBar.Decodable]
  obtain ⟨resources, final, returned⟩ :=
    getBars_returns_of_decodable hostBridge decodable ⟨0, 0, 0, 0⟩
  refine ⟨resources, final, returned, (getBars_restores_iff returned).mpr ?_⟩
  intro number _
  rw [hostBridge_writableBy, UInt32.or_zero]

/-- The memory range of the card moves to the highest address. -/
theorem networkCard_moved :
    ∃ (resources : List (Resource Unit)) (final : FunctionRegisters),
      (getBars (registerConfig BarLayout.networkCard.writableBy)
            ⟨0, 0, 3, 0⟩).run BarLayout.networkCard.heldBy =
          .ok resources final ∧
        (¬ ∀ number, final number = BarLayout.networkCard.heldBy number) ∧
        BarLayout.networkCard.heldBy 4 = 0xFEBC0000 ∧
        final 4 = 0xFFFE0000 := by
  have decodable : ∀ bar ∈ BarLayout.networkCard.bars, bar.Decodable := by
    simp [BarLayout.networkCard, ImplementedBar.Decodable]
  obtain ⟨resources, final, returned⟩ :=
    getBars_returns_of_decodable BarLayout.networkCard decodable ⟨0, 0, 3, 0⟩
  have moved : final 4 = 0xFFFE0000 := by
    rw [getBars_fills returned, filled, if_pos (by decide)]
    rfl
  refine ⟨resources, final, returned, ?_, rfl, moved⟩
  intro same
  rw [same 4] at moved
  revert moved
  decide

end RustKernel.Kernel
