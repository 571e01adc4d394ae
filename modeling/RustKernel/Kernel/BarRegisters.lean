import RustKernel.Kernel.PciEnumeration

/-!
# Probing the base address registers

The configuration space of a function is a file of registers here, in each of
which a write changes the writable bits and keeps the others.  Over such
registers every turn of `get_bars` has a result that depends on their contents
alone, and leaves all writable bits set in the registers that it has looked at.
-/

namespace RustKernel.Kernel

open RustKernel.Foundations
open RustKernel.Machine

/-- The registers of a function, by their number. -/
abbrev FunctionRegisters := Nat → UInt32

/-- The accesses to a function whose registers have these writable bits; no
access of the drivers goes across a register. -/
def registerConfig (writable : FunctionRegisters) :
    ConfigAccess FunctionRegisters where
  readU8 _ offset := do
    let registers ← get
    return (registers (offset.toNat / 4) >>>
      UInt32.ofNat (8 * (offset.toNat % 4))).toUInt8
  readU16 _ offset := do
    let registers ← get
    return (registers (offset.toNat / 4) >>>
      UInt32.ofNat (8 * (offset.toNat % 4))).toUInt16
  readU32 _ offset := do
    let registers ← get
    return registers (offset.toNat / 4)
  writeU32 _ offset value :=
    modify fun registers =>
      Function.update registers (offset.toNat / 4)
        (value &&& writable (offset.toNat / 4) |||
          registers (offset.toNat / 4) &&& ~~~writable (offset.toNat / 4))

/-- The registers after all ones are written to a part of them. -/
def filled (writable registers : FunctionRegisters) (first last : Nat) :
    FunctionRegisters := fun number =>
  if first ≤ number ∧ number < last then registers number ||| writable number
  else registers number

theorem allOnes_masked (mask word : UInt32) :
    0xFFFFFFFF &&& mask ||| word &&& ~~~mask = word ||| mask := by
  have ones : (0xFFFFFFFF : UInt32).toBitVec = BitVec.allOnes 32 := rfl
  apply UInt32.toBitVec_inj.mp
  rw [UInt32.toBitVec_or, UInt32.toBitVec_and, ones]
  ext bit inside
  simp only [BitVec.getElem_or, BitVec.getElem_and, UInt32.toBitVec_or,
    UInt32.toBitVec_and, UInt32.toBitVec_not, BitVec.getElem_not,
    BitVec.getElem_allOnes]
  cases mask.toBitVec[bit] <;> cases word.toBitVec[bit] <;> rfl

section Fills

variable {writable registers : FunctionRegisters} {first middle last : Nat}

theorem filled_of_le (empty : last ≤ first) :
    filled writable registers first last = registers := by
  funext number
  rw [filled, if_neg (by omega)]

theorem filled_filled (lower : first ≤ middle) (upper : middle ≤ last) :
    filled writable (filled writable registers first middle) middle last =
      filled writable registers first last := by
  funext number
  simp only [filled]
  by_cases before : number < middle
  · rw [if_neg (by omega)]
    by_cases inside : first ≤ number
    · rw [if_pos ⟨inside, before⟩, if_pos ⟨inside, by omega⟩]
    · rw [if_neg (by omega), if_neg (by omega)]
  · rw [if_neg (show ¬ (first ≤ number ∧ number < middle) by omega)]
    by_cases inside : number < last
    · rw [if_pos ⟨by omega, inside⟩, if_pos ⟨by omega, inside⟩]
    · rw [if_neg (by omega), if_neg (by omega)]

theorem filled_eq_of_le {number : Nat} (beyond : last ≤ number) :
    filled writable registers first last number = registers number := by
  rw [filled, if_neg (by omega)]

end Fills

/-! ## One turn -/

/-- The number of a base address register. -/
def barNumber (index : Nat) : Nat := 4 + index

theorem barOffset_div {index : Nat} (small : index < 16) :
    (Pci.bar0 + 4 * .ofNat index : UInt16).toNat / 4 = barNumber index := by
  simp [Pci.bar0, barNumber]
  omega

theorem probeBar_registers (writable registers : FunctionRegisters)
    (address : FunctionAddress) {index : Nat} (small : index < 16) :
    (probeBar (registerConfig writable) address
        (Pci.bar0 + 4 * .ofNat index)).run registers =
      .ok
        (⟨registers (barNumber index)⟩,
          registers (barNumber index) ||| writable (barNumber index))
        (filled writable registers (barNumber index)
          (barNumber index + 1)) := by
  have number := barOffset_div small
  have after :
      Function.update registers (barNumber index)
          (registers (barNumber index) ||| writable (barNumber index)) =
        filled writable registers (barNumber index) (barNumber index + 1) := by
    funext other
    by_cases same : other = barNumber index
    · subst same
      rw [Function.update_self, filled, if_pos (by omega)]
    · rw [Function.update_of_ne same, filled, if_neg (by omega)]
  have read (state : FunctionRegisters) :
      ((registerConfig writable).readU32 address
          (Pci.bar0 + 4 * .ofNat index)).run state =
        .ok (state (barNumber index)) state := by
    rw [← number]
    rfl
  have written :
      ((registerConfig writable).writeU32 address
          (Pci.bar0 + 4 * .ofNat index) 0xFFFFFFFF).run registers =
        .ok () (filled writable registers (barNumber index)
          (barNumber index + 1)) := by
    rw [← after, ← allOnes_masked, ← number]
    rfl
  rw [probeBar, bind_run_of_ok _ (read registers), bind_run_of_ok _ written,
    bind_run_of_ok _ (read _), filled, if_pos (by omega)]
  rfl

section Turns

variable {I : Type} (writable registers : FunctionRegisters)

/-- The register and the next one are taken for the halves of one. -/
def Pairs (number : Nat) : Prop :=
  ¬ (Bar.mk (registers number)).isIo ∧ (Bar.mk (registers number)).is64bit

instance (number : Nat) : Decidable (Pairs registers number) :=
  inferInstanceAs (Decidable (_ ∧ _))

/-- The registers that a turn passes over besides its own. -/
def passedBy (number : Nat) : Nat := if Pairs registers number then 1 else 0

/-- The resource of a turn. -/
def turnResource (number : Nat) : Except Panic (Option (Resource I)) :=
  let bar : Bar := ⟨registers number⟩
  let barl := registers number ||| writable number
  if ¬ bar.used then .ok none
  else if bar.isIo then some <$> bar.ioPort barl
  else if bar.is64bit then
    some <$> bar.memory64 ⟨registers (number + 1)⟩ barl
      (registers (number + 1) ||| writable (number + 1))
  else some <$> bar.memory32 barl

variable {writable registers}

theorem used_of_is64bit {bar : Bar} (wide : bar.is64bit) : bar.used := by
  intro unused
  rw [Bar.is64bit, unused] at wide
  revert wide
  decide

theorem barResource_registers (address : FunctionAddress) {index : Nat}
    (small : index < 15) :
    (barResource (registerConfig writable) address index :
          EStateM Panic FunctionRegisters (Option (Resource I) × Nat)).run
        registers =
      match turnResource writable registers (barNumber index) with
      | .ok resource =>
          .ok (resource, passedBy registers (barNumber index))
            (filled writable registers (barNumber index)
              (barNumber index + 1 + passedBy registers (barNumber index)))
      | .error fault =>
          .error fault
            (filled writable registers (barNumber index)
              (barNumber index + 1 +
                passedBy registers (barNumber index))) := by
  have own :=
    probeBar_registers writable registers address (show index < 16 by omega)
  rw [barResource, bind_run_of_ok _ own, turnResource]
  dsimp only
  by_cases used : (Bar.mk (registers (barNumber index))).used
  · rw [if_neg (not_not.mpr used), if_neg (not_not.mpr used)]
    by_cases io : (Bar.mk (registers (barNumber index))).isIo
    · have passed : passedBy registers (barNumber index) = 0 :=
        if_neg fun pairs => pairs.1 io
      rw [if_pos io, if_pos io, bind_run, ofExcept_run, passed]
      cases (Bar.mk (registers (barNumber index))).ioPort _ <;> rfl
    · rw [if_neg io, if_neg io]
      by_cases wide : (Bar.mk (registers (barNumber index))).is64bit
      · have passed : passedBy registers (barNumber index) = 1 :=
          if_pos ⟨io, wide⟩
        have next :=
          probeBar_registers writable
            (filled writable registers (barNumber index) (barNumber index + 1))
            address (show index + 1 < 16 by omega)
        have following : barNumber (index + 1) = barNumber index + 1 := rfl
        rw [following, filled_eq_of_le (Nat.le_refl _),
          filled_filled (by omega) (by omega)] at next
        rw [if_pos wide, if_pos wide, bind_run_of_ok _ next, bind_run,
          ofExcept_run, passed]
        cases (Bar.mk (registers (barNumber index))).memory64 _ _ _ <;> rfl
      · have passed : passedBy registers (barNumber index) = 0 :=
          if_neg fun pairs => wide pairs.2
        rw [if_neg wide, if_neg wide, bind_run, ofExcept_run, passed]
        cases (Bar.mk (registers (barNumber index))).memory32 _ <;> rfl
  · have passed : passedBy registers (barNumber index) = 0 :=
      if_neg fun pairs => used (used_of_is64bit pairs.2)
    rw [if_pos used, if_pos used, passed]
    rfl

/-- A turn that returns, and the rest of the loop. -/
theorem barsFrom_registers_ok (address : FunctionAddress) {toVal index : Nat}
    (small : toVal ≤ 15) (inside : index < toVal)
    {resources : List (Resource I)} {final : FunctionRegisters} :
    (barsFrom (registerConfig writable) address toVal index).run registers =
        .ok resources final ↔
      ∃ resource later,
        turnResource writable registers (barNumber index) = .ok resource ∧
          (barsFrom (registerConfig writable) address toVal
              (index + 1 + passedBy registers (barNumber index))).run
              (filled writable registers (barNumber index)
                (barNumber index + 1 +
                  passedBy registers (barNumber index))) =
            .ok later final ∧
          resources = resource.toList ++ later := by
  have turn :=
    @barResource_registers I writable registers address index (by omega)
  rw [barsFrom, dif_pos inside, bind_run, turn]
  cases turnResource (I := I) writable registers (barNumber index) with
  | error fault => simp
  | ok resource =>
      simp only [Except.ok.injEq, exists_and_left, exists_eq_left']
      rw [bind_run_ok]
      simp only [pure_run_ok, eq_comm]
      constructor
      · rintro ⟨later, state, looped, rfl, rfl⟩
        exact ⟨later, looped, rfl⟩
      · rintro ⟨later, looped, rfl⟩
        exact ⟨later, final, looped, rfl, rfl⟩

end Turns

end RustKernel.Kernel
