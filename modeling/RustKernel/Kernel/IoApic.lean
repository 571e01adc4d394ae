import RustKernel.Kernel.RedirectionEntry

/-!
# The registers of the I/O interrupt controller

The controller shows its registers through two words: a store to the first one
selects a register, and the second one, sixteen bytes on, is the selected
register.  `IOApic::write` goes through both.  `IOApic::read` loads from ten
bytes after the first word instead, where the controller shows nothing; what a
load returns there is a parameter.
-/

namespace RustKernel.Kernel

open RustKernel.Foundations

/-- The selected register, and the registers by their index. -/
structure IoApicRegisters where
  selected : UInt32
  registers : UInt32 → UInt32

namespace IoApicRegisters

/-- A store of the processor, with the controller at `base`. -/
def store (base address : UInt64) (value : UInt32)
    (device : IoApicRegisters) : IoApicRegisters :=
  if address = base then
    { device with selected := value }
  else if address = base + 0x10 then
    { device with
      registers := Function.update device.registers device.selected value }
  else
    device

/-- A load of the processor. -/
def load (elsewhere : IoApicRegisters → UInt64 → UInt32)
    (base address : UInt64) (device : IoApicRegisters) : UInt32 :=
  if address = base then device.selected
  else if address = base + 0x10 then device.registers device.selected
  else elsewhere device address

end IoApicRegisters

/-- `IOApic`: the address comes from a `u32` of the firmware's tables. -/
structure IoApic where
  base : UInt64
  low : base.toNat < 2 ^ 32

namespace IoApic

def redTable : UInt16 := 0x10

variable (apic : IoApic)

def write (offset : UInt16) (value : UInt32) (device : IoApicRegisters) :
    IoApicRegisters :=
  (device.store apic.base apic.base offset.toUInt32).store apic.base
    (apic.base + 0x10) value

def read (elsewhere : IoApicRegisters → UInt64 → UInt32) (offset : UInt16)
    (device : IoApicRegisters) : UInt32 × IoApicRegisters :=
  let chosen := device.store apic.base apic.base offset.toUInt32
  (chosen.load elsewhere apic.base (apic.base + 10), chosen)

/-- The index of the first word of an entry. -/
def entryAddress (vector : UInt8) : UInt16 := redTable + 2 * vector.toUInt16

def writeEntry (vector : UInt8) (entry : RedirectionEntry)
    (device : IoApicRegisters) : IoApicRegisters :=
  apic.write (entryAddress vector + 1) entry.getHigh
    (apic.write (entryAddress vector) entry.getLow device)

theorem write_eq (offset : UInt16) (value : UInt32)
    (device : IoApicRegisters) :
    apic.write offset value device =
      ⟨offset.toUInt32,
        Function.update device.registers offset.toUInt32 value⟩ := by
  simp [write, IoApicRegisters.store]

/-- The load is not from the window. -/
theorem read_eq (elsewhere : IoApicRegisters → UInt64 → UInt32)
    (offset : UInt16) (device : IoApicRegisters) :
    apic.read elsewhere offset device =
      (elsewhere ⟨offset.toUInt32, device.registers⟩ (apic.base + 10),
        ⟨offset.toUInt32, device.registers⟩) := by
  simp [read, IoApicRegisters.store, IoApicRegisters.load]

/-! ## Sequences of calls -/

inductive Call where
  | write (offset : UInt16) (value : UInt32)
  | writeEntry (vector : UInt8) (entry : RedirectionEntry)
  | read (offset : UInt16)
  deriving DecidableEq, Repr

/-- The registers that a call writes. -/
def Call.writes : Call → List (UInt32 × UInt32)
  | write offset value => [(offset.toUInt32, value)]
  | writeEntry vector entry =>
      [((entryAddress vector).toUInt32, entry.getLow),
        ((entryAddress vector + 1).toUInt32, entry.getHigh)]
  | read _ => []

variable (elsewhere : IoApicRegisters → UInt64 → UInt32)

/-- The controller after a call. -/
def after (device : IoApicRegisters) : Call → IoApicRegisters
  | .write offset value => apic.write offset value device
  | .writeEntry vector entry => apic.writeEntry vector entry device
  | .read offset => (apic.read elsewhere offset device).2

def afterAll (calls : List Call) (device : IoApicRegisters) :
    IoApicRegisters :=
  calls.foldl (apic.after elsewhere) device

theorem after_registers (device : IoApicRegisters) (call : Call) :
    (apic.after elsewhere device call).registers =
      lastValues device.registers call.writes := by
  cases call with
  | write offset value =>
      rw [after, write_eq]
      rfl
  | writeEntry vector entry =>
      rw [after, writeEntry, write_eq, write_eq]
      rfl
  | read offset =>
      rw [after, read_eq]
      rfl

/-- The registers hold what was written last, whatever was read between. -/
theorem afterAll_registers (calls : List Call) (device : IoApicRegisters) :
    (apic.afterAll elsewhere calls device).registers =
      lastValues device.registers (calls.flatMap Call.writes) :=
  shown_foldl IoApicRegisters.registers Call.writes
    (apic.after_registers elsewhere) calls device

/-- Every read of the sequence returns the last value written to its register,
and changes no register. -/
def ReadsBack (device : IoApicRegisters) (calls : List Call) : Prop :=
  ∀ front offset back, calls = front ++ .read offset :: back →
    (apic.read elsewhere offset (apic.afterAll elsewhere front device)).1 =
        lastValues device.registers (front.flatMap Call.writes)
          offset.toUInt32 ∧
      (apic.read elsewhere offset
          (apic.afterAll elsewhere front device)).2.registers =
        (apic.afterAll elsewhere front device).registers

/-- Ten bytes after the select register, the controller answers a read as the
selected register would. -/
def AnswersThere (device : IoApicRegisters) (calls : List Call) : Prop :=
  ∀ front offset back, calls = front ++ .read offset :: back →
    elsewhere
        ⟨offset.toUInt32,
          lastValues device.registers (front.flatMap Call.writes)⟩
        (apic.base + 10) =
      lastValues device.registers (front.flatMap Call.writes) offset.toUInt32

theorem readsBack_iff_answersThere (device : IoApicRegisters)
    (calls : List Call) :
    apic.ReadsBack elsewhere device calls ↔
      apic.AnswersThere elsewhere device calls := by
  simp only [ReadsBack, AnswersThere, read_eq, afterAll_registers, and_true]

/-- The reads are right on a given controller if and only if it answers them
at the wrong address too; on every controller, if there are none. -/
theorem readsBack_iff (calls : List Call) :
    (∀ device,
        apic.ReadsBack elsewhere device calls ↔
          apic.AnswersThere elsewhere device calls) ∧
      ((∀ response device, apic.ReadsBack response device calls) ↔
        ∀ offset, .read offset ∉ calls) := by
  refine ⟨fun device => apic.readsBack_iff_answersThere elsewhere device calls,
    ?_⟩
  simp only [readsBack_iff_answersThere]
  constructor
  · intro right offset member
    obtain ⟨front, back, split⟩ := List.append_of_mem member
    -- a controller that answers with another value than the register's
    have answered :=
      right (fun device _ => device.registers device.selected + 1)
        ⟨0, fun _ => 0⟩ front offset back split
    simp at answered
  · intro none response device front offset back split
    exact absurd (by simp [split]) (none offset)

/-- The low word of the keyboard's entry is written and read back, where no
other address answers. -/
theorem redTable_not_readBack :
    ¬ (⟨0xFEC00000, by decide⟩ : IoApic).ReadsBack (fun _ _ => 0)
        ⟨0, fun _ => 0⟩ [.writeEntry 1 ⟨0x45, 0⟩, .read 0x12] ∧
      ((⟨0xFEC00000, by decide⟩ : IoApic).read (fun _ _ => 0) 0x12
          ((⟨0xFEC00000, by decide⟩ : IoApic).writeEntry 1 ⟨0x45, 0⟩
            ⟨0, fun _ => 0⟩)).1 = 0 := by
  refine ⟨?_, by decide⟩
  intro right
  have read := (right [.writeEntry 1 ⟨0x45, 0⟩] 0x12 [] rfl).1
  revert read
  decide

end IoApic

end RustKernel.Kernel
