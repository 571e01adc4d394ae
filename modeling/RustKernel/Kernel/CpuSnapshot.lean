import RustKernel.Machine.Stack

/-!
# The snapshot of an interrupted program

The entry of the system calls and those of the interrupts push the general
registers with `interrupt_begin!`, change to the stack of the kernel, and give
their handlers the old stack pointer as a reference to a `CpuSnapshot`.

The macro pushes `rax`, `rbx`, `rcx` and `rdx` in the order in which the
structure declares them, although what is pushed first has the highest
address.  The other groups are pushed in the opposite order.
-/

namespace RustKernel.Kernel

open RustKernel.Machine

inductive Register where
  | rax
  | rbx
  | rcx
  | rdx
  | rsi
  | rdi
  | r8
  | r9
  | r10
  | r11
  | r12
  | r13
  | r14
  | r15
  | rbp
  deriving DecidableEq, Repr

/-- `#[repr(C)]`: the first field has the lowest address. -/
structure CpuSnapshot where
  rbp : UInt64
  r15 : UInt64
  r14 : UInt64
  r13 : UInt64
  r12 : UInt64
  r11 : UInt64
  r10 : UInt64
  r9 : UInt64
  r8 : UInt64
  rdi : UInt64
  rsi : UInt64
  rax : UInt64
  rbx : UInt64
  rcx : UInt64
  rdx : UInt64
  deriving DecidableEq, Repr

namespace CpuSnapshot

/-- `&*pointer` -/
def read (stack : Stack) : CpuSnapshot where
  rbp := stack.word 0
  r15 := stack.word 1
  r14 := stack.word 2
  r13 := stack.word 3
  r12 := stack.word 4
  r11 := stack.word 5
  r10 := stack.word 6
  r9 := stack.word 7
  r8 := stack.word 8
  rdi := stack.word 9
  rsi := stack.word 10
  rax := stack.word 11
  rbx := stack.word 12
  rcx := stack.word 13
  rdx := stack.word 14

/-- The field of the same name. -/
def field (snapshot : CpuSnapshot) : Register → UInt64
  | .rax => snapshot.rax
  | .rbx => snapshot.rbx
  | .rcx => snapshot.rcx
  | .rdx => snapshot.rdx
  | .rsi => snapshot.rsi
  | .rdi => snapshot.rdi
  | .r8 => snapshot.r8
  | .r9 => snapshot.r9
  | .r10 => snapshot.r10
  | .r11 => snapshot.r11
  | .r12 => snapshot.r12
  | .r13 => snapshot.r13
  | .r14 => snapshot.r14
  | .r15 => snapshot.r15
  | .rbp => snapshot.rbp

end CpuSnapshot

/-! ## The assembly -/

/-- The processor, and the variables for the stacks and the address space of
the running process, which lie outside the stack. -/
structure Cpu where
  registers : Register → UInt64
  stack : Stack
  cr3 : UInt64
  interruptsEnabled : Bool
  syscallSp : UInt64
  syscallUsp : UInt64
  syscallUmap : UInt64

inductive Instruction where
  | cli
  | push (register : Register)
  | movFromRsp (destination : Register)
  | movToRsp (source : Register)
  | movFromCr3 (destination : Register)
  deriving DecidableEq, Repr

namespace Cpu

/-- The register gets the value. -/
def set (cpu : Cpu) (register : Register) (value : UInt64) : Cpu :=
  { cpu with registers := Function.update cpu.registers register value }

def execute (cpu : Cpu) : Instruction → Cpu
  | .cli => { cpu with interruptsEnabled := false }
  | .push register =>
      { cpu with stack := cpu.stack.push (cpu.registers register) }
  | .movFromRsp destination => cpu.set destination cpu.stack.pointer
  | .movToRsp source =>
      { cpu with stack := ⟨cpu.registers source, cpu.stack.memory⟩ }
  | .movFromCr3 destination => cpu.set destination cpu.cr3

/-- The instructions of one `asm!`. -/
def asm (cpu : Cpu) (instructions : List Instruction) : Cpu :=
  instructions.foldl execute cpu

/-- `in(..)`, in front of an `asm!`. -/
def input (cpu : Cpu) (register : Register) (value : UInt64) : Cpu :=
  cpu.set register value

/-- The registers in the order of `interrupt_begin!`. -/
def pushed : List Register :=
  [.rax, .rbx, .rcx, .rdx, .rsi, .rdi, .r8, .r9, .r10, .r11, .r12, .r13, .r14,
    .r15, .rbp]

/-- `interrupt_begin!` -/
def interruptBegin (cpu : Cpu) : Cpu :=
  cpu.asm (.cli :: pushed.map .push)

/-- The common text of the entries: the snapshot for the handler, and the
processor when the handler is called. -/
def enterKernel (cpu : Cpu) : CpuSnapshot × Cpu :=
  let cpu := cpu.interruptBegin
  let cpu := cpu.asm [.movFromRsp .rdx]
  let cpu :=
    (cpu.input .rax cpu.syscallSp).asm [.movToRsp .rax, .movFromRsp .rbp]
  let cpu := { cpu with syscallUsp := cpu.registers .rdx }
  let snapshot := cpu.registers .rdx
  let cpu := cpu.asm [.movFromCr3 .rax]
  let cpu := { cpu with syscallUmap := cpu.registers .rax }
  (.read ⟨snapshot, cpu.stack.memory⟩, cpu)

/-- `syscall_entry_stub`, up to the call of `syscall_entry`. -/
def syscallEntryStub (cpu : Cpu) : CpuSnapshot × Cpu := cpu.enterKernel

/-- The numbers of `generate_isrs`. -/
def isrNumbers : List UInt8 := (List.range' 0x20 (0xFF - 0x20)).map UInt8.ofNat

/-- `_isr_{number}`, up to the call of `interrupt`, with its last two
arguments. -/
def isr (number : UInt8) (cpu : Cpu) : (CpuSnapshot × UInt8) × Cpu :=
  let (snapshot, entered) := cpu.enterKernel
  ((snapshot, number), entered)

theorem asm_push (cpu : Cpu) (registers : List Register) :
    cpu.asm (registers.map .push) =
      { cpu with
        stack := cpu.stack.pushAll (registers.map cpu.registers) } := by
  induction registers generalizing cpu with
  | nil => rfl
  | cons register registers inductionHypothesis =>
      have later :=
        inductionHypothesis (cpu.execute (.push register))
      rw [List.map_cons, List.map_cons, asm, List.foldl_cons]
      exact later

theorem interruptBegin_eq (cpu : Cpu) :
    cpu.interruptBegin =
      { cpu with
        stack := cpu.stack.pushAll (pushed.map cpu.registers),
        interruptsEnabled := false } := by
  rw [interruptBegin, asm, List.foldl_cons]
  exact asm_push _ pushed

/-- The pointer that the handler gets is the one behind the pushes. -/
theorem enterKernel_snapshot (cpu : Cpu) :
    cpu.enterKernel.1 = .read cpu.interruptBegin.stack := by
  rw [enterKernel]
  generalize cpu.interruptBegin = begun
  rfl

/-- Where the pushes leave the registers. -/
theorem word_interruptBegin (cpu : Cpu) {index : Nat} {register : Register}
    (found : pushed.reverse[index]? = some register) :
    cpu.interruptBegin.stack.word index = cpu.registers register := by
  rw [interruptBegin_eq]
  apply Stack.word_pushAll
  · rw [List.length_map]
    decide
  · rw [← List.map_reverse, List.getElem?_map, found]
    rfl

/-- The register whose value a field of the snapshot holds. -/
def shownBy : Register → Register
  | .rax => .rdx
  | .rbx => .rcx
  | .rcx => .rbx
  | .rdx => .rax
  | register => register

theorem snapshot_field (cpu : Cpu) (register : Register) :
    cpu.enterKernel.1.field register = cpu.registers (shownBy register) := by
  rw [enterKernel_snapshot]
  cases register <;> exact cpu.word_interruptBegin rfl

/-- Every field holds the register of its name. -/
def Truthful (cpu : Cpu) (snapshot : CpuSnapshot) : Prop :=
  ∀ register, snapshot.field register = cpu.registers register

/-- The two outer and the two inner registers of the group change places. -/
theorem truthful_iff (cpu : Cpu) :
    (cpu.Truthful cpu.syscallEntryStub.1 ↔
        cpu.registers .rax = cpu.registers .rdx ∧
          cpu.registers .rbx = cpu.registers .rcx) ∧
      ∀ number ∈ isrNumbers,
        (cpu.Truthful (cpu.isr number).1.1 ↔
          cpu.registers .rax = cpu.registers .rdx ∧
            cpu.registers .rbx = cpu.registers .rcx) := by
  have entered :
      cpu.Truthful cpu.enterKernel.1 ↔
        cpu.registers .rax = cpu.registers .rdx ∧
          cpu.registers .rbx = cpu.registers .rcx := by
    simp only [Truthful, snapshot_field]
    constructor
    · intro truthful
      exact ⟨truthful .rdx, truthful .rcx⟩
    · rintro ⟨outer, inner⟩ register
      cases register with
      | rax => exact outer.symm
      | rbx => exact inner.symm
      | rcx => exact inner
      | rdx => exact outer
      | _ => rfl
  exact ⟨entered, fun _ _ => entered⟩

/-- A program that has 1 in `rax`, and 0 elsewhere. -/
def oneInRax : Cpu where
  registers := Function.update (fun _ => 0) .rax 1
  stack := ⟨0x8000, fun _ => 0⟩
  cr3 := 0x1000
  interruptsEnabled := true
  syscallSp := 0x10000
  syscallUsp := 0
  syscallUmap := 0

/-- The snapshot has it in `rdx`. -/
theorem oneInRax_misread :
    ¬ oneInRax.Truthful oneInRax.syscallEntryStub.1 ∧
      ¬ oneInRax.Truthful (oneInRax.isr 0x45).1.1 ∧
      oneInRax.syscallEntryStub.1.rax = 0 ∧
      oneInRax.syscallEntryStub.1.rdx = 1 := by
  have rax : oneInRax.enterKernel.1.field .rax = 0 := by
    rw [snapshot_field]
    rfl
  have rdx : oneInRax.enterKernel.1.field .rdx = 1 := by
    rw [snapshot_field]
    rfl
  have wrong : ¬ oneInRax.Truthful oneInRax.enterKernel.1 := by
    intro truthful
    have shown := truthful .rax
    rw [rax] at shown
    revert shown
    decide
  exact ⟨wrong, wrong, rax, rdx⟩

end Cpu

end RustKernel.Kernel
