import RustKernel.Kernel.CpuSnapshot
import Mathlib.Logic.Relation

/-!
# The return from an interrupt

The processor pushes a frame on the stack of the interrupt stack table, and
`_isr_{number}` pushes the registers behind it, calls the handlers on the stack
of the kernel, and goes back through the variables for the stack and the
address space.  `interrupt_end!` takes off what `interrupt_begin!` has pushed,
in the opposite order, so that the program cannot tell that it was
interrupted, whatever the handlers do with the memory of the kernel.

Interrupts are off from the delivery to the `sti` behind `interrupt_end!`.  Here
the next one arrives behind `iretq`.
-/

namespace RustKernel.Kernel

open RustKernel.Foundations
open RustKernel.Machine

/-! ## The assembly of the return -/

inductive ReturnInstruction where
  | pop (register : Register)
  | movToCr3 (source : Register)
  | movToRsp (source : Register)
  | sti
  deriving DecidableEq, Repr

/-- What the processor pushes: the first field has the lowest address. -/
structure InterruptStackFrame where
  instructionPointer : UInt64
  codeSegment : UInt64
  cpuFlags : UInt64
  stackPointer : UInt64
  stackSegment : UInt64
  deriving DecidableEq, Repr

namespace InterruptStackFrame

def read (stack : Stack) : InterruptStackFrame where
  instructionPointer := stack.word 0
  codeSegment := stack.word 1
  cpuFlags := stack.word 2
  stackPointer := stack.word 3
  stackSegment := stack.word 4

end InterruptStackFrame

/-- A function that `register_handler` gets: what it does with the frame, the
snapshot and the memory of the kernel. -/
abbrev InterruptHandler := InterruptStackFrame → CpuSnapshot → Cpu → Cpu

namespace Cpu

def executeReturn (cpu : Cpu) : ReturnInstruction → Cpu
  | .pop register =>
      { cpu.set register cpu.stack.pop.1 with stack := cpu.stack.pop.2 }
  | .movToCr3 source => { cpu with cr3 := cpu.registers source }
  | .movToRsp source =>
      { cpu with stack := ⟨cpu.registers source, cpu.stack.memory⟩ }
  | .sti => { cpu with interruptsEnabled := true }

def asmReturn (cpu : Cpu) (instructions : List ReturnInstruction) : Cpu :=
  instructions.foldl executeReturn cpu

/-- The registers in the order of `interrupt_end!`. -/
def popped : List Register :=
  [.rbp, .r15, .r14, .r13, .r12, .r11, .r10, .r9, .r8, .rdi, .rsi, .rdx, .rcx,
    .rbx, .rax]

/-- `interrupt_end!(sti)` -/
def interruptEnd (cpu : Cpu) : Cpu :=
  cpu.asmReturn (popped.map .pop ++ [.sti])

/-- `LocalApic::write` -/
def localApicWrite (base offset : Nat) (value : UInt32) (cpu : Cpu) : Cpu :=
  { cpu with
    stack :=
      ⟨cpu.stack.pointer,
        (⟨(), base + offset, leBytes 4 value.toNat⟩ : Store Unit).apply
          cpu.stack.memory⟩ }

/-- `LocalApic::EOI` -/
def eoiOffset : Nat := 0xB0

/-- `LocalApic::send_eoi` -/
def sendEoi (base : Nat) (cpu : Cpu) : Cpu :=
  cpu.localApicWrite base eoiOffset 0

/-- `interrupt`: the handlers of the vector, in the order in which they were
registered. -/
def interrupt (handlers : Nat → List InterruptHandler)
    (frame : InterruptStackFrame) (snapshot : CpuSnapshot) (vector : UInt8)
    (cpu : Cpu) : Cpu :=
  (handlers (vector.toNat - 32)).foldl
    (fun cpu handler => handler frame snapshot cpu) cpu

/-- `_isr_{number}`, from the return of `interrupt` on. -/
def isrReturn (apicBase : Nat) (cpu : Cpu) : Cpu :=
  let cpu := (cpu.input .rax cpu.syscallUmap).asmReturn [.movToCr3 .rax]
  let cpu := (cpu.input .rax cpu.syscallUsp).asmReturn [.movToRsp .rax]
  (cpu.sendEoi apicBase).interruptEnd

end Cpu

/-! ## A program and its interrupts -/

/-- The bit of the flags that `cli` and `sti` change. -/
def allowsInterrupts (flags : UInt64) : Bool := flags &&& 0x200 != 0

/-- A processor between two instructions of a program. -/
structure Processor where
  cpu : Cpu
  instructionPointer : UInt64
  codeSegment : UInt64
  flags : UInt64
  stackSegment : UInt64
  enabled : cpu.interruptsEnabled = allowsInterrupts flags

/-- What the interrupts of the kernel are set up with: the entry of the
interrupt stack table, the registers that the compiler saves in front of the
body of an `_isr_{number}`, `HANDLERS`, and the base of the local APIC. -/
structure InterruptSetup where
  stackTable : UInt64
  saved : List Register
  handlers : Nat → List InterruptHandler
  apicBase : Nat

namespace Processor

/-- The words of the frame, in the order in which they are pushed. -/
def frameWords (processor : Processor) : List UInt64 :=
  [processor.stackSegment, processor.cpu.stack.pointer, processor.flags,
    processor.codeSegment, processor.instructionPointer]

/-- The processor takes an interrupt: the frame begins on the stack of the
table, at a multiple of sixteen. -/
def deliver (stackTable : UInt64) (processor : Processor) : Cpu :=
  { processor.cpu with
    stack :=
      (⟨stackTable &&& ~~~0xF, processor.cpu.stack.memory⟩ : Stack).pushAll
        processor.frameWords
    interruptsEnabled := false }

/-- The program goes on where the frame says. -/
def resume (frame : InterruptStackFrame) (cpu : Cpu) : Processor where
  cpu :=
    { cpu with
      stack := ⟨frame.stackPointer, cpu.stack.memory⟩
      interruptsEnabled := allowsInterrupts frame.cpuFlags }
  instructionPointer := frame.instructionPointer
  codeSegment := frame.codeSegment
  flags := frame.cpuFlags
  stackSegment := frame.stackSegment
  enabled := rfl

/-- `iretq` -/
def iretq (cpu : Cpu) : Processor :=
  resume (.read cpu.stack) cpu

/-- An interrupt, from its delivery to the return. -/
def service (setup : InterruptSetup) (vector : UInt8)
    (processor : Processor) : Processor :=
  let cpu := processor.deliver setup.stackTable
  let frame := InterruptStackFrame.read cpu.stack
  let cpu := cpu.asm (setup.saved.map .push)
  let ((snapshot, number), cpu) := cpu.isr vector
  let cpu := cpu.interrupt setup.handlers frame snapshot number
  let cpu := cpu.isrReturn setup.apicBase
  iretq (cpu.asmReturn (setup.saved.reverse.map .pop))

end Processor

/-- What a program can see: memory without the part that is the kernel's. -/
structure Context (area : Set Nat) where
  registers : Register → UInt64
  stackPointer : UInt64
  instructionPointer : UInt64
  codeSegment : UInt64
  flags : UInt64
  stackSegment : UInt64
  cr3 : UInt64
  memory : {address // address ∉ area} → UInt8

def Processor.context (area : Set Nat) (processor : Processor) :
    Context area where
  registers := processor.cpu.registers
  stackPointer := processor.cpu.stack.pointer
  instructionPointer := processor.instructionPointer
  codeSegment := processor.codeSegment
  flags := processor.flags
  stackSegment := processor.stackSegment
  cr3 := processor.cpu.cr3
  memory := fun address => processor.cpu.stack.memory address

/-- A program goes on, or an interrupt arrives that it allows. -/
inductive InterruptStep (setup : InterruptSetup) {area : Set Nat}
    (Program : Context area → Context area → Prop) :
    Processor → Processor → Prop
  | program (before after : Processor) :
      Program (before.context area) (after.context area) →
      InterruptStep setup Program before after
  | interrupt (processor : Processor) (vector : UInt8) :
      vector ∈ Cpu.isrNumbers → processor.cpu.interruptsEnabled = true →
      InterruptStep setup Program processor (processor.service setup vector)

/-! ## What is taken off -/

namespace Cpu

/-- Pops give each register the word at its place. -/
theorem asmReturn_pop {values : Register → UInt64} (cpu : Cpu)
    {registers : List Register}
    (begins : cpu.stack.Begins (registers.map values)) :
    cpu.asmReturn (registers.map .pop) =
      { cpu with
        registers := fun register =>
          if register ∈ registers then values register
          else cpu.registers register
        stack := cpu.stack.drop registers.length } := by
  induction registers generalizing cpu with
  | nil =>
      simp only [List.map_nil, List.not_mem_nil, if_false, List.length_nil,
        Stack.drop_zero]
      rfl
  | cons first registers inductionHypothesis =>
      obtain ⟨top, later⟩ := Stack.begins_cons.mp begins
      rw [List.map_cons, asmReturn, List.foldl_cons]
      refine (inductionHypothesis (cpu.executeReturn (.pop first)) later).trans
        ?_
      simp only [executeReturn, set, Stack.drop_pop, List.length_cons,
        List.mem_cons]
      congr 1
      funext register
      by_cases listed : register ∈ registers
      · simp [listed]
      · by_cases same : register = first
        · subst same
          simp [listed, Stack.pop, top]
        · simp [listed, same]

/-- What the handlers find and what the return needs. -/
theorem enterKernel_saves (cpu : Cpu) :
    cpu.enterKernel.2.stack.memory = cpu.interruptBegin.stack.memory ∧
      cpu.enterKernel.2.syscallUsp = cpu.interruptBegin.stack.pointer ∧
      cpu.enterKernel.2.syscallUmap = cpu.cr3 := by
  have same : cpu.interruptBegin.cr3 = cpu.cr3 := by
    rw [interruptBegin_eq]
  rw [← same, enterKernel]
  generalize cpu.interruptBegin = begun
  exact ⟨rfl, rfl, rfl⟩

end Cpu

/-- The kernel keeps the variables that the return reads, and writes to its own
memory only, and to none of the words that the return takes off. -/
structure Contained (area : Set Nat) (count : Nat) (before after : Cpu) :
    Prop where
  usp : after.syscallUsp = before.syscallUsp
  umap : after.syscallUmap = before.syscallUmap
  memory :
    ∀ address,
      address ∉ area ∨ address ∈ Stack.bytes before.syscallUsp count →
        after.stack.memory address = before.stack.memory address

section Contained

variable {area : Set Nat} {count : Nat} {before middle after : Cpu}

theorem Contained.refl (cpu : Cpu) : Contained area count cpu cpu :=
  ⟨rfl, rfl, fun _ _ => rfl⟩

theorem Contained.trans (first : Contained area count before middle)
    (second : Contained area count middle after) :
    Contained area count before after where
  usp := second.usp.trans first.usp
  umap := second.umap.trans first.umap
  memory := by
    intro address kept
    have again := second.memory address (by rwa [first.usp])
    exact again.trans (first.memory address kept)

/-- One after the other, the handlers of a vector do what each of them may. -/
theorem contained_interrupt {handlers : Nat → List InterruptHandler}
    {frame : InterruptStackFrame} {snapshot : CpuSnapshot} {vector : UInt8}
    {pointer : UInt64}
    (each :
      ∀ index, ∀ handler ∈ handlers index, ∀ frame snapshot cpu,
        cpu.syscallUsp = pointer →
          Contained area count cpu (handler frame snapshot cpu))
    {cpu : Cpu} (saved : cpu.syscallUsp = pointer) :
    Contained area count cpu
      (cpu.interrupt handlers frame snapshot vector) := by
  have listed := each (vector.toNat - 32)
  rw [Cpu.interrupt]
  generalize handlers (vector.toNat - 32) = registered at listed ⊢
  induction registered generalizing cpu with
  | nil => exact .refl cpu
  | cons handler others inductionHypothesis =>
      have first := listed handler (by simp) frame snapshot cpu saved
      rw [List.foldl_cons]
      apply first.trans
      exact inductionHypothesis (first.usp.trans saved) fun other member =>
        listed other (List.mem_cons_of_mem _ member)

end Contained

/-! ## The interrupted program -/

namespace InterruptSetup

/-- The words of an interrupt on its stack: the frame, what the compiler saves
and what `interrupt_begin!` pushes. -/
def depth (setup : InterruptSetup) : Nat := 5 + (setup.saved.length + 15)

/-- The pointer behind them. -/
def bottom (setup : InterruptSetup) : UInt64 :=
  Stack.lowered (setup.stackTable &&& ~~~0xF) setup.depth

/-- The interrupts keep to the memory of the kernel. -/
structure Sound (setup : InterruptSetup) (area : Set Nat) : Prop where
  few : setup.saved.length ≤ 15
  stack : Stack.bytes setup.bottom setup.depth ⊆ area
  eoi :
    ∀ index < 4,
      setup.apicBase + Cpu.eoiOffset + index ∈ area ∧
        setup.apicBase + Cpu.eoiOffset + index ∉
          Stack.bytes setup.bottom setup.depth
  handlers :
    ∀ index, ∀ handler ∈ setup.handlers index, ∀ frame snapshot cpu,
      cpu.syscallUsp = setup.bottom →
        Contained area setup.depth cpu (handler frame snapshot cpu)

end InterruptSetup

section Service

variable {setup : InterruptSetup} {area : Set Nat}

/-- The end of the interrupt is acknowledged in a register of the device. -/
theorem memory_sendEoi (cpu : Cpu) {base address : Nat}
    (outside : ∀ index < 4, address ≠ base + Cpu.eoiOffset + index) :
    (cpu.sendEoi base).stack.memory address = cpu.stack.memory address := by
  apply Store.apply_of_not_covers
  simp only [Store.Covers, leBytes_length]
  rintro ⟨lower, upper⟩
  exact outside (address - (base + Cpu.eoiOffset)) (by omega) (by omega)

theorem interruptEnd_eq {values : Register → UInt64} (cpu : Cpu)
    (begins : cpu.stack.Begins (Cpu.popped.map values)) :
    cpu.interruptEnd =
      { cpu with
        registers := values
        stack := cpu.stack.drop 15
        interruptsEnabled := true } := by
  have all (register : Register) : register ∈ Cpu.popped := by
    cases register <;> decide
  have parted :
      cpu.interruptEnd =
        (cpu.asmReturn (Cpu.popped.map .pop)).executeReturn .sti := by
    rw [Cpu.interruptEnd, Cpu.asmReturn, List.foldl_append]
    rfl
  rw [parted, cpu.asmReturn_pop begins]
  simp only [all, if_true]
  rfl

/-- The processor in front of `interrupt_end!`. -/
theorem isrReturn_parts (cpu : Cpu) (base : Nat) :
    ∃ ready : Cpu,
      cpu.isrReturn base = ready.interruptEnd ∧
        ready.cr3 = cpu.syscallUmap ∧
        ready.stack =
          ⟨cpu.syscallUsp, (cpu.sendEoi base).stack.memory⟩ :=
  ⟨_, rfl, rfl, rfl⟩

/-- All words of an interrupt, in the order in which they are pushed. -/
def Processor.interruptWords (setup : InterruptSetup)
    (processor : Processor) : List UInt64 :=
  processor.frameWords ++
    (setup.saved ++ Cpu.pushed).map processor.cpu.registers

theorem interruptWords_reverse (processor : Processor) :
    (processor.interruptWords setup).reverse =
      Cpu.popped.map processor.cpu.registers ++
        (setup.saved.reverse.map processor.cpu.registers ++
          processor.frameWords.reverse) := by
  rw [Processor.interruptWords, List.reverse_append, List.map_append,
    List.reverse_append, ← List.map_reverse, ← List.map_reverse,
    List.append_assoc]
  rfl

theorem interruptWords_length (processor : Processor) :
    (processor.interruptWords setup).length = setup.depth := by
  simp only [Processor.interruptWords, List.length_append, List.length_map]
  rfl

/-- The stack of the table, when the interrupt is delivered. -/
def Processor.tableStack (setup : InterruptSetup) (processor : Processor) :
    Stack :=
  ⟨setup.stackTable &&& ~~~0xF, processor.cpu.stack.memory⟩

theorem tableStack_pointer (setup : InterruptSetup)
    (processor : Processor) :
    ((processor.tableStack setup).pushAll
        (processor.interruptWords setup)).pointer =
      setup.bottom := by
  rw [Stack.pointer_pushAll, interruptWords_length]
  rfl

/-- What the entry leaves on the stack of the table. -/
theorem interruptBegin_stack (setup : InterruptSetup)
    (processor : Processor) :
    ((processor.deliver setup.stackTable).asm
        (setup.saved.map .push)).interruptBegin.stack =
      (processor.tableStack setup).pushAll
        (processor.interruptWords setup) := by
  rw [Cpu.interruptBegin_eq, Cpu.asm_push, Processor.interruptWords,
    Stack.pushAll, Stack.pushAll, Stack.pushAll, List.foldl_append,
    List.map_append, List.foldl_append]
  rfl

/-- The memory in which the return finds its words: they are there as they
were pushed, and the rest of the program's memory is untouched. -/
theorem interrupt_memory (sound : setup.Sound area) {processor : Processor}
    {entered handled : Cpu}
    (pushed :
      entered.stack.memory =
        ((processor.tableStack setup).pushAll
          (processor.interruptWords setup)).memory)
    (usp : entered.syscallUsp = setup.bottom)
    (contained : Contained area setup.depth entered handled) :
    (⟨setup.bottom, (handled.sendEoi setup.apicBase).stack.memory⟩ :
        Stack).Begins (processor.interruptWords setup).reverse ∧
      ∀ address ∉ area,
        (handled.sendEoi setup.apicBase).stack.memory address =
          processor.cpu.stack.memory address := by
  have few := sound.few
  have pointer := tableStack_pointer setup processor
  have room : 8 * (processor.interruptWords setup).length ≤ wordSize := by
    rw [interruptWords_length]
    simp only [InterruptSetup.depth, wordSize]
    omega
  constructor
  · apply (Stack.begins_pushAll _ room).congr pointer.symm
    · rwa [List.length_reverse]
    · intro address held
      rw [pointer, List.length_reverse, interruptWords_length] at held
      rw [memory_sendEoi, contained.memory address (Or.inr (by rwa [usp])),
        pushed]
      rintro byte small rfl
      exact (sound.eoi byte small).2 held
  · intro address outside
    have unpushed :
        address ∉
          Stack.bytes
            ((processor.tableStack setup).pushAll
              (processor.interruptWords setup)).pointer
            (processor.interruptWords setup).length := by
      rw [pointer, interruptWords_length]
      exact fun held => outside (sound.stack held)
    have untouched := Stack.memory_pushAll _ _ unpushed
    rw [memory_sendEoi, contained.memory address (Or.inl outside), pushed]
    · exact untouched
    · rintro byte small rfl
      exact outside (sound.eoi byte small).1

theorem InterruptStackFrame.read_of_begins {stack : Stack}
    {processor : Processor}
    (begins : stack.Begins processor.frameWords.reverse) :
    InterruptStackFrame.read stack =
      ⟨processor.instructionPointer, processor.codeSegment, processor.flags,
        processor.cpu.stack.pointer, processor.stackSegment⟩ := by
  rw [InterruptStackFrame.read, begins 0 _ rfl, begins 1 _ rfl,
    begins 2 _ rfl, begins 3 _ rfl, begins 4 _ rfl]

/-- The return takes the words of the processor off the stack. -/
theorem iretq_eq {processor : Processor} {ready : Cpu}
    (begins :
      ready.stack.Begins (processor.interruptWords setup).reverse) :
    Processor.iretq
        (ready.interruptEnd.asmReturn (setup.saved.reverse.map .pop)) =
      .resume
        ⟨processor.instructionPointer, processor.codeSegment,
          processor.flags, processor.cpu.stack.pointer,
          processor.stackSegment⟩
        { ready with
          registers := processor.cpu.registers
          stack := (ready.stack.drop 15).drop setup.saved.reverse.length
          interruptsEnabled := true } := by
  rw [interruptWords_reverse, Stack.begins_append, Stack.begins_append]
    at begins
  obtain ⟨ended, saved, frame⟩ := begins
  rw [interruptEnd_eq ready ended,
    Cpu.asmReturn_pop
      { ready with
        registers := processor.cpu.registers
        stack := ready.stack.drop 15
        interruptsEnabled := true } saved]
  simp only [ite_self]
  rw [List.length_map, List.length_map] at frame
  have frameRead :
      InterruptStackFrame.read
          ((ready.stack.drop 15).drop setup.saved.reverse.length) =
        ⟨processor.instructionPointer, processor.codeSegment,
          processor.flags, processor.cpu.stack.pointer,
          processor.stackSegment⟩ :=
    InterruptStackFrame.read_of_begins frame
  rw [Processor.iretq]
  simp only [frameRead]

/-- In front of `interrupt_end!`, the words of the processor are on the stack,
and nothing else that the program can see has changed. -/
structure ReadyToReturn (setup : InterruptSetup) (area : Set Nat)
    (processor : Processor) (ready : Cpu) : Prop where
  cr3 : ready.cr3 = processor.cpu.cr3
  pointer : ready.stack.pointer = setup.bottom
  begins : ready.stack.Begins (processor.interruptWords setup).reverse
  untouched :
    ∀ address ∉ area,
      ready.stack.memory address = processor.cpu.stack.memory address

theorem service_ready (sound : setup.Sound area) (vector : UInt8)
    (processor : Processor) :
    ∃ ready, ReadyToReturn setup area processor ready ∧
      processor.service setup vector =
        .iretq
          (ready.interruptEnd.asmReturn (setup.saved.reverse.map .pop)) := by
  generalize prologue :
    (processor.deliver setup.stackTable).asm (setup.saved.map .push) = begun
  have stack := interruptBegin_stack setup processor
  have cr3 : begun.cr3 = processor.cpu.cr3 := by
    rw [← prologue, Cpu.asm_push]
    rfl
  rw [prologue] at stack
  obtain ⟨memory, usp, umap⟩ := begun.enterKernel_saves
  rw [stack] at memory usp
  rw [tableStack_pointer] at usp
  generalize handling :
    begun.enterKernel.2.interrupt setup.handlers
      (.read (processor.deliver setup.stackTable).stack) begun.enterKernel.1
      vector = handled
  have contained :
      Contained area setup.depth begun.enterKernel.2 handled := by
    rw [← handling]
    exact contained_interrupt sound.handlers usp
  have called :
      processor.service setup vector =
        .iretq
          ((handled.isrReturn setup.apicBase).asmReturn
            (setup.saved.reverse.map .pop)) := by
    rw [← handling, ← prologue]
    rfl
  obtain ⟨begins, untouched⟩ :=
    interrupt_memory sound memory usp contained
  obtain ⟨ready, parted, table, taken⟩ :=
    isrReturn_parts handled setup.apicBase
  rw [contained.usp, usp] at taken
  rw [parted] at called
  refine ⟨ready, ⟨?_, ?_, ?_, ?_⟩, called⟩
  · exact table.trans ((contained.umap.trans umap).trans cr3)
  · rw [taken]
  · rw [taken]
    exact begins
  · rw [taken]
    exact untouched

/-- An interrupt changes nothing that the program can see. -/
theorem service_context (sound : setup.Sound area) (vector : UInt8)
    (processor : Processor) :
    (processor.service setup vector).context area =
      processor.context area := by
  obtain ⟨ready, returning, called⟩ := service_ready sound vector processor
  rw [called, iretq_eq returning.begins]
  simp only [Processor.resume, Processor.context, returning.cr3]
  congr 1
  funext address
  exact returning.untouched address address.2

/-- In every interleaving of the instructions of a program with interrupts,
the program runs as if there were no interrupts. -/
theorem interrupts_transparent (sound : setup.Sound area)
    {Program : Context area → Context area → Prop} {start final : Processor}
    (run :
      Relation.ReflTransGen (InterruptStep setup Program) start final) :
    Relation.ReflTransGen Program (start.context area)
      (final.context area) := by
  induction run with
  | refl => exact .refl
  | tail _ step inductionHypothesis =>
      cases step with
      | program _ goesOn => exact inductionHypothesis.tail goesOn
      | interrupt vector =>
          rw [service_context sound]
          exact inductionHypothesis

end Service

/-! ## A timer interrupt -/

/-- A handler that notes the interrupt in the memory of the kernel. -/
def noteTick : InterruptHandler := fun _ _ cpu =>
  { cpu with
    stack :=
      ⟨cpu.stack.pointer, Function.update cpu.stack.memory 0x9000 1⟩ }

/-- The timer, with the registers saved that a call may change. -/
def timerSetup : InterruptSetup where
  stackTable := 0x8000
  saved := [.rax, .rcx, .rdx, .rsi, .rdi, .r8, .r9, .r10, .r11]
  handlers := Function.update (fun _ => []) 28 [noteTick]
  apicBase := 0xFEE00000

/-- The stacks and the device, in an address space that wraps. -/
def timerArea : Set Nat :=
  {address |
    0x4000 ≤ address % wordSize ∧ address % wordSize < 0x10000 ∨
      0xFEE00000 ≤ address % wordSize ∧ address % wordSize < 0xFEE01000}

theorem mem_bytes_timerSetup {address : Nat} :
    address ∈ Stack.bytes timerSetup.bottom timerSetup.depth ↔
      0x7F18 ≤ address % wordSize ∧ address % wordSize < 0x8000 := by
  have bottom : timerSetup.bottom.toNat = 0x7F18 := by decide
  have depth : timerSetup.depth = 29 := rfl
  simp only [Stack.bytes, Set.mem_ofPred_eq, behind, bottom, depth, wordSize]
  omega

theorem timerSetup_sound : timerSetup.Sound timerArea where
  few := by decide
  stack := by
    intro address held
    rw [mem_bytes_timerSetup] at held
    simp only [timerArea, Set.mem_ofPred_eq]
    omega
  eoi := by
    intro index small
    have base : timerSetup.apicBase = 0xFEE00000 := rfl
    rw [mem_bytes_timerSetup, base, Cpu.eoiOffset]
    simp only [timerArea, Set.mem_ofPred_eq, wordSize]
    omega
  handlers := by
    intro index handler listed frame snapshot cpu saved
    have registered : handler = noteTick := by
      by_cases timer : index = 28
      · subst timer
        simpa [timerSetup] using listed
      · simp [timerSetup, timer] at listed
    subst registered
    refine ⟨rfl, rfl, ?_⟩
    intro address kept
    apply Function.update_of_ne
    rintro rfl
    rw [saved, mem_bytes_timerSetup] at kept
    simp only [timerArea, Set.mem_ofPred_eq, wordSize] at kept
    omega

/-- A program that counts in `rax`. -/
def countUp (before after : Context timerArea) : Prop :=
  after =
    { before with
      registers :=
        Function.update before.registers .rax (before.registers .rax + 1) }

/-- The program that has 1 in `rax`, with interrupts on. -/
def counting : Processor where
  cpu := Cpu.oneInRax
  instructionPointer := 0x400000
  codeSegment := 0x23
  flags := 0x202
  stackSegment := 0x1B
  enabled := by decide

theorem interrupts_transparent_counting :
    ∃ final : Processor,
      Relation.ReflTransGen countUp (counting.context timerArea)
          (final.context timerArea) ∧
        final.cpu.registers .rax = 2 := by
  have interrupted :
      InterruptStep timerSetup countUp counting
        (counting.service timerSetup 0x3C) :=
    .interrupt counting 0x3C (by decide) rfl
  generalize reached : counting.service timerSetup 0x3C = middle
    at interrupted
  have counted :
      InterruptStep timerSetup countUp middle
        { middle with
          cpu := middle.cpu.set .rax (middle.cpu.registers .rax + 1) } :=
    .program _ _ rfl
  have context := service_context timerSetup_sound 0x3C counting
  rw [reached] at context
  have one : middle.cpu.registers .rax = 1 :=
    congrFun (congrArg Context.registers context) .rax
  refine ⟨_,
    interrupts_transparent timerSetup_sound (.tail (.single interrupted)
      counted), ?_⟩
  rw [one]
  rfl

end RustKernel.Kernel
