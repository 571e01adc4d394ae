import RustKernel.Kernel.InterruptReturn

/-!
# An interrupt behind `sti`

`interrupt_end!(sti)` turns interrupts on while the frame of the program is
still on the stack of the table, with the registers in front of it that the
compiler has saved.  The next interrupt begins at the top of the same stack.
-/

namespace RustKernel.Kernel

open RustKernel.Machine

/-- The rest of the return behind `sti`, when so many of the registers that the
compiler saves have been taken off. -/
def Processor.leave (setup : InterruptSetup) (taken : Nat)
    (processor : Processor) : Processor :=
  .iretq (processor.cpu.asmReturn ((setup.saved.reverse.drop taken).map .pop))

section Window

variable {setup : InterruptSetup} {area : Set Nat}

/-- The processor is where it was, and the words that it has left on the stack
of the table are there. -/
structure Trapped (setup : InterruptSetup) (area : Set Nat)
    (window processor : Processor) : Prop where
  context : processor.context area = window.context area
  begins :
    (⟨setup.bottom, processor.cpu.stack.memory⟩ : Stack).Begins
      (window.interruptWords setup).reverse

theorem trapped_service (sound : setup.Sound area) (vector : UInt8)
    (window : Processor) :
    Trapped setup area window (window.service setup vector) := by
  obtain ⟨ready, returning, called⟩ := service_ready sound vector window
  refine ⟨service_context sound vector window, ?_⟩
  have begins := returning.begins
  rw [called, iretq_eq begins]
  have whole : ready.stack = ⟨setup.bottom, ready.stack.memory⟩ := by
    rw [← returning.pointer]
  rw [whole] at begins
  exact begins

/-- The rest of the return finds the frame of the second interrupt. -/
theorem trapped_leave {window processor : Processor} {taken : Nat}
    (position :
      window.cpu.stack.pointer =
        setup.bottom + UInt64.ofNat (8 * (15 + taken)))
    (within : taken ≤ setup.saved.length)
    (trapped : Trapped setup area window processor) :
    Trapped setup area window (processor.leave setup taken) := by
  have same := trapped.context
  have registers : processor.cpu.registers = window.cpu.registers :=
    congrArg Context.registers same
  have pointer : processor.cpu.stack.pointer = window.cpu.stack.pointer :=
    congrArg Context.stackPointer same
  have stack :
      processor.cpu.stack =
        (⟨setup.bottom, processor.cpu.stack.memory⟩ : Stack).drop
          (15 + taken) := by
    rw [Stack.drop, ← position, ← pointer]
  have begins := trapped.begins
  rw [interruptWords_reverse,
    ← List.take_append_drop taken setup.saved.reverse, List.map_append,
    List.append_assoc, ← List.append_assoc, Stack.begins_append] at begins
  obtain ⟨_, begins⟩ := begins
  have passed :
      (Cpu.popped.map window.cpu.registers ++
          (setup.saved.reverse.take taken).map
            window.cpu.registers).length = 15 + taken := by
    rw [List.length_append, List.length_map, List.length_map,
      List.length_take, List.length_reverse, Nat.min_eq_left within]
    rfl
  rw [passed, ← stack, Stack.begins_append, List.length_map] at begins
  obtain ⟨saved, frame⟩ := begins
  have left :
      processor.leave setup taken =
        .resume
          ⟨window.instructionPointer, window.codeSegment, window.flags,
            window.cpu.stack.pointer, window.stackSegment⟩
          { processor.cpu with
            stack :=
              processor.cpu.stack.drop (setup.saved.reverse.drop taken).length
          } := by
    rw [Processor.leave, Cpu.asmReturn_pop processor.cpu saved, registers]
    simp only [ite_self]
    rw [Processor.iretq, ← registers,
      InterruptStackFrame.read_of_begins frame]
  have cr3 : processor.cpu.cr3 = window.cpu.cr3 :=
    congrArg Context.cr3 same
  have memory := congrArg Context.memory same
  simp only [Processor.context] at memory
  rw [left]
  refine ⟨?_, trapped.begins⟩
  simp only [Processor.resume, Processor.context, Stack.drop, registers, cr3,
    memory]

/-- An interrupt that is taken while the compiler's registers are taken off is
the last thing that happens to the program: the frame that brings the
processor back to the program has been overwritten, and the rest of the return
goes back to itself. -/
theorem interrupt_behind_sti_traps (sound : setup.Sound area)
    {window : Processor} {taken : Nat}
    (position :
      window.cpu.stack.pointer =
        setup.bottom + UInt64.ofNat (8 * (15 + taken)))
    (within : taken ≤ setup.saved.length) (vector : UInt8) (count : Nat) :
    ((Processor.leave setup taken)^[count]
        (window.service setup vector)).context area =
      window.context area := by
  have trapped :
      Trapped setup area window
        ((Processor.leave setup taken)^[count]
          (window.service setup vector)) := by
    induction count with
    | zero => exact trapped_service sound vector window
    | succ count inductionHypothesis =>
        rw [Function.iterate_succ_apply']
        exact trapped_leave position within inductionHypothesis
  exact trapped.context

end Window

/-- The return of a timer interrupt, when `r11` has been taken off. -/
def behindSti : Processor where
  cpu := { Cpu.oneInRax with stack := ⟨0x7F98, fun _ => 0⟩ }
  instructionPointer := 0xFFFF800000001000
  codeSegment := 8
  flags := 0x202
  stackSegment := 0
  enabled := by decide

theorem interrupt_behind_sti_traps_timer :
    ((Processor.leave timerSetup 1)^[1000]
        (behindSti.service timerSetup 0x3C)).context timerArea =
      behindSti.context timerArea :=
  interrupt_behind_sti_traps timerSetup_sound (by decide) (by decide) 0x3C 1000

end RustKernel.Kernel
