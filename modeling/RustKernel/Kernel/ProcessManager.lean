import RustKernel.Loader.Isolation

/-!
# The process manager

`spawn` appends to `PROCESSES` and the timer interrupt runs `schedular`, which
indexes `PROCESSES` with `NEXT_PROCESS` and advances the index.  The index is
advanced once a tick and is never set back, so it stays inside the list only
while there have been fewer ticks than processes.
-/

namespace RustKernel.Kernel

open RustKernel.Foundations
open RustKernel.Machine
open RustKernel.Paging
open RustKernel.Loader

/-- `State`. -/
inductive ProcessState where
  | ready
  | blocked
  | running
  deriving DecidableEq, Repr

structure ProcessFlags where
  bits : UInt32
  deriving DecidableEq, Repr

def ProcessFlags.kernel : ProcessFlags := ⟨1⟩

structure ManagedProcess (T : Type) where
  process : Process T
  state : ProcessState
  flags : ProcessFlags

/-- `ManagedProcess::new_kernel_process`. -/
def newKernelProcess {T C : Type} [StoredMapper T] [StoredMapper C]
    (elf kernel : ElfFile) (kernelStackStart kernelStackEnd memSize : Nat) :
    EStateM Panic (Machine T C) (ManagedProcess T) := do
  let process ←
    throughActive.fromElf elf kernel kernelStackStart kernelStackEnd memSize
  return ⟨process, .ready, .kernel⟩

/-- The functions that are registered as handlers. -/
inductive Handler where
  | schedular
  deriving DecidableEq, Repr

/-- `PROCESSES`, `NEXT_PROCESS` and `HANDLERS`. -/
structure Globals (T : Type) where
  processes : List (ManagedProcess T)
  nextProcess : Nat
  handlers : Nat → List Handler

/-- The statics as they are initialised. -/
def Globals.initial (T : Type) : Globals T :=
  ⟨[], 0, fun _ => []⟩

section Functions

variable {T : Type}

/-- `ManagedProcess::spawn`. -/
def spawn (process : ManagedProcess T) : EStateM Panic (Globals T) Unit :=
  modify fun globals =>
    { globals with processes := globals.processes ++ [process] }

/-- `schedular`.  The index is below the length of a `Vec` when it is
advanced, and the sum does not overflow. -/
def schedular : EStateM Panic (Globals T) Unit := do
  let globals ← get
  if 0 < globals.processes.length then
    if globals.nextProcess < globals.processes.length then
      set { globals with nextProcess := globals.nextProcess + 1 }
    else
      throw .sliceIndex

def Handler.call : Handler → EStateM Panic (Globals T) Unit
  | .schedular => Kernel.schedular

/-- `vector as usize - 32`. -/
def handlerIndex (vector : UInt8) : Except Panic Nat :=
  if 32 ≤ vector.toNat then .ok (vector.toNat - 32) else .error .overflow

/-- `interrupts::register_handler`. -/
def registerHandler (vector : UInt8) (handler : Handler) :
    EStateM Panic (Globals T) Unit := do
  let index ← MonadExcept.ofExcept (handlerIndex vector)
  modify fun globals =>
    { globals with
      handlers :=
        Function.update globals.handlers index
          (globals.handlers index ++ [handler]) }

/-- `interrupts::interrupt`. -/
def interrupt (vector : UInt8) : EStateM Panic (Globals T) Unit := do
  let index ← MonadExcept.ofExcept (handlerIndex vector)
  let globals ← get
  (globals.handlers index).forM Handler.call

/-- `process_manager::init`. -/
def init : EStateM Panic (Globals T) Unit :=
  registerHandler 0x3C .schedular

/-- What happens while the kernel runs. -/
inductive Event (T : Type) where
  | spawn (process : ManagedProcess T)
  | timer

def Event.perform : Event T → EStateM Panic (Globals T) Unit
  | .spawn process => Kernel.spawn process
  | .timer => interrupt 0x3C

/-- The kernel from its initialisation through a sequence of events. -/
def kernelRun (events : List (Event T)) : EStateM Panic (Globals T) Unit := do
  init
  events.forM Event.perform

/-- The access of `schedular` to `PROCESSES` is inside the list. -/
def Globals.IndexInBounds (globals : Globals T) : Prop :=
  globals.processes ≠ [] → globals.nextProcess < globals.processes.length

end Functions

/-! ## One event -/

section Events

variable {T : Type}

/-- The handlers after `init`. -/
def timerHandlers : Nat → List Handler :=
  Function.update (fun _ => []) 28 [.schedular]

theorem timer_run (globals : Globals T)
    (registered : globals.handlers = timerHandlers) :
    Event.timer.perform.run globals = schedular.run globals := by
  have listed : globals.handlers 28 = [.schedular] := by
    rw [registered]
    rfl
  change
    ((globals.handlers 28).forM (Handler.call (T := T))).run globals =
      schedular.run globals
  rw [listed, List.forM_eq_forM, List.forM_cons, List.forM_nil, bind_run]
  change _ = (schedular (T := T)).run globals
  cases outcome : (schedular (T := T)).run globals with
  | ok value final =>
      rw [Handler.call, outcome]
      rfl
  | error fault final =>
      rw [Handler.call, outcome]

theorem schedular_run (globals : Globals T) :
    schedular.run globals =
      if 0 < globals.processes.length then
        if globals.nextProcess < globals.processes.length then
          .ok () { globals with nextProcess := globals.nextProcess + 1 }
        else
          .error .sliceIndex globals
      else
        .ok () globals := by
  rw [schedular, bind_run, get_run]
  by_cases filled : 0 < globals.processes.length
  · by_cases inside : globals.nextProcess < globals.processes.length
    · simp only [if_pos filled, if_pos inside]
      rfl
    · simp only [if_pos filled, if_neg inside]
      rfl
  · simp only [if_neg filled]
    rfl

end Events

/-! ## Sequences of events -/

section Runs

variable {T : Type}

def spawns : List (Event T) → Nat
  | [] => 0
  | .spawn _ :: events => spawns events + 1
  | .timer :: events => spawns events

def ticks : List (Event T) → Nat
  | [] => 0
  | .spawn _ :: events => ticks events
  | .timer :: events => ticks events + 1

/-- The timer interrupts after the first `spawn`. -/
def ticksSinceSpawn : List (Event T) → Nat
  | [] => 0
  | .spawn _ :: events => ticks events
  | .timer :: events => ticksSinceSpawn events

theorem spawns_append (seen events : List (Event T)) :
    spawns (seen ++ events) = spawns seen + spawns events := by
  induction seen with
  | nil => simp [spawns]
  | cons event rest inductionHypothesis =>
      cases event with
      | spawn process =>
          simp only [List.cons_append, spawns, inductionHypothesis]
          omega
      | timer => simp only [List.cons_append, spawns, inductionHypothesis]

theorem ticks_append (seen events : List (Event T)) :
    ticks (seen ++ events) = ticks seen + ticks events := by
  induction seen with
  | nil => simp [ticks]
  | cons event rest inductionHypothesis =>
      cases event with
      | spawn process => simp only [List.cons_append, ticks, inductionHypothesis]
      | timer =>
          simp only [List.cons_append, ticks, inductionHypothesis]
          omega

theorem ticksSinceSpawn_append_spawn (seen : List (Event T))
    (process : ManagedProcess T) :
    ticksSinceSpawn (seen ++ [.spawn process]) = ticksSinceSpawn seen := by
  induction seen with
  | nil => rfl
  | cons event rest inductionHypothesis =>
      cases event with
      | spawn first => simp [ticksSinceSpawn, ticks_append, ticks]
      | timer => exact inductionHypothesis

theorem ticksSinceSpawn_append_timer (seen : List (Event T)) :
    ticksSinceSpawn (seen ++ [.timer]) =
      ticksSinceSpawn seen + min 1 (spawns seen) := by
  induction seen with
  | nil => rfl
  | cons event rest inductionHypothesis =>
      cases event with
      | spawn first => simp [ticksSinceSpawn, ticks_append, ticks, spawns]
      | timer => exact inductionHypothesis

/-- What the globals are after a sequence of events. -/
structure Tracks (seen : List (Event T)) (globals : Globals T) : Prop where
  registered : globals.handlers = timerHandlers
  listed : globals.processes.length = spawns seen
  advanced : globals.nextProcess = ticksSinceSpawn seen

theorem Tracks.inBounds_iff {seen : List (Event T)} {globals : Globals T}
    (tracks : Tracks seen globals) :
    globals.IndexInBounds ↔
      (0 < spawns seen → ticksSinceSpawn seen < spawns seen) := by
  rw [Globals.IndexInBounds, ← tracks.listed, ← tracks.advanced,
    List.length_pos_iff]

theorem Tracks.spawn {seen : List (Event T)} {globals : Globals T}
    (tracks : Tracks seen globals) (process : ManagedProcess T) :
    Tracks (seen ++ [.spawn process])
      { globals with processes := globals.processes ++ [process] } where
  registered := tracks.registered
  listed := by
    rw [List.length_append, tracks.listed, spawns_append]
    rfl
  advanced := by
    rw [ticksSinceSpawn_append_spawn]
    exact tracks.advanced

theorem Tracks.timer {seen : List (Event T)} {globals final : Globals T}
    (tracks : Tracks seen globals)
    (returned : Event.timer.perform.run globals = .ok () final) :
    Tracks (seen ++ [.timer]) final := by
  have counted : spawns (seen ++ [.timer]) = spawns seen := by
    rw [spawns_append]
    rfl
  rw [timer_run globals tracks.registered, schedular_run] at returned
  by_cases filled : 0 < globals.processes.length
  · rw [if_pos filled] at returned
    by_cases inside : globals.nextProcess < globals.processes.length
    · rw [if_pos inside] at returned
      cases returned
      refine ⟨tracks.registered, tracks.listed.trans counted.symm, ?_⟩
      rw [ticksSinceSpawn_append_timer, ← tracks.listed, ← tracks.advanced]
      simp only [Nat.min_eq_left filled]
    · rw [if_neg inside] at returned
      cases returned
  · rw [if_neg filled] at returned
    cases returned
    refine ⟨tracks.registered, tracks.listed.trans counted.symm, ?_⟩
    rw [ticksSinceSpawn_append_timer, ← tracks.listed, ← tracks.advanced]
    omega

theorem timer_returns {globals : Globals T}
    (registered : globals.handlers = timerHandlers)
    (inBounds : globals.IndexInBounds) :
    ∃ final, Event.timer.perform.run globals = .ok () final := by
  rw [timer_run globals registered, schedular_run]
  by_cases filled : 0 < globals.processes.length
  · rw [if_pos filled, if_pos (inBounds (List.length_pos_iff.mp filled))]
    exact ⟨_, rfl⟩
  · rw [if_neg filled]
    exact ⟨_, rfl⟩

theorem kernelRun_nil :
    (kernelRun []).run (Globals.initial T) =
      .ok () ⟨[], 0, timerHandlers⟩ := rfl

theorem kernelRun_append_run_ok {seen : List (Event T)} {event : Event T}
    {globals final : Globals T} :
    (kernelRun (seen ++ [event])).run globals = .ok () final ↔
      ∃ middle,
        (kernelRun seen).run globals = .ok () middle ∧
          event.perform.run middle = .ok () final := by
  constructor
  · intro returned
    obtain ⟨_, ready, registered, looped⟩ := bind_run_ok.mp returned
    obtain ⟨middle, begun, ended⟩ := forM_append_run_ok.mp looped
    obtain ⟨last, performed, done⟩ := forM_cons_run_ok.mp ended
    rw [forM_nil_run_ok] at done
    subst done
    exact ⟨middle, bind_run_ok.mpr ⟨_, ready, registered, begun⟩, performed⟩
  · intro both
    obtain ⟨middle, returned, performed⟩ := both
    obtain ⟨_, ready, registered, begun⟩ := bind_run_ok.mp returned
    refine bind_run_ok.mpr ⟨_, ready, registered, ?_⟩
    refine forM_append_run_ok.mpr ⟨middle, begun, ?_⟩
    exact forM_cons_run_ok.mpr ⟨final, performed, forM_nil_run_ok.mpr rfl⟩

theorem tracks_of_run_ok {seen : List (Event T)} {final : Globals T}
    (returned : (kernelRun seen).run (Globals.initial T) = .ok () final) :
    Tracks seen final := by
  induction seen using List.reverseRecOn generalizing final with
  | nil =>
      rw [kernelRun_nil] at returned
      cases returned
      exact ⟨rfl, rfl, rfl⟩
  | append_singleton seen event inductionHypothesis =>
      obtain ⟨middle, begun, ended⟩ := kernelRun_append_run_ok.mp returned
      have tracks := inductionHypothesis begun
      cases event with
      | spawn process =>
          cases ended
          exact tracks.spawn process
      | timer => exact tracks.timer ended

/-- At every moment there have been fewer ticks since the first `spawn` than
processes. -/
def TicksBelowSpawns (events : List (Event T)) : Prop :=
  ∀ seen, seen <+: events → 0 < spawns seen →
    ticksSinceSpawn seen < spawns seen

theorem kernelRun_returns {events : List (Event T)}
    (below : TicksBelowSpawns events) :
    ∃ final, (kernelRun events).run (Globals.initial T) = .ok () final := by
  induction events using List.reverseRecOn with
  | nil => exact ⟨_, kernelRun_nil⟩
  | append_singleton seen event inductionHypothesis =>
      have earlier : TicksBelowSpawns seen := by
        intro first initial
        exact below first (initial.trans (List.prefix_append seen [event]))
      obtain ⟨middle, begun⟩ := inductionHypothesis earlier
      have tracks := tracks_of_run_ok begun
      have ending : ∃ final, event.perform.run middle = .ok () final := by
        cases event with
        | spawn process => exact ⟨_, rfl⟩
        | timer =>
            apply timer_returns tracks.registered
            exact tracks.inBounds_iff.mpr
              (earlier seen (List.prefix_refl seen))
      obtain ⟨final, ended⟩ := ending
      exact ⟨final, kernelRun_append_run_ok.mpr ⟨middle, begun, ended⟩⟩

/-- No access of `schedular` is out of bounds, and no state is reached in
which the next access would be, exactly when the ticks stay below the
spawns. -/
theorem schedular_inBounds_iff (events : List (Event T)) :
    (∀ seen, seen <+: events →
      ∃ globals,
        (kernelRun seen).run (Globals.initial T) = .ok () globals ∧
          globals.IndexInBounds) ↔
      TicksBelowSpawns events := by
  constructor
  · intro safe seen initial
    obtain ⟨globals, returned, inBounds⟩ := safe seen initial
    exact (tracks_of_run_ok returned).inBounds_iff.mp inBounds
  · intro below seen initial
    have belowSeen : TicksBelowSpawns seen := by
      intro first earlier
      exact below first (earlier.trans initial)
    obtain ⟨globals, returned⟩ := kernelRun_returns belowSeen
    refine ⟨globals, returned, ?_⟩
    exact (tracks_of_run_ok returned).inBounds_iff.mpr (below seen initial)

end Runs

/-! ## One process -/

/-- Two ticks after one `spawn` index behind the list. -/
theorem second_tick_out_of_bounds :
    ∃ process : ManagedProcess RadixTable, ∃ booted globals,
      (newKernelProcess guestElf residentElf 0x200000 0x200000 0).run
          (bootedMachine residentSpace) = .ok process booted ∧
        (kernelRun [.spawn process, .timer]).run (Globals.initial RadixTable) =
          .ok () globals ∧
        ¬ globals.IndexInBounds ∧
        (kernelRun [.spawn process, .timer, .timer]).run
            (Globals.initial RadixTable) =
          .error .sliceIndex globals := by
  obtain ⟨process, booted, returned⟩ := fromElf_returns_guest
  refine ⟨⟨process, .ready, .kernel⟩, booted,
    ⟨[⟨process, .ready, .kernel⟩], 1, timerHandlers⟩, ?_, rfl, ?_, rfl⟩
  · rw [newKernelProcess, bind_run_of_ok _ returned]
    rfl
  · intro inBounds
    exact absurd (inBounds (by simp)) (by simp)

end RustKernel.Kernel
