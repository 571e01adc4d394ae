import RustKernel.Foundations.Bytes
import RustKernel.Foundations.Run

/-!
# Files that are written through a position

A program over an `Output` writes byte strings at a position that it may move.
The output keeps the log of the writes, each with a note of what made it, and
the image is read back from the log: bytes that were never written are zero.

`Emits origin bytes` says what a run has written under one note.  Runs are
composed through it even when runs under other notes, at other positions, take
place in between.
-/

namespace RustKernel.Foundations

structure Output (ω : Type) where
  stores : List (Store ω)
  position : Nat
  length : Nat

namespace Output

variable {ω ε : Type}

/-- The file as it is created. -/
def empty : Output ω := ⟨[], 0, 0⟩

/-- The bytes of the file. -/
def image (output : Output ω) : Nat → UInt8 :=
  Store.applyAll (fun _ => 0) output.stores

def seeked (position : Nat) (output : Output ω) : Output ω :=
  { output with position := position }

/-- A byte string of the given length has been written.  An empty write does
not grow the file. -/
def written (origin : ω) (bytes : List UInt8) (count : Nat)
    (output : Output ω) : Output ω :=
  if count = 0 then
    output
  else
    { stores := output.stores ++ [⟨origin, output.position, bytes⟩]
      position := output.position + count
      length := max output.length (output.position + count) }

/-- `write_all`. -/
def writeAll (origin : ω) (bytes : List UInt8) : EStateM ε (Output ω) Unit :=
  modify (written origin bytes bytes.length)

/-- `write_all` of a vector of zeros. -/
def writeZeros (origin : ω) (count : Nat) : EStateM ε (Output ω) Unit :=
  modify (written origin (List.replicate count 0) count)

/-- `seek(SeekFrom::Current(0))`. -/
def streamPosition : EStateM ε (Output ω) Nat := do
  return (← get).position

/-- `seek(SeekFrom::Start(position))`. -/
def seekStart (position : Nat) : EStateM ε (Output ω) Unit :=
  modify (seeked position)

/-- `seek(SeekFrom::End(0))`. -/
def seekEnd : EStateM ε (Output ω) Nat := do
  let output ← get
  set (seeked output.length output)
  return output.length

/-- Seeks to a position for the body and back behind it. -/
def writeAt {α : Type} (position : Nat) (body : EStateM ε (Output ω) α) :
    EStateM ε (Output ω) α := do
  let old ← streamPosition
  seekStart position
  let result ← body
  seekStart old
  return result

theorem writeAt_run_ok {α : Type} {position : Nat}
    {body : EStateM ε (Output ω) α} {output final : Output ω} {result : α} :
    (writeAt position body).run output = .ok result final ↔
      ∃ ended,
        body.run (output.seeked position) = .ok result ended ∧
          final = ended.seeked output.position := by
  change
    (body >>= fun value => do
        seekStart output.position
        return value).run (output.seeked position) = .ok result final ↔ _
  rw [bind_run_ok]
  constructor
  · intro returned
    obtain ⟨value, ended, performed, closed⟩ := returned
    cases closed
    exact ⟨ended, performed, rfl⟩
  · intro returned
    obtain ⟨ended, performed, closed⟩ := returned
    subst closed
    exact ⟨result, ended, performed, rfl⟩

/-- A body that fails leaves the output where it fails. -/
theorem writeAt_run_error {α : Type} {position : Nat}
    {body : EStateM ε (Output ω) α} {output final : Output ω} {fault : ε} :
    (writeAt position body).run output = .error fault final ↔
      body.run (output.seeked position) = .error fault final := by
  change
    (body >>= fun value => do
        seekStart output.position
        return value).run (output.seeked position) = .error fault final ↔ _
  rw [bind_run]
  cases body.run (output.seeked position) with
  | ok value ended =>
      constructor
      · intro returned
        cases returned
      · intro returned
        cases returned
  | error other ended => exact Iff.rfl

theorem writeAll_run (origin : ω) (bytes : List UInt8) (output : Output ω) :
    (writeAll origin bytes : EStateM ε (Output ω) Unit).run output =
      .ok () (output.written origin bytes bytes.length) := rfl

theorem writeZeros_run (origin : ω) (count : Nat) (output : Output ω) :
    (writeZeros origin count : EStateM ε (Output ω) Unit).run output =
      .ok () (output.written origin (List.replicate count 0) count) := rfl

theorem streamPosition_run (output : Output ω) :
    (streamPosition : EStateM ε (Output ω) Nat).run output =
      .ok output.position output := rfl

theorem written_of_pos {origin : ω} {bytes : List UInt8} {count : Nat}
    (positive : 0 < count) (output : Output ω) :
    output.written origin bytes count =
      { stores := output.stores ++ [⟨origin, output.position, bytes⟩]
        position := output.position + count
        length := max output.length (output.position + count) } :=
  if_neg (Nat.pos_iff_ne_zero.mp positive)

end Output

/-! ## Stores that tile a range -/

/-- The stores follow one another from a position on, and their bytes in
order are the given ones. -/
def Tiles {ω : Type} (position : Nat) :
    List (Store ω) → List UInt8 → Prop
  | [], bytes => bytes = []
  | store :: stores, bytes =>
      store.address = position ∧
        ∃ later, bytes = store.bytes ++ later ∧
          Tiles (position + store.bytes.length) stores later

section Tiles

variable {ω : Type}

theorem Tiles.append {position : Nat} {first second : List (Store ω)}
    {front back : List UInt8} (begun : Tiles position first front)
    (ended : Tiles (position + front.length) second back) :
    Tiles position (first ++ second) (front ++ back) := by
  induction first generalizing position front with
  | nil =>
      cases begun
      simpa using ended
  | cons store stores inductionHypothesis =>
      obtain ⟨placed, later, split, rest⟩ := begun
      subst split
      rw [List.length_append, ← Nat.add_assoc] at ended
      refine ⟨placed, later ++ back, ?_, inductionHypothesis rest ended⟩
      rw [List.append_assoc]

/-- The stores cover the bytes and nothing else. -/
theorem Tiles.covers_iff {position : Nat} {stores : List (Store ω)}
    {bytes : List UInt8} (tiles : Tiles position stores bytes)
    (target : Nat) :
    (∃ store ∈ stores, store.Covers target) ↔
      position ≤ target ∧ target < position + bytes.length := by
  induction stores generalizing position bytes with
  | nil =>
      cases tiles
      simp
  | cons store stores inductionHypothesis =>
      obtain ⟨placed, later, split, rest⟩ := tiles
      subst split
      simp only [List.mem_cons, exists_eq_or_imp]
      rw [inductionHypothesis rest, Store.Covers, placed, List.length_append]
      omega

end Tiles

/-! ## Writes under one note -/

/-- Under the note, the run has written the bytes from its first position on,
and it has ended behind them.  What it has written under other notes is left
open. -/
structure Emits {ω : Type} [DecidableEq ω] (origin : ω) (bytes : List UInt8)
    (before after : Output ω) : Prop where
  logged :
    ∃ added, after.stores = before.stores ++ added ∧
      Tiles before.position (added.filter fun store => store.origin = origin)
        bytes
  position : after.position = before.position + bytes.length

section Emits

variable {ω : Type} [DecidableEq ω] {origin : ω}

theorem Emits.refl (output : Output ω) : Emits origin [] output output :=
  ⟨⟨[], by simp, rfl⟩, rfl⟩

theorem Emits.append {front back : List UInt8}
    {before middle after : Output ω} (begun : Emits origin front before middle)
    (ended : Emits origin back middle after) :
    Emits origin (front ++ back) before after := by
  obtain ⟨first, logged, tiles⟩ := begun.logged
  obtain ⟨second, loggedLater, tilesLater⟩ := ended.logged
  constructor
  · refine ⟨first ++ second, ?_, ?_⟩
    · rw [loggedLater, logged, List.append_assoc]
    · rw [List.filter_append]
      rw [begun.position] at tilesLater
      exact tiles.append tilesLater
  · rw [ended.position, begun.position, List.length_append]
    omega

theorem emits_written {bytes : List UInt8} {count : Nat}
    (sized : bytes.length = count) (output : Output ω) :
    Emits origin bytes output (output.written origin bytes count) := by
  by_cases none : count = 0
  · rw [Output.written, if_pos none]
    rw [none, List.length_eq_zero_iff] at sized
    subst sized
    exact Emits.refl output
  · rw [Output.written, if_neg none]
    refine ⟨⟨_, rfl, ?_⟩, ?_⟩
    · rw [List.filter_cons_of_pos (by simp)]
      exact ⟨rfl, [], by simp, rfl⟩
    · rw [sized]

/-- A run under other notes that comes back to its position. -/
theorem emits_nil {before after : Output ω} {added : List (Store ω)}
    (logged : after.stores = before.stores ++ added)
    (others : ∀ store ∈ added, store.origin ≠ origin)
    (position : after.position = before.position) :
    Emits origin [] before after := by
  refine ⟨⟨added, logged, ?_⟩, position⟩
  rw [List.filter_eq_nil_iff.mpr (by simpa using others)]
  rfl

end Emits

/-! ## What a run may write -/

/-- Every store that a run has added meets a condition. -/
def Logs {ω : Type} (P : Store ω → Prop) (before after : Output ω) : Prop :=
  ∃ added, after.stores = before.stores ++ added ∧ ∀ store ∈ added, P store

section Logs

variable {ω ε : Type} {P Q : Store ω → Prop}

instance : RunRelation (Logs P) where
  refl := fun output => ⟨[], by simp, by simp⟩
  trans := by
    intro first middle last begun ended
    obtain ⟨front, logged, each⟩ := begun
    obtain ⟨back, loggedLater, eachLater⟩ := ended
    refine ⟨front ++ back, ?_, ?_⟩
    · rw [loggedLater, logged, List.append_assoc]
    · intro store member
      rcases List.mem_append.mp member with early | late
      · exact each store early
      · exact eachLater store late

theorem Logs.mono {before after : Output ω} (logs : Logs P before after)
    (weaker : ∀ store, P store → Q store) : Logs Q before after := by
  obtain ⟨added, logged, each⟩ := logs
  exact ⟨added, logged, fun store member => weaker store (each store member)⟩

theorem logs_written {origin : ω} {bytes : List UInt8} {count : Nat}
    {output : Output ω} (allowed : P ⟨origin, output.position, bytes⟩) :
    Logs P output (output.written origin bytes count) := by
  by_cases none : count = 0
  · rw [Output.written, if_pos none]
    exact RunRelation.refl output
  · rw [Output.written, if_neg none]
    refine ⟨_, rfl, ?_⟩
    intro store member
    rw [List.mem_singleton] at member
    subst member
    exact allowed

theorem Emits.of_logs [DecidableEq ω] {origin : ω} {before after : Output ω}
    (logs : Logs (fun store => store.origin ≠ origin) before after)
    (position : after.position = before.position) :
    Emits origin [] before after := by
  obtain ⟨added, logged, others⟩ := logs
  exact emits_nil logged others position

end Logs

/-! ## Programs that write fixed bytes -/

/-- Every run of the program returns and has written the bytes. -/
def Puts {ω ε : Type} [DecidableEq ω] (origin : ω) (bytes : List UInt8)
    (program : EStateM ε (Output ω) PUnit) : Prop :=
  ∀ output, ∃ final,
    program.run output = .ok PUnit.unit final ∧
      Emits origin bytes output final

section Puts

variable {ω ε : Type} [DecidableEq ω] {origin : ω}

theorem puts_return :
    Puts origin [] (pure PUnit.unit : EStateM ε (Output ω) PUnit) :=
  fun output => ⟨output, rfl, Emits.refl output⟩

theorem puts_writeAll (bytes : List UInt8) :
    Puts origin bytes
      (Output.writeAll origin bytes : EStateM ε (Output ω) PUnit) :=
  fun output =>
    ⟨_, Output.writeAll_run origin bytes output, emits_written rfl output⟩

theorem Puts.seq {front back : List UInt8}
    {first second : EStateM ε (Output ω) PUnit}
    (begun : Puts origin front first) (ended : Puts origin back second) :
    Puts origin (front ++ back) (first >>= fun _ => second) := by
  intro output
  obtain ⟨middle, returned, emitted⟩ := begun output
  obtain ⟨final, returnedLater, emittedLater⟩ := ended middle
  refine ⟨final, ?_, emitted.append emittedLater⟩
  rw [bind_run_of_ok _ returned, returnedLater]

theorem Puts.forM {α : Type} {items : List α} {chunks : List (List UInt8)}
    {bytesOf : α → Except ε (List UInt8)}
    {body : α → EStateM ε (Output ω) PUnit}
    (each : ∀ item bytes, bytesOf item = .ok bytes → Puts origin bytes (body item))
    (built : items.mapM bytesOf = .ok chunks) :
    Puts origin chunks.flatten (items.forM body) := by
  induction items generalizing chunks with
  | nil =>
      cases built
      exact puts_return
  | cons item items inductionHypothesis =>
      obtain ⟨bytes, rest, first, later, rfl⟩ := mapM_cons_eq_ok.mp built
      rw [List.forM_eq_forM, List.forM_cons, List.flatten_cons]
      exact (each item bytes first).seq (inductionHypothesis later)

end Puts

end RustKernel.Foundations
