import RustKernel.Foundations.Output
import RustKernel.Foundations.Recording

/-!
# Regions of a written file

`Holds start bytes` says what a file has in one place.  A run that stores only
inside a region leaves what lies outside as it was, so that a piece of the file
survives all runs whose regions miss it, in whatever order they come.
-/

namespace RustKernel.Foundations

variable {ω ε : Type}

/-- The file as a byte string. -/
def Output.bytes (output : Output ω) : List UInt8 :=
  (List.range output.length).map output.image

theorem Output.bytes_getElem? {output : Output ω} {target : Nat}
    {byte : UInt8} :
    output.bytes[target]? = some byte ↔
      target < output.length ∧ output.image target = byte := by
  unfold Output.bytes
  by_cases inside : target < output.length
  · rw [List.getElem?_map, List.getElem?_range inside]
    simp [inside]
  · rw [List.getElem?_eq_none (by simp; omega)]
    simp [inside]

/-- The file has the bytes from a position on. -/
def Holds (start : Nat) (bytes : List UInt8) (output : Output ω) : Prop :=
  ∀ index byte, bytes[index]? = some byte →
    output.bytes[start + index]? = some byte

namespace Holds

variable {start : Nat} {output : Output ω}

theorem bytesAt_eq {bytes : List UInt8} (holds : Holds start bytes output) :
    bytesAt output.bytes start bytes.length = bytes := by
  apply List.ext_getElem?
  intro index
  by_cases inside : index < bytes.length
  · rw [bytesAt_getElem? inside, List.getElem?_eq_getElem inside]
    exact holds index _ (List.getElem?_eq_getElem inside)
  · have short :
        (bytesAt output.bytes start bytes.length).length ≤ bytes.length :=
      List.length_take_le _ _
    rw [List.getElem?_eq_none (by omega), List.getElem?_eq_none (by omega)]

theorem of_append {front bytes back : List UInt8}
    (holds : Holds start (front ++ bytes ++ back) output) :
    Holds (start + front.length) bytes output := by
  intro index byte found
  obtain ⟨inside, _⟩ := List.getElem?_eq_some_iff.mp found
  rw [Nat.add_assoc]
  apply holds
  rw [List.append_assoc, List.getElem?_append_right (by omega),
    Nat.add_sub_cancel_left, List.getElem?_append_left inside, found]

end Holds

theorem Output.seekEnd_run (output : Output ω) :
    (Output.seekEnd : EStateM ε (Output ω) Nat).run output =
      .ok output.length (output.seeked output.length) := rfl

theorem Output.written_position (origin : ω) (bytes : List UInt8)
    (count : Nat) (output : Output ω) :
    (output.written origin bytes count).position = output.position + count := by
  by_cases none : count = 0
  · rw [Output.written, if_pos none, none, Nat.add_zero]
  · rw [Output.written, if_neg none]

theorem holds_written (origin : ω) (bytes : List UInt8) (output : Output ω) :
    Holds output.position bytes
      (output.written origin bytes bytes.length) := by
  intro index byte found
  obtain ⟨inside, _⟩ := List.getElem?_eq_some_iff.mp found
  rw [Output.written_of_pos (by omega), Output.bytes_getElem?, Output.image,
    Store.applyAll_append, Store.applyAll_singleton]
  refine ⟨?_, Store.apply_at_index found⟩
  simp only
  omega

/-! ## Stores inside a region -/

/-- The run has stored inside the region only, and the file has not become
shorter. -/
structure WritesIn (region : Nat → Prop) (before after : Output ω) : Prop where
  logged :
    Logs (fun store => ∀ target, store.Covers target → region target) before
      after
  length : before.length ≤ after.length

section WritesIn

variable {region wider : Nat → Prop} {before after : Output ω}

instance : RunRelation (WritesIn region : Output ω → Output ω → Prop) where
  refl output := ⟨RunRelation.refl output, Nat.le_refl _⟩
  trans begun ended :=
    ⟨RunRelation.trans begun.logged ended.logged,
      Nat.le_trans begun.length ended.length⟩

theorem WritesIn.mono (writes : WritesIn region before after)
    (within : ∀ target, region target → wider target) :
    WritesIn wider before after :=
  ⟨writes.logged.mono fun _ inside target covered =>
    within target (inside target covered), writes.length⟩

theorem WritesIn.seeked (writes : WritesIn region before after)
    (position : Nat) : WritesIn region before (after.seeked position) := by
  obtain ⟨logged, longer⟩ := writes
  exact ⟨logged, longer⟩

theorem writesIn_seeked (position : Nat) (output : Output ω) :
    WritesIn region output (output.seeked position) :=
  (RunRelation.refl output : WritesIn region output output).seeked position

theorem writesIn_written {origin : ω} {bytes : List UInt8} {count : Nat}
    {output : Output ω}
    (inside :
      ∀ target, output.position ≤ target →
        target < output.position + bytes.length → region target) :
    WritesIn region output (output.written origin bytes count) := by
  constructor
  · apply logs_written
    intro target covered
    exact inside target covered.1 covered.2
  · by_cases none : count = 0
    · rw [Output.written, if_pos none]
    · rw [Output.written, if_neg none]
      exact Nat.le_max_left _ _

/-- What lies outside the region is as it was. -/
theorem WritesIn.holds {start : Nat} {bytes : List UInt8}
    (writes : WritesIn region before after)
    (outside :
      ∀ target, start ≤ target → target < start + bytes.length →
        ¬ region target)
    (holds : Holds start bytes before) : Holds start bytes after := by
  intro index byte found
  obtain ⟨inside, _⟩ := List.getElem?_eq_some_iff.mp found
  obtain ⟨within, same⟩ := Output.bytes_getElem?.mp (holds index byte found)
  obtain ⟨added, logged, each⟩ := writes.logged
  rw [Output.bytes_getElem?]
  refine ⟨Nat.lt_of_lt_of_le within writes.length, ?_⟩
  rw [Output.image, logged, Store.applyAll_append,
    Store.applyAll_of_not_covers]
  · exact same
  · intro store member covered
    exact outside (start + index) (by omega) (by omega)
      (each store member _ covered)

/-- Writes behind the end of the file. -/
theorem WritesIn.holds_behind {start : Nat} {bytes : List UInt8}
    (writes : WritesIn (fun target => before.length ≤ target) before after)
    (holds : Holds start bytes before) : Holds start bytes after := by
  refine writes.holds ?_ holds
  intro target above below
  have inside : target - start < bytes.length := by omega
  have found := holds _ _ (List.getElem?_eq_getElem inside)
  rw [Output.bytes_getElem?] at found
  omega

/-- A piece of the file in front of all that comes later. -/
theorem Holds.kept {start low : Nat} {bytes : List UInt8}
    (holds : Holds start bytes before)
    (writes : WritesIn (fun target => low ≤ target) before after)
    (front : start + bytes.length ≤ low) : Holds start bytes after := by
  refine writes.holds ?_ holds
  intro target _ below
  omega

end WritesIn

/-! ## Runs that stay behind a position -/

/-- From a position behind the bound on, the run writes behind the bound and
ends there. -/
def StaysBehind (low : Nat) (before after : Output ω) : Prop :=
  low ≤ before.position →
    low ≤ after.position ∧ WritesIn (fun target => low ≤ target) before after

section StaysBehind

variable {low : Nat}

instance : RunRelation (StaysBehind low : Output ω → Output ω → Prop) where
  refl output behind := ⟨behind, RunRelation.refl output⟩
  trans begun ended behind :=
    ⟨(ended (begun behind).1).1,
      RunRelation.trans (begun behind).2 (ended (begun behind).1).2⟩

theorem staysBehind_written (origin : ω) (bytes : List UInt8) (count : Nat)
    (output : Output ω) :
    StaysBehind low output (output.written origin bytes count) := by
  intro behind
  refine ⟨?_, writesIn_written fun target above _ => Nat.le_trans behind above⟩
  unfold Output.written
  split
  · exact behind
  · exact Nat.le_trans behind (Nat.le_add_right _ _)

theorem staysBehind_writeAll (origin : ω) (bytes : List UInt8) :
    Preserves (StaysBehind low)
      (Output.writeAll origin bytes : EStateM ε (Output ω) Unit) :=
  fun output => staysBehind_written origin bytes _ output

theorem staysBehind_writeZeros (origin : ω) (count : Nat) :
    Preserves (StaysBehind low)
      (Output.writeZeros origin count : EStateM ε (Output ω) Unit) :=
  fun output => staysBehind_written origin _ count output

theorem staysBehind_streamPosition :
    Preserves (StaysBehind low)
      (Output.streamPosition : EStateM ε (Output ω) Nat) :=
  fun output => RunRelation.refl output

theorem staysBehind_get :
    Preserves (StaysBehind low)
      (get : EStateM ε (Output ω) (Output ω)) :=
  fun output => RunRelation.refl output

/-- A run with a position of its own writes behind the bound, wherever it is
started. -/
theorem writesIn_writeAt {α : Type} {position : Nat}
    {body : EStateM ε (Output ω) α} (above : low ≤ position)
    (kept : Preserves (StaysBehind low) body) {output final : Output ω}
    {result : α}
    (returned :
      (Output.writeAt position body).run output = .ok result final) :
    WritesIn (fun target => low ≤ target) output final := by
  rw [Output.writeAt_run_ok] at returned
  obtain ⟨ended, performed, rfl⟩ := returned
  have inner := (kept.of_run_ok performed above).2
  exact (RunRelation.trans (writesIn_seeked position output) inner).seeked _

theorem staysBehind_writeAt {α : Type} {position : Nat}
    {body : EStateM ε (Output ω) α} (above : low ≤ position)
    (kept : Preserves (StaysBehind low) body) :
    Preserves (StaysBehind low) (Output.writeAt position body) := by
  intro output behind
  have inner := kept (output.seeked position) above
  have moved : WritesIn (fun target => low ≤ target) output
      (finalState (body.run (output.seeked position))) :=
    RunRelation.trans (writesIn_seeked position output) inner.2
  cases outcome : body.run (output.seeked position) with
  | ok value ended =>
      rw [outcome] at moved
      have run := Output.writeAt_run_ok.mpr ⟨ended, outcome, rfl⟩
      rw [run]
      exact ⟨behind, moved.seeked output.position⟩
  | error fault ended =>
      rw [outcome] at inner moved
      have run :
          (Output.writeAt position body).run output = .error fault ended := by
        change (body >>= _).run (output.seeked position) = _
        rw [bind_run, outcome]
      rw [run]
      exact ⟨inner.1, moved⟩

end StaysBehind

/-! ## Runs that store one byte string -/

theorem Holds.append {start : Nat} {front back : List UInt8}
    {output : Output ω} (begun : Holds start front output)
    (ended : Holds (start + front.length) back output) :
    Holds start (front ++ back) output := by
  intro index byte found
  by_cases inside : index < front.length
  · rw [List.getElem?_append_left inside] at found
    exact begun index byte found
  · rw [List.getElem?_append_right (by omega)] at found
    have same :
        start + index = start + front.length + (index - front.length) := by
      omega
    rw [same]
    exact ended _ byte found

/-- From its first position on, the run has stored the bytes, and nothing in
front of them. -/
structure Stores (bytes : List UInt8) (before after : Output ω) : Prop where
  position : after.position = before.position + bytes.length
  holds : Holds before.position bytes after
  behind : WritesIn (fun target => before.position ≤ target) before after

section Stores

theorem Stores.append {front back : List UInt8}
    {before middle after : Output ω} (begun : Stores front before middle)
    (ended : Stores back middle after) :
    Stores (front ++ back) before after where
  position := by
    rw [ended.position, begun.position, List.length_append, Nat.add_assoc]
  holds := by
    have kept : Holds before.position front after := by
      refine ended.behind.holds ?_ begun.holds
      intro target _ below
      rw [begun.position]
      omega
    have added := ended.holds
    rw [begun.position] at added
    exact kept.append added
  behind := by
    refine RunRelation.trans begun.behind (ended.behind.mono ?_)
    intro target above
    rw [begun.position] at above
    omega

theorem stores_written {origin : ω} {bytes : List UInt8} {count : Nat}
    (sized : bytes.length = count) (output : Output ω) :
    Stores bytes output (output.written origin bytes count) := by
  subst sized
  exact ⟨Output.written_position origin bytes _ output,
    holds_written origin bytes output,
    writesIn_written fun target above _ => above⟩

instance :
    RunRelation (fun before after : Output ω =>
      ∃ bytes, Stores bytes before after) where
  refl output := by
    refine ⟨[], rfl, ?_, RunRelation.refl output⟩
    intro index byte absent
    cases absent
  trans begun ended := by
    obtain ⟨front, first⟩ := begun
    obtain ⟨back, second⟩ := ended
    exact ⟨front ++ back, first.append second⟩

end Stores

end RustKernel.Foundations
