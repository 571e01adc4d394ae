import RustKernel.Foundations.FileRegions

/-!
# Tiled ranges of a written file

Stores of one kind that tile a range are what the file has there, wherever the
stores of other kinds come in between, as long as these miss the range.
-/

namespace RustKernel.Foundations

variable {ω ε α : Type}

/-! ## The bytes of a tiled range -/

/-- A byte of a tiled range is read back through stores of other kinds that
do not cover it. -/
theorem Tiles.applyAll {own : Store ω → Bool} {position index : Nat}
    {stores : List (Store ω)} {bytes : List UInt8} {byte : UInt8}
    (tiles : Tiles position (stores.filter own) bytes)
    (others :
      ∀ store ∈ stores, own store = false →
        ¬ store.Covers (position + index))
    (found : bytes[index]? = some byte) (memory : Nat → UInt8) :
    Store.applyAll memory stores (position + index) = byte := by
  induction stores generalizing position index bytes memory with
  | nil =>
      cases tiles
      cases found
  | cons store rest inductionHypothesis =>
      have later :
          ∀ other ∈ rest, own other = false →
            ¬ other.Covers (position + index) :=
        fun other member => others other (by simp [member])
      change Store.applyAll (store.apply memory) rest (position + index) = byte
      cases kind : own store with
      | false =>
          rw [List.filter_cons_of_neg (by simp [kind])] at tiles
          exact inductionHypothesis tiles later found _
      | true =>
          rw [List.filter_cons_of_pos kind] at tiles
          obtain ⟨placed, behind, rfl, tiles⟩ := tiles
          by_cases inside : index < store.bytes.length
          · rw [List.getElem?_append_left inside] at found
            rw [Store.applyAll_of_not_covers, ← placed]
            · exact Store.apply_at_index found
            · intro other member covered
              cases otherKind : own other with
              | false => exact later other member otherKind covered
              | true =>
                  have listed := List.mem_filter.mpr ⟨member, otherKind⟩
                  have bounds :=
                    (tiles.covers_iff _).mp ⟨other, listed, covered⟩
                  omega
          · rw [List.getElem?_append_right (by omega)] at found
            have same :
                position + index =
                  position + store.bytes.length +
                    (index - store.bytes.length) := by
              omega
            rw [same] at later ⊢
            exact inductionHypothesis tiles later found _

/-! ## The end of the file -/

/-- The file has grown to the end of every store of the run. -/
structure Reaches (before after : Output ω) : Prop where
  length : before.length ≤ after.length
  stores :
    Logs (fun store => store.address + store.bytes.length ≤ after.length)
      before after

instance : RunRelation (Reaches : Output ω → Output ω → Prop) where
  refl output := ⟨Nat.le_refl _, RunRelation.refl output⟩
  trans begun ended :=
    ⟨Nat.le_trans begun.length ended.length,
      RunRelation.trans
        (begun.stores.mono fun _ within =>
          Nat.le_trans within ended.length)
        ended.stores⟩

theorem reaches_seeked (position : Nat) (output : Output ω) :
    Reaches output (output.seeked position) :=
  ⟨Nat.le_refl _, [], (List.append_nil _).symm, by simp⟩

theorem reaches_written {origin : ω} {bytes : List UInt8} {count : Nat}
    (sized : bytes.length = count) (output : Output ω) :
    Reaches output (output.written origin bytes count) := by
  by_cases none : count = 0
  · rw [Output.written, if_pos none]
    exact RunRelation.refl output
  · rw [Output.written, if_neg none]
    refine ⟨Nat.le_max_left _ _, _, rfl, ?_⟩
    intro store member
    rw [List.mem_singleton] at member
    subst member
    rw [← sized]
    exact Nat.le_max_right _ _

theorem reaches_writeAll (origin : ω) (bytes : List UInt8) :
    Preserves Reaches
      (Output.writeAll origin bytes : EStateM ε (Output ω) Unit) :=
  fun output => reaches_written rfl output

theorem reaches_writeZeros (origin : ω) (count : Nat) :
    Preserves Reaches
      (Output.writeZeros origin count : EStateM ε (Output ω) Unit) :=
  fun output => reaches_written List.length_replicate output

theorem reaches_streamPosition :
    Preserves Reaches
      (Output.streamPosition : EStateM ε (Output ω) Nat) :=
  fun output => RunRelation.refl output

theorem reaches_get :
    Preserves Reaches (get : EStateM ε (Output ω) (Output ω)) :=
  fun output => RunRelation.refl output

theorem reaches_writeAt {position : Nat} {body : EStateM ε (Output ω) α}
    (kept : Preserves Reaches body) :
    Preserves Reaches (Output.writeAt position body) := by
  intro output
  have moved :
      Reaches output (finalState (body.run (output.seeked position))) :=
    RunRelation.trans (reaches_seeked position output) (kept _)
  cases outcome : body.run (output.seeked position) with
  | ok value ended =>
      rw [outcome] at moved
      rw [Output.writeAt_run_ok.mpr ⟨ended, outcome, rfl⟩]
      exact RunRelation.trans moved (reaches_seeked output.position ended)
  | error fault ended =>
      rw [outcome] at moved
      rw [Output.writeAt_run_error.mpr outcome]
      exact moved

/-- What tiles a range is there behind the run. -/
theorem Tiles.holds {own : Store ω → Bool} {before after : Output ω}
    {added : List (Store ω)} {position : Nat} {bytes : List UInt8}
    (tiles : Tiles position (added.filter own) bytes)
    (logged : after.stores = before.stores ++ added)
    (reaches : Reaches before after)
    (others :
      ∀ store ∈ added, own store = false →
        ∀ target, position ≤ target → target < position + bytes.length →
          ¬ store.Covers target) :
    Holds position bytes after := by
  intro index byte found
  obtain ⟨inside, _⟩ := List.getElem?_eq_some_iff.mp found
  obtain ⟨same, loggedSame, within⟩ := reaches.stores
  rw [logged, List.append_cancel_left_eq] at loggedSame
  subst loggedSame
  rw [Output.bytes_getElem?]
  constructor
  · obtain ⟨store, listed, covered⟩ :=
      (tiles.covers_iff (position + index)).mpr ⟨by omega, by omega⟩
    have bound := within store (List.mem_filter.mp listed).1
    exact Nat.lt_of_lt_of_le covered.2 bound
  · rw [Output.image, logged, Store.applyAll_append]
    exact tiles.applyAll
      (fun store member kind =>
        others store member kind _ (by omega) (by omega))
      found _

/-! ## Parts that were never written -/

/-- The run goes forward, and what it stores lies in front of a bound or of
the position that it reaches. -/
structure Forward (high : Nat) (before after : Output ω) : Prop where
  position : before.position ≤ after.position
  writes :
    WritesIn (fun target => target < max high after.position) before after

section Forward

variable {high : Nat}

instance : RunRelation (Forward high : Output ω → Output ω → Prop) where
  refl output := ⟨Nat.le_refl _, RunRelation.refl output⟩
  trans begun ended :=
    ⟨Nat.le_trans begun.position ended.position,
      RunRelation.trans
        (begun.writes.mono fun target below => by
          have further := ended.position
          omega)
        ended.writes⟩

theorem forward_written {origin : ω} {bytes : List UInt8} {count : Nat}
    (sized : bytes.length = count) (output : Output ω) :
    Forward high output (output.written origin bytes count) := by
  have reached := Output.written_position origin bytes count output
  refine ⟨by omega, writesIn_written ?_⟩
  intro target _ below
  omega

theorem forward_writeAll (origin : ω) (bytes : List UInt8) :
    Preserves (Forward high)
      (Output.writeAll origin bytes : EStateM ε (Output ω) Unit) :=
  fun output => forward_written rfl output

theorem forward_writeZeros (origin : ω) (count : Nat) :
    Preserves (Forward high)
      (Output.writeZeros origin count : EStateM ε (Output ω) Unit) :=
  fun output => forward_written List.length_replicate output

theorem forward_streamPosition :
    Preserves (Forward high)
      (Output.streamPosition : EStateM ε (Output ω) Nat) :=
  fun output => RunRelation.refl output

theorem forward_get :
    Preserves (Forward high)
      (get : EStateM ε (Output ω) (Output ω)) :=
  fun output => RunRelation.refl output

/-- A run with a position of its own that stays in front of the bound. -/
theorem Forward.writesIn_writeAt {position : Nat} {output ended : Output ω}
    (forward : Forward high (output.seeked position) ended)
    (within : ended.position ≤ high) :
    WritesIn (fun target => target < high) output
      (ended.seeked output.position) := by
  have inside :
      WritesIn (fun target => target < high) output ended :=
    RunRelation.trans (writesIn_seeked position output)
      (forward.writes.mono fun target below => by omega)
  exact inside.seeked _

theorem Forward.of_writeAt {position : Nat} {output ended : Output ω}
    (forward : Forward high (output.seeked position) ended)
    (within : ended.position ≤ high) :
    Forward high output (ended.seeked output.position) :=
  ⟨Nat.le_refl _, (forward.writesIn_writeAt within).mono
    fun target below => by omega⟩

end Forward

/-- Where nothing was stored there are zeros. -/
theorem WritesIn.image_eq_zero {region : Nat → Prop} {output : Output ω}
    (writes : WritesIn region Output.empty output) {target : Nat}
    (outside : ¬ region target) : output.image target = 0 := by
  obtain ⟨added, logged, each⟩ := writes.logged
  rw [Output.image, logged]
  apply Store.applyAll_of_not_covers
  intro store member covered
  exact outside (each store member target covered)

/-- Where a run has not stored, the file is as it was. -/
theorem WritesIn.image_eq {region : Nat → Prop} {before after : Output ω}
    (writes : WritesIn region before after) {target : Nat}
    (outside : ¬ region target) :
    after.image target = before.image target := by
  obtain ⟨added, logged, each⟩ := writes.logged
  rw [Output.image, logged, Store.applyAll_append]
  apply Store.applyAll_of_not_covers
  intro store member covered
  exact outside (each store member target covered)

/-- Where the file has a zero, it still has one behind the run. -/
def KeepsZeros (before after : Output ω) : Prop :=
  ∀ target, before.image target = 0 → after.image target = 0

instance : RunRelation (KeepsZeros : Output ω → Output ω → Prop) where
  refl _ _ zero := zero
  trans begun ended target zero := ended target (begun target zero)

theorem keepsZeros_seeked (position : Nat) (output : Output ω) :
    KeepsZeros output (output.seeked position) :=
  fun _ zero => zero

theorem keepsZeros_writeZeros (origin : ω) (count : Nat) :
    Preserves KeepsZeros
      (Output.writeZeros origin count : EStateM ε (Output ω) Unit) := by
  intro output target zero
  change
    (output.written origin (List.replicate count 0) count).image target = 0
  by_cases none : count = 0
  · rwa [Output.written, if_pos none]
  · rw [Output.written, if_neg none, Output.image, Store.applyAll_append,
      Store.applyAll_singleton, Store.apply]
    simp only [List.getElem?_replicate]
    split
    · split
      · rfl
      · exact zero
    · exact zero

/-- A range of the file that begins with given bytes and has only zeros
behind them, as far as the file goes. -/
theorem Holds.bytesAt_zeros {output : Output ω} {start size : Nat}
    {bytes : List UInt8} (holds : Holds start bytes output)
    (short : bytes.length ≤ size)
    (zeros :
      ∀ target, start + bytes.length ≤ target → target < start + size →
        output.image target = 0) :
    ∃ count,
      bytesAt output.bytes start size =
        bytes ++ List.replicate count 0 := by
  have split :
      bytesAt output.bytes start size =
        bytesAt output.bytes start bytes.length ++
          bytesAt output.bytes (start + bytes.length)
            (size - bytes.length) := by
    unfold bytesAt
    rw [← List.drop_drop, ← List.take_add,
      Nat.add_sub_cancel' short]
  refine
    ⟨(bytesAt output.bytes (start + bytes.length)
      (size - bytes.length)).length, ?_⟩
  rw [split, holds.bytesAt_eq]
  congr 1
  rw [List.eq_replicate_iff]
  refine ⟨rfl, ?_⟩
  intro byte member
  obtain ⟨index, found⟩ := List.getElem?_of_mem member
  have within : index < size - bytes.length := by
    obtain ⟨inside, _⟩ := List.getElem?_eq_some_iff.mp found
    exact Nat.lt_of_lt_of_le inside (List.length_take_le _ _)
  rw [bytesAt_getElem? within, Output.bytes_getElem?] at found
  rw [← found.2]
  exact zeros _ (by omega) (by omega)

end RustKernel.Foundations
