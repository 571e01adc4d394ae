import RustKernel.Iso.ExtentDecode

/-!
# The predicted size of a record

`get_entry_size` and the two `write_entry` go through the fields of a record
on their own, and the assertion behind the write compares the two.
-/

namespace RustKernel.Iso

open RustKernel.Foundations
open RustKernel.Machine

namespace RecordSource

def fileName : RecordSource → Except Fault Name
  | .directory _ entry => entry.getFileName
  | .file child => child.getFileName

/-- The records that `create_iso` writes: those of files, of children, of `.`
and `..`, of the volume descriptor, and of `.` of a root with a continuation
area. -/
def InUse : RecordSource → Prop
  | .directory directoryType entry =>
      directoryType ∈ [0, 1, 2, 5] ∨
        directoryType = 3 ∧ entry.continuationArea.isSome = true
  | .file _ => True

/-- The sums that go into the fields of a record are `u32`. -/
def FieldsFit : RecordSource → Prop
  | .directory _ entry => Measured entry
  | .file _ => True

theorem InUse.used {source : RecordSource} (inUse : source.InUse) :
    source.Used := by
  cases source with
  | directory directoryType entry =>
      rcases inUse with listed | ⟨root, _⟩
      · intro four
        rw [four] at listed
        exact absurd listed (by decide)
      · intro four
        rw [four] at root
        cases root
  | file child => trivial

theorem InUse.whole {source : RecordSource} (inUse : source.InUse) :
    source.missing = 0 := by
  cases source with
  | directory directoryType entry =>
      rw [missing, if_neg]
      rintro ⟨root, absent⟩
      rcases inUse with listed | ⟨_, present⟩
      · rw [root] at listed
        exact absurd listed (by decide)
      · rw [present] at absent
        cases absent
  | file child => rfl

theorem exists_size {source : RecordSource} {name fixed : Name}
    (named : source.fileName = .ok name) (short : name.length ≤ 250)
    (converted : convertName name = .ok fixed) :
    ∃ size, source.size = .ok size := by
  cases source with
  | directory directoryType entry =>
      exact exists_directorySize named (by omega) converted directoryType
  | file child =>
      exact ⟨_, except_bind_eq_ok.mpr ⟨name, named,
        getEntrySize_eq_ok.mpr ⟨by omega, fixed, converted, rfl⟩⟩⟩

theorem exists_record {source : RecordSource} {name : Name} {size : Nat}
    (named : source.fileName = .ok name) (short : name.length ≤ 250)
    (sized : source.size = .ok size) (fit : source.FieldsFit)
    (now : DateTime) : ∃ bytes, source.record now = .ok bytes := by
  cases source with
  | directory directoryType entry =>
      exact Measured.exists_record_of_named fit sized named
        (fun _ => short) now
  | file child => exact exists_fileRecord_of_named sized named short now

end RecordSource

/-- A call of `write_entry` emits as many bytes behind the padding as
predicted.  When it stops, it does so over a field of the record, and not at
the assertion; and it does not stop when the fields fit. -/
structure WritesPredicted (clock : Clock) (origin : Origin)
    (source : RecordSource) (output : Output Origin) (size : Nat) : Prop where
  sized : source.size = .ok size
  emitted :
    ∀ final, (writeSource clock origin source).run output = .ok () final →
      ∃ bytes,
        bytes.length = size ∧
          Emits origin
            (List.replicate (gap logicSize output.position size) 0 ++ bytes)
            output final
  stopped :
    ∀ fault final,
      (writeSource clock origin source).run output = .error fault final →
        ∃ now, source.record now = .error fault
  returns :
    source.FieldsFit →
      ∃ final, (writeSource clock origin source).run output = .ok () final

/-- The prediction is right for every record in use, at all positions that a
cast to `i32` keeps. -/
theorem writeSource_predicted {source : RecordSource} {name fixed : Name}
    (inUse : source.InUse) (named : source.fileName = .ok name)
    (short : name.length ≤ 250) (converted : convertName name = .ok fixed)
    (clock : Clock) (origin : Origin) {output : Output Origin}
    (below : output.position < 2 ^ 31 - 4096) :
    ∃ size, WritesPredicted clock origin source output size := by
  obtain ⟨size, sized⟩ := RecordSource.exists_size named short converted
  have run :=
    writeSource_run clock origin inUse.used inUse.whole sized
      (by omega : output.position + 4096 < 2 ^ 31)
  refine ⟨size, sized, ?_, ?_, ?_⟩
  · intro final returned
    rw [run] at returned
    split at returned
    · cases returned
    · next bytes recorded =>
        cases returned
        have length := source.record_length inUse.used sized recorded
        rw [inUse.whole, Nat.add_zero] at length
        exact ⟨bytes, length,
          (padded_emits origin size output).append (emits_written rfl _)⟩
  · intro fault final failed
    rw [run] at failed
    split at failed
    · next other recorded =>
        cases failed
        exact ⟨_, recorded⟩
    · cases failed
  · intro fit
    obtain ⟨bytes, recorded⟩ :=
      RecordSource.exists_record named short sized fit
        (clock (padded origin size output).stores.length)
    rw [recorded] at run
    exact ⟨_, run⟩

/-- A file with a name of 250 bytes, of which the record has 343. -/
theorem writeSource_predicted_longName :
    WritesPredicted fixedClock (.extent []) (.file (emptyFile (longName 250)))
        (Output.empty.seeked 47000) 343 ∧
      ∃ final,
        (writeFileEntry fixedClock (.extent []) (emptyFile (longName 250))).run
          (Output.empty.seeked 47000) = .ok () final := by
  have converted :
      convertName (longName 250) = .ok (List.replicate 8 0x61) := by
    decide +kernel
  have length : (longName 250).length = 250 := List.length_replicate
  have below :
      (Output.empty.seeked 47000 : Output Origin).position <
        2 ^ 31 - 4096 := by
    decide
  have named :
      (RecordSource.file (emptyFile (longName 250))).fileName =
        .ok (longName 250) :=
    rfl
  have inUse : (RecordSource.file (emptyFile (longName 250))).InUse := trivial
  obtain ⟨size, predicted⟩ :=
    writeSource_predicted inUse named (Nat.le_of_eq length) converted
      fixedClock (.extent []) below
  have whole :=
    fileSize_eq predicted.sized
      (rfl : (emptyFile (longName 250)).getFileName = .ok (longName 250))
      converted
  rw [length] at whole
  have known : size = 343 := whole
  subst known
  exact ⟨predicted, predicted.returns trivial⟩

end RustKernel.Iso
