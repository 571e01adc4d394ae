import RustKernel.Iso.ExtentFit

/-!
# The length bytes of a record

A record carries its length, and its `NM` entry carries its own, in one byte
each.  `get_entry_size` accepts names up to 251 bytes, with which a record is
longer than a byte can say.
-/

namespace RustKernel.Iso

open RustKernel.Foundations
open RustKernel.Machine

/-- The length bytes of a record and of its `NM` entry are the lengths. -/
structure LengthsRight (hasNm : Prop) (fileName : Name)
    (record : List UInt8) : Prop where
  whole : (record.headD 0).toNat = record.length
  name :
    hasNm →
      ∃ front length,
        record =
            front ++ (utf8 "NM" ++ [length, 0x1, 0x0] ++ fileName) ∧
          length.toNat = 5 + fileName.length

/-- A writer of a record whose length bytes are right in every run that
returns.  The sum for its `NM` entry does not overflow. -/
structure WritesLengths (hasNm : Prop) (fileName : Name)
    (recordOf : DateTime → Except Fault (List UInt8))
    (write : Clock → Origin → Writer Unit) : Prop where
  lengths :
    ∀ clock origin output final,
      (write clock origin).run output = .ok () final →
        ∃ now record,
          recordOf now = .ok record ∧
            Emits origin (layOut logicSize output.position [record]) output
              final ∧
            LengthsRight hasNm fileName record
  summed : hasNm → ∃ nm, rockRidgeNm fileName = .ok nm

/-- The records of every directory of a name. -/
def DirectoryLengthsRight (fileName : Name) : Prop :=
  ∀ directoryType entry,
    directoryType ≠ 4 → entry.getFileName = .ok fileName →
      WritesLengths (directoryType = 0) fileName
        (directoryRecord entry directoryType) fun clock origin =>
          writeDirectoryEntry clock origin directoryType entry

/-- The records of every file of a name. -/
def FileLengthsRight (fileName : Name) : Prop :=
  ∀ file : FileEntry,
    file.getFileName = .ok fileName →
      WritesLengths True fileName (fileRecord file) fun clock origin =>
        writeFileEntry clock origin file

/-- The bytes of an identifier and of the padding behind it. -/
def identifierRoom (length : Nat) : Nat := length + (1 - length % 2)

/-! ## Records that are short enough -/

theorem headD_of_built {source : RecordSource} {record : List UInt8}
    (built : source.Built record) (short : record.length < 256) :
    (record.headD 0).toNat = record.length := by
  have head := built.head
  cases record with
  | nil => cases head
  | cons byte rest =>
      have value := congrArg UInt8.toNat (Option.some.inj head)
      rw [UInt8.toNat_ofNat'] at value
      rw [List.headD_cons]
      omega

theorem nm_of_directoryRecord {entry : DirectoryEntry} {now : DateTime}
    {fileName : Name} {record : List UInt8}
    (named : entry.getFileName = .ok fileName)
    (built : directoryRecord entry 0 now = .ok record) :
    ∃ front nm, record = front ++ nm ∧ rockRidgeNm fileName = .ok nm := by
  obtain ⟨size, same, fixed, extentSize, systemUse, _, namedAgain, _, _, _,
    used, rfl⟩ := directoryRecord_eq_ok built
  rw [named] at namedAgain
  cases namedAgain
  rw [directorySystemUse, except_bind_eq_ok] at used
  obtain ⟨susp, _, used⟩ := used
  rw [except_bind_eq_ok] at used
  obtain ⟨px, _, used⟩ := used
  rw [except_bind_eq_ok] at used
  obtain ⟨nm, entered, closed⟩ := used
  cases closed
  rw [recordNm, if_pos rfl] at entered
  rw [← List.append_assoc]
  exact ⟨_, nm, rfl, entered⟩

theorem nm_of_fileRecord {file : FileEntry} {now : DateTime}
    {fileName : Name} {record : List UInt8}
    (named : file.getFileName = .ok fileName)
    (built : fileRecord file now = .ok record) :
    ∃ front nm, record = front ++ nm ∧ rockRidgeNm fileName = .ok nm := by
  obtain ⟨_, _, _, nm, _, namedAgain, _, entered, rfl⟩ :=
    fileRecord_eq_ok built
  rw [named] at namedAgain
  cases namedAgain
  exact ⟨_, nm, rfl, entered⟩

theorem nm_length {fileName nm front record : List UInt8}
    (short : fileName.length ≤ 250) (split : record = front ++ nm)
    (entered : rockRidgeNm fileName = .ok nm) :
    ∃ front length,
      record = front ++ (utf8 "NM" ++ [length, 0x1, 0x0] ++ fileName) ∧
        length.toNat = 5 + fileName.length := by
  obtain ⟨_, rfl⟩ := rockRidgeNm_eq_ok.mp entered
  refine ⟨front, _, split, ?_⟩
  rw [UInt8.toNat_ofNat']
  omega

/-- A source whose size is the size of a byte, and whose name fits its `NM`
entry. -/
theorem writesLengths_of_short (source : RecordSource) {hasNm : Prop}
    {fileName : Name} (used : source.Used)
    (short : ∀ size, source.size = .ok size → size < 256)
    (nameShort : hasNm → fileName.length ≤ 250)
    (entered :
      hasNm → ∀ now record, source.record now = .ok record →
        ∃ front nm, record = front ++ nm ∧ rockRidgeNm fileName = .ok nm) :
    WritesLengths hasNm fileName (fun now => source.record now)
      fun clock origin => writeSource clock origin source where
  lengths := by
    intro clock origin output final returned
    obtain ⟨record, built, emitted, _⟩ := writeSource_run_ok used returned
    have whole := headD_of_built built (short _ built.1)
    obtain ⟨_, now, recorded⟩ := built
    refine ⟨now, record, recorded, emitted, whole, ?_⟩
    intro present
    obtain ⟨front, nm, split, own⟩ := entered present now record recorded
    exact nm_length (nameShort present) split own
  summed := by
    intro present
    have small := nameShort present
    exact ⟨_, rockRidgeNm_eq_ok.mpr ⟨by omega, rfl⟩⟩

theorem directorySize_le {entry : DirectoryEntry} {fileName fixed : Name}
    {directoryType size : Nat}
    (named : entry.getFileName = .ok fileName)
    (converted : convertName fileName = .ok fixed)
    (sized : entry.getEntrySize (some directoryType) = .ok size) :
    (directoryType = 0 →
        size = 82 + identifierRoom fixed.length + fileName.length) ∧
      (directoryType ≠ 0 → size < 256) := by
  have own := directorySize_eq sized named converted
  rw [entrySize_odd] at own
  constructor
  · intro child
    subst child
    simp only [measuredIdentifier, identifierRoom] at own ⊢
    simp at own
    omega
  · intro other
    have measured : (measuredIdentifier directoryType fixed).length ≤ 12 := by
      have length := convertName_length converted
      unfold measuredIdentifier
      split <;> simp
      omega
    rw [if_neg other] at own
    split at own <;> split at own <;> omega

theorem fileSize_room (file : FileEntry) {fileName fixed : Name} {size : Nat}
    (named : file.getFileName = .ok fileName)
    (converted : convertName fileName = .ok fixed)
    (sized : file.getEntrySize = .ok size) :
    size = 84 + identifierRoom fixed.length + fileName.length := by
  have own := fileSize_eq sized named converted
  rw [entrySize_odd] at own
  simp only [identifierRoom] at own ⊢
  simp at own
  omega

/-! ## Records of a name alone -/

section Leaf

variable {fileName fixed : Name}

theorem named_getFileName (fileName : Name) :
    (DirectoryEntry.named fileName [] []).getFileName = .ok fileName := rfl

theorem named_size (accepted : fileName.length ≤ 251)
    (converted : convertName fileName = .ok fixed) (directoryType : Nat) :
    (DirectoryEntry.named fileName [] []).getEntrySize (some directoryType) =
      .ok (entrySize 0x21 fileName.length
        (measuredIdentifier directoryType fixed).length directoryType 1) :=
  getEntrySize_eq_ok.mpr ⟨accepted, fixed, converted, rfl⟩

theorem named_extent (accepted : fileName.length ≤ 251)
    (converted : convertName fileName = .ok fixed) :
    (DirectoryEntry.named fileName [] []).getExtentSizeInLb = .ok 1 := by
  rw [DirectoryEntry.getExtentSizeInLb, named_size accepted converted,
    named_size accepted converted]
  rfl

/-- A directory without children can be written when the sum for its `NM`
entry does not overflow. -/
theorem named_record (accepted : fileName.length ≤ 251)
    (converted : convertName fileName = .ok fixed) {nm : List UInt8}
    (entered : rockRidgeNm fileName = .ok nm) (now : DateTime) :
    ∃ record,
      directoryRecord (.named fileName [] []) 0 now = .ok record := by
  have systemUse :
      directorySystemUse (.named fileName [] []) 0 1 fileName =
        .ok ([] ++ rockRidgePx 0o040755 0 ++ nm) := by
    rw [directorySystemUse, recordNm, if_pos rfl, entered]
    rfl
  have multiplied : mulU32 1 logicSize = .ok 2048 := rfl
  rw [directoryRecord, named_size accepted converted, named_getFileName]
  refine ⟨_, except_bind_eq_ok.mpr ⟨_, rfl, except_bind_eq_ok.mpr ⟨_, rfl,
    except_bind_eq_ok.mpr ⟨_, converted, except_bind_eq_ok.mpr
      ⟨_, named_extent accepted converted, except_bind_eq_ok.mpr
        ⟨_, multiplied, except_bind_eq_ok.mpr ⟨_, systemUse, rfl⟩⟩⟩⟩⟩⟩⟩

/-- A source that is written at the start of an output with its lengths right
has a size that a byte can say. -/
theorem size_lt_of_writesLengths (source : RecordSource) {hasNm : Prop}
    {size : Nat} (used : source.Used) (present : source.missing = 0)
    (sized : source.size = .ok size)
    (built : ∀ now, ∃ record, source.record now = .ok record)
    (right :
      WritesLengths hasNm fileName (fun now => source.record now)
        fun clock origin => writeSource clock origin source) :
    size < 256 := by
  have bounds := source.size_bounds sized
  have below :
      advance logicSize (Output.empty : Output Origin).position size + 4096 <
        2 ^ 31 := by
    have start : (Output.empty : Output Origin).position = 0 := rfl
    rw [start, advance, gap]
    split
    · simp [restOf] at *
    · omega
  have run :
      ∃ final,
        (writeSource (fun _ => ⟨1970, 1, 1, 0, 0, 0⟩) .trailer source).run
            Output.empty = .ok () final ∧
          final.position = advance logicSize 0 size :=
    writeSource_returns used present sized built below
  obtain ⟨final, returned, _⟩ := run
  obtain ⟨now, record, recorded, _, lengths⟩ :=
    right.lengths _ _ _ _ returned
  have length := source.record_length used sized recorded
  have byte := (record.headD 0).toNat_lt
  rw [lengths.whole] at byte
  omega

theorem directoryLengthsRight_iff (accepted : fileName.length ≤ 251)
    (converted : convertName fileName = .ok fixed) :
    DirectoryLengthsRight fileName ↔
      fileName.length + identifierRoom fixed.length ≤ 173 := by
  constructor
  · intro right
    have own :=
      right 0 (.named fileName [] []) (by decide) (named_getFileName fileName)
    obtain ⟨nm, entered⟩ := own.summed rfl
    have sized := named_size accepted converted 0
    have small :=
      size_lt_of_writesLengths (.directory 0 (.named fileName [] []))
        (Nat.zero_ne_add_one 3) rfl sized
        (named_record accepted converted entered) own
    have size :=
      (directorySize_le (named_getFileName fileName) converted sized).1 rfl
    omega
  · intro short directoryType entry used named
    have bounded :
        ∀ size, entry.getEntrySize (some directoryType) = .ok size →
          size < 256 := by
      intro size sized
      obtain ⟨child, other⟩ := directorySize_le named converted sized
      by_cases zero : directoryType = 0
      · have size := child zero
        omega
      · exact other zero
    refine
      writesLengths_of_short (.directory directoryType entry) used
        bounded (fun _ => by omega) ?_
    intro zero now record recorded
    subst zero
    exact nm_of_directoryRecord named recorded

theorem fileLengthsRight_iff (accepted : fileName.length ≤ 251)
    (converted : convertName fileName = .ok fixed) :
    FileLengthsRight fileName ↔
      fileName.length + identifierRoom fixed.length ≤ 171 := by
  constructor
  · intro right
    have own := right (.newBuffered fileName) rfl
    obtain ⟨nm, entered⟩ := own.summed trivial
    have sized :
        (FileEntry.newBuffered fileName).getEntrySize =
          .ok (entrySize 0x23 fileName.length fixed.length 0 1) :=
      getEntrySize_eq_ok.mpr ⟨accepted, fixed, converted, rfl⟩
    have built :
        ∀ now, ∃ record,
          fileRecord (.newBuffered fileName) now = .ok record := by
      intro now
      rw [fileRecord, sized]
      exact ⟨_, except_bind_eq_ok.mpr ⟨_, rfl, except_bind_eq_ok.mpr
        ⟨fileName, rfl, except_bind_eq_ok.mpr ⟨_, converted,
          except_bind_eq_ok.mpr ⟨_, entered, rfl⟩⟩⟩⟩⟩
    have small :=
      size_lt_of_writesLengths (.file (.newBuffered fileName))
        trivial rfl sized built own
    have size := fileSize_room (.newBuffered fileName) rfl converted
      sized
    omega
  · intro short file named
    have bounded : ∀ size, file.getEntrySize = .ok size → size < 256 := by
      intro size sized
      have room := fileSize_room file named converted sized
      omega
    refine
      writesLengths_of_short (.file file) trivial bounded
        (fun _ => by omega) ?_
    intro _ now record recorded
    exact nm_of_fileRecord named recorded

/-- Which names the length bytes suffice for. -/
theorem recordLengths_right_iff (accepted : fileName.length ≤ 251)
    (converted : convertName fileName = .ok fixed) :
    (DirectoryLengthsRight fileName ↔
        fileName.length + identifierRoom fixed.length ≤ 173) ∧
      (FileLengthsRight fileName ↔
        fileName.length + identifierRoom fixed.length ≤ 171) :=
  ⟨directoryLengthsRight_iff accepted converted,
    fileLengthsRight_iff accepted converted⟩

end Leaf

theorem recordLengths_right_readme :
    DirectoryLengthsRight (utf8 "README.TXT") ∧
      FileLengthsRight (utf8 "README.TXT") := by
  obtain ⟨fixed, converted⟩ :=
    except_eq_ok_of_isOk
      (by with_unfolding_all decide :
        (convertName (utf8 "README.TXT")).isOk = true)
  have short : (utf8 "README.TXT").length = 10 := by with_unfolding_all decide
  have fixedShort := convertName_length converted
  obtain ⟨directories, files⟩ :=
    recordLengths_right_iff (by omega) converted
  exact ⟨directories.mpr (by unfold identifierRoom; omega),
    files.mpr (by unfold identifierRoom; omega)⟩

/-- A name of 165 bytes makes a record of 256 and one of 258. -/
theorem longName_lengths_wrong :
    (longName 165).length ≤ 251 ∧
      convertName (longName 165) = .ok (List.replicate 8 0x61) ∧
      ¬ DirectoryLengthsRight (longName 165) ∧
      ¬ FileLengthsRight (longName 165) := by
  have accepted : (longName 165).length ≤ 251 := by decide +kernel
  have converted : convertName (longName 165) = .ok (List.replicate 8 0x61) := by
    decide +kernel
  refine ⟨accepted, converted, ?_, ?_⟩
  · rw [directoryLengthsRight_iff accepted converted]
    decide +kernel
  · rw [fileLengthsRight_iff accepted converted]
    decide +kernel

end RustKernel.Iso
