import RustKernel.Foundations.NextFit
import RustKernel.Iso.Writers

/-!
# Records of directories and files

The two `write_entry` share one frame, and what they write is as long as
`get_entry_size` says.  A record is read back by the fields that a reader of
ISO 9660 and Rock Ridge looks at.
-/

namespace RustKernel.Iso

open RustKernel.Foundations
open RustKernel.Machine

/-- What a record is made from. -/
inductive RecordSource where
  | directory (directoryType : Nat) (entry : DirectoryEntry)
  | file (file : FileEntry)

namespace RecordSource

def size : RecordSource → Except Fault Nat
  | .directory directoryType entry => entry.getEntrySize (some directoryType)
  | .file child => child.getEntrySize

def record (now : DateTime) : RecordSource → Except Fault (List UInt8)
  | .directory directoryType entry => directoryRecord entry directoryType now
  | .file child => fileRecord child now

/-- The type 4 is not in use: its two identifiers differ. -/
def Used : RecordSource → Prop
  | .directory directoryType _ => directoryType ≠ 4
  | .file _ => True

/-- The size of the root counts the entry of a continuation area, whether
there is one or not. -/
def missing : RecordSource → Nat
  | .directory directoryType entry =>
      if directoryType = 3 ∧ entry.continuationArea.isSome = false then
        28
      else
        0
  | .file _ => 0

end RecordSource

/-! ## Lengths -/

theorem utf8_px : utf8 "PX" = [0x50, 0x58] := by with_unfolding_all decide

theorem utf8_nm : utf8 "NM" = [0x4E, 0x4D] := by with_unfolding_all decide

theorem utf8_sp : utf8 "SP" = [0x53, 0x50] := by with_unfolding_all decide

theorem utf8_ce : utf8 "CE" = [0x43, 0x45] := by with_unfolding_all decide

theorem version_length : (utf8 ";1").length = 2 := by with_unfolding_all decide

@[simp]
theorem recordHeader_length (fileEntrySize lba extentSize : Nat)
    (now : DateTime) (flags : UInt8) (fileIdentifier : List UInt8) :
    (recordHeader fileEntrySize lba extentSize now flags
        fileIdentifier).length =
      33 + fileIdentifier.length + (1 - fileIdentifier.length % 2) := by
  simp [recordHeader, recordDate]
  omega

@[simp]
theorem rockRidgePx_length (fileMode serialNumber : Nat) :
    (rockRidgePx fileMode serialNumber).length = 44 := by
  simp [rockRidgePx, utf8_px]

theorem rockRidgeNm_eq_ok {fileName nm : List UInt8} :
    rockRidgeNm fileName = .ok nm ↔
      5 + fileName.length % 256 < 256 ∧
        nm =
          utf8 "NM" ++
            [UInt8.ofNat (5 + fileName.length % 256), 0x1, 0x0] ++
            fileName := by
  by_cases fits : 5 + fileName.length % 256 < 256
  · rw [rockRidgeNm, if_pos fits, Except.ok.injEq, eq_comm]
    exact ⟨fun same => ⟨fits, same⟩, fun both => both.2⟩
  · rw [rockRidgeNm, if_neg fits]
    constructor
    · intro absent
      cases absent
    · intro both
      exact absurd both.1 fits

theorem rockRidgeNm_length {fileName nm : List UInt8}
    (built : rockRidgeNm fileName = .ok nm) :
    nm.length = 5 + fileName.length := by
  obtain ⟨_, rfl⟩ := rockRidgeNm_eq_ok.mp built
  simp [utf8_nm]
  omega

theorem suspEntries_length {entry : DirectoryEntry} {extentSize : Nat}
    {susp : List UInt8}
    (built : suspEntries entry extentSize = .ok susp) :
    susp.length = 7 + (if entry.continuationArea.isSome then 28 else 0) := by
  unfold suspEntries at built
  cases given : entry.continuationArea with
  | none =>
      rw [given] at built
      cases built
      simp [utf8_sp]
  | some area =>
      rw [given] at built
      simp only at built
      rw [except_bind_eq_ok] at built
      obtain ⟨block, _, built⟩ := built
      cases built
      simp [utf8_sp, utf8_ce]

theorem directorySystemUse_length {entry : DirectoryEntry}
    {directoryType extentSize : Nat} {fileName : Name}
    {systemUse : List UInt8}
    (built :
      directorySystemUse entry directoryType extentSize fileName =
        .ok systemUse) :
    systemUse.length =
      (if directoryType = 3 then
        7 + (if entry.continuationArea.isSome then 28 else 0)
      else
        0) +
      (if directoryType < 5 then 44 else 0) +
      (if directoryType = 0 then 5 + fileName.length else 0) := by
  rw [directorySystemUse, except_bind_eq_ok] at built
  obtain ⟨susp, first, built⟩ := built
  rw [except_bind_eq_ok] at built
  obtain ⟨px, second, built⟩ := built
  rw [except_bind_eq_ok] at built
  obtain ⟨nm, third, built⟩ := built
  cases built
  rw [List.length_append, List.length_append]
  congr 1
  · congr 1
    · unfold recordSusp at first
      by_cases root : directoryType = 3
      · rw [if_pos root] at first ⊢
        exact suspEntries_length first
      · rw [if_neg root] at first ⊢
        cases first
        rfl
    · unfold recordPx at second
      by_cases present : directoryType < 5
      · rw [if_pos present] at second ⊢
        rw [map_eq_pure_bind, except_bind_eq_ok] at second
        obtain ⟨serialNumber, _, closed⟩ := second
        cases closed
        exact rockRidgePx_length _ _
      · rw [if_neg present] at second ⊢
        cases second
        rfl
  · unfold recordNm at third
    by_cases child : directoryType = 0
    · rw [if_pos child] at third ⊢
      exact rockRidgeNm_length third
    · rw [if_neg child] at third ⊢
      cases third
      rfl

theorem recordIdentifier_eq {directoryType : Nat} (used : directoryType ≠ 4)
    (fixed : Name) :
    recordIdentifier directoryType fixed =
      measuredIdentifier directoryType fixed := by
  rcases directoryType with _ | _ | _ | _ | _ | _ | _
  · rfl
  · rfl
  · rfl
  · rfl
  · exact absurd rfl used
  · rfl
  · rfl

theorem directoryRecord_eq_ok {entry : DirectoryEntry} {directoryType : Nat}
    {now : DateTime} {record : List UInt8}
    (built : directoryRecord entry directoryType now = .ok record) :
    ∃ size fileName fixed extentSize systemUse,
      entry.getEntrySize (some directoryType) = .ok size ∧
        entry.getFileName = .ok fileName ∧
        convertName fileName = .ok fixed ∧
        entry.getExtentSizeInLb = .ok extentSize ∧
        extentSize * logicSize < 2 ^ 32 ∧
        directorySystemUse entry directoryType extentSize fileName =
          .ok systemUse ∧
        record =
          recordHeader size entry.lba (extentSize * logicSize) now 0x2
              (recordIdentifier directoryType fixed) ++ systemUse := by
  rw [directoryRecord, except_bind_eq_ok] at built
  obtain ⟨size, sized, built⟩ := built
  rw [except_bind_eq_ok] at built
  obtain ⟨fileName, named, built⟩ := built
  rw [except_bind_eq_ok] at built
  obtain ⟨fixed, converted, built⟩ := built
  rw [except_bind_eq_ok] at built
  obtain ⟨extentSize, measured, built⟩ := built
  rw [except_bind_eq_ok] at built
  obtain ⟨extentBytes, multiplied, built⟩ := built
  rw [mulU32_eq_ok] at multiplied
  obtain ⟨fits, rfl⟩ := multiplied
  rw [except_bind_eq_ok] at built
  obtain ⟨systemUse, used, built⟩ := built
  cases built
  exact ⟨size, fileName, fixed, extentSize, systemUse, sized, named, converted,
    measured, fits, used, rfl⟩

theorem fileRecord_eq_ok {file : FileEntry} {now : DateTime}
    {record : List UInt8} (built : fileRecord file now = .ok record) :
    ∃ size fileName fixed nm,
      file.getEntrySize = .ok size ∧
        file.getFileName = .ok fileName ∧
        convertName fileName = .ok fixed ∧
        rockRidgeNm fileName = .ok nm ∧
        record =
          recordHeader size file.lba file.size now 0x0 (fixed ++ utf8 ";1") ++
            rockRidgePx 0o100644 file.lba ++ nm := by
  rw [fileRecord, except_bind_eq_ok] at built
  obtain ⟨size, sized, built⟩ := built
  rw [except_bind_eq_ok] at built
  obtain ⟨fileName, named, built⟩ := built
  rw [except_bind_eq_ok] at built
  obtain ⟨fixed, converted, built⟩ := built
  rw [except_bind_eq_ok] at built
  obtain ⟨nm, entered, built⟩ := built
  cases built
  exact ⟨size, fileName, fixed, nm, sized, named, converted, entered, rfl⟩

theorem entrySize_odd (baseSize fileNameLen length directoryType : Nat) :
    entrySize baseSize fileNameLen length directoryType 1 =
      baseSize + (length + (1 - length % 2)) +
        ((if directoryType < 5 then 44 else 0) +
          (if directoryType = 0 then 5 + fileNameLen else 0) +
          (if directoryType = 3 then 35 else 0)) := by
  have padded :
      (if length % 2 ≠ 1 then length + 1 else length) =
        length + (1 - length % 2) := by
    split <;> omega
  rw [entrySize, padded]

theorem directorySize_eq {entry : DirectoryEntry} {directoryType size : Nat}
    {fileName fixed : Name}
    (sized : entry.getEntrySize (some directoryType) = .ok size)
    (named : entry.getFileName = .ok fileName)
    (converted : convertName fileName = .ok fixed) :
    size =
      entrySize 0x21 fileName.length
        (measuredIdentifier directoryType fixed).length directoryType 1 := by
  rw [DirectoryEntry.getEntrySize, named] at sized
  obtain ⟨_, same, convertedAgain, rfl⟩ := getEntrySize_eq_ok.mp sized
  rw [converted] at convertedAgain
  cases convertedAgain
  rfl

theorem fileSize_eq {file : FileEntry} {size : Nat} {fileName fixed : Name}
    (sized : file.getEntrySize = .ok size)
    (named : file.getFileName = .ok fileName)
    (converted : convertName fileName = .ok fixed) :
    size = entrySize 0x23 fileName.length fixed.length 0 1 := by
  rw [FileEntry.getEntrySize, named] at sized
  obtain ⟨_, same, convertedAgain, rfl⟩ := getEntrySize_eq_ok.mp sized
  rw [converted] at convertedAgain
  cases convertedAgain
  rfl

namespace RecordSource

/-- A record is as long as its size says, apart from an entry that is
missing. -/
theorem record_length {source : RecordSource} {now : DateTime}
    {size : Nat} {bytes : List UInt8} (used : source.Used)
    (sized : source.size = .ok size)
    (built : source.record now = .ok bytes) :
    bytes.length + source.missing = size := by
  cases source with
  | directory directoryType entry =>
      obtain
        ⟨_, fileName, fixed, extentSize, systemUse, _, named, converted, _,
          _, behind, rfl⟩ :=
          directoryRecord_eq_ok built
      rw [directorySize_eq sized named converted, List.length_append,
        recordHeader_length, directorySystemUse_length behind,
        recordIdentifier_eq used, missing, entrySize_odd]
      by_cases root : directoryType = 3
      · cases area : entry.continuationArea.isSome <;> simp [root] <;> omega
      · simp only [root, false_and, if_false]
        omega
  | file child =>
      obtain ⟨_, fileName, fixed, nm, _, named, converted, entered, rfl⟩ :=
        fileRecord_eq_ok built
      rw [fileSize_eq sized named converted, List.length_append,
        List.length_append, recordHeader_length, rockRidgePx_length,
        rockRidgeNm_length entered, List.length_append, version_length, missing,
        entrySize_odd]
      simp only [Nat.add_mod_right, if_true, Nat.zero_lt_succ,
        OfNat.zero_ne_ofNat, if_false]
      omega

theorem size_bounds {source : RecordSource} {size : Nat}
    (sized : source.size = .ok size) : 33 < size ∧ size ≤ 400 := by
  cases source with
  | directory directoryType entry =>
      rw [RecordSource.size, DirectoryEntry.getEntrySize, except_bind_eq_ok]
        at sized
      obtain ⟨fileName, named, sized⟩ := sized
      obtain ⟨short, fixed, converted, rfl⟩ := getEntrySize_eq_ok.mp sized
      have measured :
          (measuredIdentifier directoryType fixed).length ≤ 12 := by
        unfold measuredIdentifier
        have length := convertName_length converted
        split <;> simp
        omega
      rw [entrySize_odd, Option.getD_some]
      split <;> split <;> split <;> omega
  | file child =>
      rw [RecordSource.size, FileEntry.getEntrySize, except_bind_eq_ok]
        at sized
      obtain ⟨fileName, named, sized⟩ := sized
      obtain ⟨short, fixed, converted, rfl⟩ := getEntrySize_eq_ok.mp sized
      have measured : (measuredIdentifier 0 fixed).length ≤ 12 :=
        convertName_length converted
      rw [entrySize_odd]
      split <;> split <;> split <;> omega

end RecordSource

/-! ## Runs -/

theorem restOf_eq (position : Nat) :
    restOf logicSize position = room position := rfl

theorem asI32_of_lt {value : Nat} (small : value < 2 ^ 31) :
    asI32 value = value := by
  unfold asI32
  omega

/-- `writeRecord` with the source of its record. -/
def writeSource (clock : Clock) (origin : Origin) (source : RecordSource) :
    Writer Unit :=
  writeRecord clock origin source.size fun now => source.record now

/-- The record that a run has written for a source. -/
def RecordSource.Built (source : RecordSource) (bytes : List UInt8) : Prop :=
  source.size = .ok bytes.length ∧
    ∃ now, source.record now = .ok bytes

theorem paddingOf_eq {position size : Nat} {aligned : Int}
    (computed : alignUp (asI32 position) logicSize = .ok aligned) :
    (if aligned - asI32 position < (size : Int) ∧
        aligned - asI32 position ≠ 0 then
      (aligned - asI32 position).toNat
    else
      0) = gap logicSize position size := by
  rw [alignUp_sub computed, gap, restOf_eq]
  by_cases needed : room position < size ∧ room position ≠ 0
  · rw [if_pos needed, if_pos (by omega), Int.toNat_natCast]
  · rw [if_neg needed, if_neg (by omega)]

theorem addI32_eq_ok {left right total : Int} :
    addI32 left right = .ok total ↔
      left + right < 2 ^ 31 ∧ total = left + right := by
  by_cases fits : left + right < 2 ^ 31
  · rw [addI32, if_pos fits, Except.ok.injEq, eq_comm]
    exact ⟨fun same => ⟨fits, same⟩, fun both => both.2⟩
  · rw [addI32, if_neg fits]
    constructor
    · intro absent
      cases absent
    · intro both
      exact absurd both.1 fits

theorem assertRecordSize_run_ok {expected newPos : Int}
    {output final : Output Origin} {result : Unit} :
    (assertRecordSize expected newPos).run output = .ok result final ↔
      expected = newPos ∧ output = final := by
  by_cases same : expected = newPos
  · rw [assertRecordSize, if_pos same, pure_run_ok]
    simp [same]
  · rw [assertRecordSize, if_neg same]
    constructor
    · intro absent
      cases absent
    · intro both
      exact absurd both.1 same

/-- The assertion compares casts to `i32`, which is enough for lengths that
differ by less than their modulus. -/
theorem length_of_asserted {position length size : Nat} {expected : Int}
    (short : size ≤ 400) (within : length ≤ size)
    (summed : addI32 (asI32 position) size = .ok expected)
    (asserted : expected = asI32 (position + length)) :
    length = size := by
  rw [addI32_eq_ok] at summed
  obtain ⟨_, rfl⟩ := summed
  unfold asI32 at asserted
  split at asserted <;> split at asserted <;> omega

/-- A run of `write_entry` that returns: it has padded, and written a record
of the size that it was to have. -/
theorem writeSource_run_ok {clock : Clock} {origin : Origin}
    {source : RecordSource} {output final : Output Origin} {result : Unit}
    (used : source.Used)
    (returned :
      (writeSource clock origin source).run output = .ok result final) :
    ∃ bytes,
      source.Built bytes ∧
        Emits origin (layOut logicSize output.position [bytes]) output
          final ∧
        Logs (fun store => store.origin = origin) output final := by
  rw [writeSource, writeRecord,
    bind_run_of_ok _ (Output.streamPosition_run output), bind_run_ok]
    at returned
  obtain ⟨aligned, _, computed, returned⟩ := returned
  rw [ofExcept_run_ok] at computed
  obtain ⟨computed, rfl⟩ := computed
  rw [bind_run_ok] at returned
  obtain ⟨size, _, sized, returned⟩ := returned
  rw [ofExcept_run_ok] at sized
  obtain ⟨sized, rfl⟩ := sized
  simp only [paddingOf_eq computed] at returned
  rw [bind_run_of_ok _ (Output.writeZeros_run origin _ output)] at returned
  have padded :
      Emits origin (List.replicate (gap logicSize output.position size) 0)
        output _ :=
    emits_written List.length_replicate output
  have noted :
      Logs (fun store => store.origin = origin) output
        (output.written origin
          (List.replicate (gap logicSize output.position size) 0)
          (gap logicSize output.position size)) :=
    logs_written rfl
  generalize
    output.written origin
        (List.replicate (gap logicSize output.position size) 0)
        (gap logicSize output.position size) = middle at returned padded noted
  rw [bind_run_of_ok _ (get_run middle), bind_run_ok] at returned
  obtain ⟨bytes, _, built, returned⟩ := returned
  rw [ofExcept_run_ok] at built
  obtain ⟨built, rfl⟩ := built
  rw [bind_run_of_ok _ (Output.writeAll_run origin bytes middle),
    bind_run_of_ok _ (Output.streamPosition_run _), bind_run_ok] at returned
  have written : Emits origin bytes middle _ := emits_written rfl middle
  obtain ⟨expected, _, summed, returned⟩ := returned
  rw [ofExcept_run_ok] at summed
  obtain ⟨summed, rfl⟩ := summed
  have length := source.record_length used sized built
  have bounds := source.size_bounds sized
  have behind := written.position
  obtain ⟨asserted, rfl⟩ := assertRecordSize_run_ok.mp returned
  rw [behind] at asserted
  have whole : bytes.length = size :=
    length_of_asserted bounds.2 (Nat.le.intro length) summed asserted
  subst whole
  refine ⟨bytes, ⟨sized, _, built⟩, ?_,
    RunRelation.trans noted (logs_written rfl)⟩
  rw [layOut, layOut, List.append_nil]
  exact padded.append written

/-- The image in front of a record, where the next block has begun if the
record did not fit into the last one. -/
def padded (origin : Origin) (size : Nat) (output : Output Origin) :
    Output Origin :=
  output.written origin
    (List.replicate (gap logicSize output.position size) 0)
    (gap logicSize output.position size)

theorem padded_emits (origin : Origin) (size : Nat) (output : Output Origin) :
    Emits origin (List.replicate (gap logicSize output.position size) 0) output
      (padded origin size output) :=
  emits_written List.length_replicate output

theorem padded_position (origin : Origin) (size : Nat)
    (output : Output Origin) :
    (padded origin size output).position =
      output.position + gap logicSize output.position size := by
  rw [(padded_emits origin size output).position, List.length_replicate]

/-- At small positions a call of `write_entry` does what building its record
does: the casts keep their values, and the assertion holds. -/
theorem writeSource_run (clock : Clock) (origin : Origin)
    {source : RecordSource} {output : Output Origin} {size : Nat}
    (used : source.Used) (present : source.missing = 0)
    (sized : source.size = .ok size)
    (below : output.position + 4096 < 2 ^ 31) :
    (writeSource clock origin source).run output =
      match source.record
        (clock (padded origin size output).stores.length) with
      | .error fault => .error fault (padded origin size output)
      | .ok bytes =>
          .ok () ((padded origin size output).written origin bytes
            bytes.length) := by
  have rest : gap logicSize output.position size < 2048 := by
    unfold gap restOf logicSize
    split <;> omega
  have bounds := source.size_bounds sized
  have aligned :
      alignUp (asI32 output.position) logicSize =
        .ok ((asI32 output.position + ((logicSize : Int) - 1)) / logicSize *
          logicSize) := by
    rw [alignUp, if_pos]
    rw [asI32_of_lt (by omega)]
    unfold logicSize
    omega
  have behind := padded_position origin size output
  rw [writeSource, writeRecord,
    bind_run_of_ok _ (Output.streamPosition_run output),
    bind_run_of_ok _ (ofExcept_run_ok.mpr ⟨aligned, rfl⟩),
    bind_run_of_ok _ (ofExcept_run_ok.mpr ⟨sized, rfl⟩)]
  simp only [paddingOf_eq aligned]
  rw [bind_run_of_ok _ (Output.writeZeros_run origin _ output)]
  change ((get >>= _ : Writer Unit)).run (padded origin size output) = _
  rw [bind_run_of_ok _ (get_run _)]
  cases recorded :
      source.record (clock (padded origin size output).stores.length) with
  | error fault => rw [bind_run, ofExcept_run]
  | ok bytes =>
      have length := source.record_length used sized recorded
      rw [present, Nat.add_zero] at length
      have written :
          Emits origin bytes (padded origin size output) _ :=
        emits_written rfl (padded origin size output)
      have summed :
          addI32 (asI32 (padded origin size output).position) size =
            .ok (asI32 (padded origin size output).position + size) := by
        rw [addI32_eq_ok, asI32_of_lt (by omega)]
        exact ⟨by omega, rfl⟩
      have asserted :
          asI32 (padded origin size output).position + (size : Int) =
            asI32 ((padded origin size output).written origin bytes
              bytes.length).position := by
        rw [written.position, length, asI32_of_lt (by omega),
          asI32_of_lt (by omega)]
        omega
      rw [bind_run_of_ok _ (ofExcept_run_ok.mpr ⟨rfl, rfl⟩),
        bind_run_of_ok _ (Output.writeAll_run origin bytes _),
        bind_run_of_ok _ (Output.streamPosition_run _),
        bind_run_of_ok _ (ofExcept_run_ok.mpr ⟨summed, rfl⟩),
        assertRecordSize_run_ok]
      exact ⟨asserted, rfl⟩

/-- At small positions a record that can be built is written. -/
theorem writeSource_returns {clock : Clock} {origin : Origin}
    {source : RecordSource} {output : Output Origin} {size : Nat}
    (used : source.Used) (present : source.missing = 0)
    (sized : source.size = .ok size)
    (built : ∀ now, ∃ bytes, source.record now = .ok bytes)
    (below : advance logicSize output.position size + 4096 < 2 ^ 31) :
    ∃ final,
      (writeSource clock origin source).run output = .ok () final ∧
        final.position = advance logicSize output.position size := by
  obtain ⟨bytes, recorded⟩ :=
    built (clock (padded origin size output).stores.length)
  have length := source.record_length used sized recorded
  rw [present, Nat.add_zero] at length
  have written : Emits origin bytes (padded origin size output) _ :=
    emits_written rfl (padded origin size output)
  have start : output.position + 4096 < 2 ^ 31 := by
    unfold advance at below
    omega
  have run := writeSource_run clock origin used present sized start
  rw [recorded] at run
  refine ⟨_, run, ?_⟩
  rw [written.position, padded_position, length, advance]

theorem RecordSource.Built.head {source : RecordSource}
    {bytes : List UInt8} (built : source.Built bytes) :
    bytes.head? = some (UInt8.ofNat bytes.length) := by
  obtain ⟨sized, now, recorded⟩ := built
  cases source with
  | directory directoryType entry =>
      obtain ⟨size, _, _, _, _, sizedAgain, _, _, _, _, _, shape⟩ :=
        directoryRecord_eq_ok recorded
      rw [RecordSource.size, sizedAgain, Except.ok.injEq] at sized
      rw [← sized, shape]
      rfl
  | file child =>
      obtain ⟨size, _, _, _, sizedAgain, _, _, _, shape⟩ :=
        fileRecord_eq_ok recorded
      rw [RecordSource.size, sizedAgain, Except.ok.injEq] at sized
      rw [← sized, shape]
      rfl

/-! ## Reading a record back -/

/-- What a reader takes from a record. -/
structure Decoded where
  identifier : List UInt8
  lba : Nat
  extentSize : Nat
  directory : Bool
  name : Option Name
  deriving DecidableEq, Repr

/-- Walks over the entries of the system use fields to the name. -/
def findName : Nat → List UInt8 → Option Name
  | fuel + 1, first :: second :: length :: rest =>
      if [first, second] = utf8 "NM" then
        some (bytesAt (first :: second :: length :: rest) 5
          (length.toNat - 5))
      else
        findName fuel
          ((first :: second :: length :: rest).drop length.toNat)
  | _, _ => none

def decodeRecord (record : List UInt8) : Decoded :=
  let length := ((bytesAt record 32 1).headD 0).toNat
  let systemUse := record.drop (33 + length + (1 - length % 2))
  { identifier := bytesAt record 33 length
    lba := leValue (bytesAt record 2 4)
    extentSize := leValue (bytesAt record 10 4)
    directory := (bytesAt record 25 3).headD 0 &&& 2 ≠ 0
    name := findName systemUse.length systemUse }

/-- What the record of a source is to say. -/
def RecordSource.expected : RecordSource → Except Fault Decoded
  | .directory directoryType entry => do
      let fileName ← entry.getFileName
      let fixed ← convertName fileName
      let extentSize ← entry.getExtentSizeInLb
      return {
        identifier := recordIdentifier directoryType fixed
        lba := entry.lba % 2 ^ 32
        extentSize := extentSize * logicSize
        directory := true
        name := if directoryType = 0 then some fileName else none }
  | .file child => do
      let fileName ← child.getFileName
      let fixed ← convertName fileName
      return {
        identifier := fixed ++ utf8 ";1"
        lba := child.lba % 2 ^ 32
        extentSize := child.size % 2 ^ 32
        directory := false
        name := some fileName }

/-- What is in a record from the length of the identifier on. -/
theorem recordHeader_tail (size lba extentSize : Nat) (now : DateTime)
    (flags : UInt8) (identifier systemUse : List UInt8) (start count : Nat) :
    bytesAt
        (recordHeader size lba extentSize now flags identifier ++ systemUse)
        (32 + start) count =
      bytesAt
        ([UInt8.ofNat identifier.length] ++
          (identifier ++
            (List.replicate (1 - identifier.length % 2) 0 ++ systemUse)))
        start count := by
  have begun : ([UInt8.ofNat size, 0] : List UInt8).length = 2 := rfl
  have dated : (recordDate now).length = 7 := rfl
  have flagged : ([flags, 0, 0] : List UInt8).length = 3 := rfl
  unfold recordHeader bothEndian
  simp only [List.append_assoc]
  rw [show 32 + start =
        2 + (4 + (4 + (4 + (4 + (7 + (3 + (2 + (2 + start)))))))) by omega,
    bytesAt_behind begun, bytesAt_behind (leBytes_length 4 _),
    bytesAt_behind (beBytes_length 4 _), bytesAt_behind (leBytes_length 4 _),
    bytesAt_behind (beBytes_length 4 _), bytesAt_behind dated,
    bytesAt_behind flagged, bytesAt_behind (leBytes_length 2 _),
    bytesAt_behind (beBytes_length 2 _)]

theorem recordHeader_identifierLength {size lba extentSize : Nat}
    {now : DateTime} {flags : UInt8} {identifier : List UInt8}
    (short : identifier.length ≤ 255) (systemUse : List UInt8) :
    ((bytesAt
        (recordHeader size lba extentSize now flags identifier ++ systemUse)
        32 1).headD 0).toNat = identifier.length := by
  have counted :
      ([UInt8.ofNat identifier.length] : List UInt8).length = 1 := rfl
  rw [show 32 = 32 + 0 by rfl, recordHeader_tail, bytesAt_front counted,
    List.headD_cons, UInt8.toNat_ofNat']
  omega

theorem decodeRecord_header {size lba extentSize : Nat} {now : DateTime}
    {flags : UInt8} {identifier : List UInt8}
    (short : identifier.length ≤ 255) (systemUse : List UInt8) :
    decodeRecord
        (recordHeader size lba extentSize now flags identifier ++
          systemUse) =
      { identifier := identifier
        lba := lba % 2 ^ 32
        extentSize := extentSize % 2 ^ 32
        directory := flags &&& 2 ≠ 0
        name := findName systemUse.length systemUse } := by
  have begun : ([UInt8.ofNat size, 0] : List UInt8).length = 2 := rfl
  have dated : (recordDate now).length = 7 := rfl
  have flagged : ([flags, 0, 0] : List UInt8).length = 3 := rfl
  have counted :
      ([UInt8.ofNat identifier.length] : List UInt8).length = 1 := rfl
  have lengthField :
      ((bytesAt
          (recordHeader size lba extentSize now flags identifier ++ systemUse)
          32 1).headD 0).toNat = identifier.length :=
    recordHeader_identifierLength short systemUse
  have identifierField :
      bytesAt
          (recordHeader size lba extentSize now flags identifier ++ systemUse)
          33 identifier.length = identifier := by
    rw [show 33 = 32 + (1 + 0) by rfl, recordHeader_tail,
      bytesAt_behind counted, bytesAt_front rfl]
  have behind :
      (recordHeader size lba extentSize now flags identifier ++
          systemUse).drop
          (33 + identifier.length + (1 - identifier.length % 2)) =
        systemUse :=
    List.drop_left' (recordHeader_length size lba extentSize now flags _)
  obtain ⟨record, shape⟩ :
      ∃ record,
        record =
          recordHeader size lba extentSize now flags identifier ++
            systemUse :=
    ⟨_, rfl⟩
  rw [← shape] at behind lengthField identifierField ⊢
  unfold recordHeader bothEndian at shape
  simp only [List.append_assoc] at shape
  have lbaField : bytesAt record 2 4 = leBytes 4 lba := by
    rw [shape, show 2 = 2 + 0 by rfl, bytesAt_behind begun,
      bytesAt_front (leBytes_length 4 _)]
  have extentField : bytesAt record 10 4 = leBytes 4 extentSize := by
    rw [shape, show 10 = 2 + (4 + (4 + 0)) by rfl, bytesAt_behind begun,
      bytesAt_behind (leBytes_length 4 _), bytesAt_behind (beBytes_length 4 _),
      bytesAt_front (leBytes_length 4 _)]
  have flagsField : bytesAt record 25 3 = [flags, 0, 0] := by
    rw [shape, show 25 = 2 + (4 + (4 + (4 + (4 + (7 + 0))))) by rfl,
      bytesAt_behind begun, bytesAt_behind (leBytes_length 4 _),
      bytesAt_behind (beBytes_length 4 _), bytesAt_behind (leBytes_length 4 _),
      bytesAt_behind (beBytes_length 4 _), bytesAt_behind dated,
      bytesAt_front flagged]
  clear shape
  unfold decodeRecord
  simp only
  rw [lengthField, behind, identifierField, lbaField, extentField, flagsField,
    leValue_leBytes, leValue_leBytes]
  rfl

/-! ## The name in the system use fields -/

/-- An entry of the system use fields that is not a name. -/
structure OtherEntry (entry : List UInt8) : Prop where
  shaped :
    ∃ first second length rest,
      entry = first :: second :: length :: rest ∧
        [first, second] ≠ utf8 "NM" ∧ length.toNat = entry.length

theorem OtherEntry.findName_append {entry : List UInt8}
    (other : OtherEntry entry) (fuel : Nat) (behind : List UInt8) :
    findName (fuel + 1) (entry ++ behind) = findName fuel behind := by
  obtain ⟨first, second, length, rest, rfl, different, sized⟩ := other.shaped
  rw [List.cons_append, List.cons_append, List.cons_append, findName,
    if_neg different, sized, ← List.cons_append, ← List.cons_append,
    ← List.cons_append, List.drop_left' rfl]

theorem otherEntry_px (fileMode serialNumber : Nat) :
    OtherEntry (rockRidgePx fileMode serialNumber) := by
  have shape :
      rockRidgePx fileMode serialNumber =
        0x50 :: 0x58 :: 0x2c ::
          (0x1 :: (bothEndian 4 fileMode ++ bothEndian 4 1 ++ bothEndian 4 0 ++
            bothEndian 4 0 ++ bothEndian 4 serialNumber)) := by
    rw [rockRidgePx, utf8_px]
    rfl
  refine ⟨_, _, _, _, shape, by simp [utf8_nm], ?_⟩
  rw [rockRidgePx_length]
  rfl

/-- No name is found, however far the reader goes. -/
def Nameless (bytes : List UInt8) : Prop :=
  ∀ fuel, findName fuel bytes = none

theorem nameless_nil : Nameless [] := by
  intro fuel
  cases fuel <;> rfl

theorem OtherEntry.nameless_append {entry behind : List UInt8}
    (other : OtherEntry entry) (nameless : Nameless behind) :
    Nameless (entry ++ behind) := by
  intro fuel
  cases fuel with
  | zero => rfl
  | succ fuel => rw [other.findName_append, nameless]

theorem nameless_susp {entry : DirectoryEntry} {extentSize : Nat}
    {susp behind : List UInt8}
    (built : suspEntries entry extentSize = .ok susp)
    (nameless : Nameless behind) : Nameless (susp ++ behind) := by
  have first : OtherEntry (utf8 "SP" ++ [0x7, 0x1, 0xBE, 0xEF, 0x0]) := by
    refine ⟨0x53, 0x50, 0x7, [0x1, 0xBE, 0xEF, 0x0], ?_,
      by simp [utf8_nm], ?_⟩
    · rw [utf8_sp]
      rfl
    · rw [utf8_sp]
      rfl
  unfold suspEntries at built
  cases given : entry.continuationArea with
  | none =>
      rw [given] at built
      cases built
      exact first.nameless_append nameless
  | some area =>
      rw [given] at built
      simp only at built
      rw [except_bind_eq_ok] at built
      obtain ⟨block, _, built⟩ := built
      cases built
      have second :
          OtherEntry
            (utf8 "CE" ++ [0x1c, 0x1] ++ bothEndian 4 block ++
              bothEndian 4 0 ++ bothEndian 4 area.length) := by
        refine ⟨0x43, 0x45, 0x1c,
          0x1 :: (bothEndian 4 block ++ bothEndian 4 0 ++
            bothEndian 4 area.length), ?_, by simp [utf8_nm], ?_⟩
        · rw [utf8_ce]
          rfl
        · rw [utf8_ce]
          simp
      rw [List.append_assoc]
      exact first.nameless_append (second.nameless_append nameless)

theorem findName_nm {fileName nm : List UInt8}
    (built : rockRidgeNm fileName = .ok nm) (short : fileName.length ≤ 251)
    (fuel : Nat) : findName (fuel + 1) nm = some fileName := by
  obtain ⟨fits, rfl⟩ := rockRidgeNm_eq_ok.mp built
  have whole : fileName.length % 256 = fileName.length :=
    Nat.mod_eq_of_lt (by omega)
  rw [whole] at fits ⊢
  have value :
      (UInt8.ofNat (5 + fileName.length)).toNat = 5 + fileName.length := by
    rw [UInt8.toNat_ofNat']
    omega
  rw [utf8_nm, List.cons_append, List.cons_append, List.cons_append,
    List.cons_append, List.nil_append, List.cons_append, List.cons_append,
    findName, utf8_nm, if_pos rfl, value, Nat.add_sub_cancel_left]
  simp [bytesAt]

/-- The name that the system use fields of a directory carry. -/
theorem findName_directorySystemUse {entry : DirectoryEntry}
    {directoryType extentSize : Nat} {fileName : Name}
    {systemUse : List UInt8}
    (built :
      directorySystemUse entry directoryType extentSize fileName =
        .ok systemUse)
    (short : fileName.length ≤ 251) :
    findName systemUse.length systemUse =
      if directoryType = 0 then some fileName else none := by
  have length := directorySystemUse_length built
  rw [directorySystemUse, except_bind_eq_ok] at built
  obtain ⟨susp, first, built⟩ := built
  rw [except_bind_eq_ok] at built
  obtain ⟨px, second, built⟩ := built
  rw [except_bind_eq_ok] at built
  obtain ⟨nm, third, built⟩ := built
  cases built
  unfold recordSusp at first
  unfold recordPx at second
  unfold recordNm at third
  by_cases child : directoryType = 0
  · subst child
    cases first
    rw [if_pos (by omega), map_eq_pure_bind, except_bind_eq_ok] at second
    obtain ⟨serialNumber, _, closed⟩ := second
    cases closed
    rw [if_pos rfl] at third ⊢
    obtain ⟨fuel, enough⟩ :
        ∃ fuel,
          ([] ++ rockRidgePx 0o040755 serialNumber ++ nm).length =
            fuel + 1 + 1 := by
      rw [if_pos (Nat.zero_lt_succ 4), if_pos rfl] at length
      refine ⟨([] ++ rockRidgePx 0o040755 serialNumber ++ nm).length - 2, ?_⟩
      omega
    rw [enough, List.nil_append, (otherEntry_px _ _).findName_append,
      findName_nm third short]
  · rw [if_neg child] at third ⊢
    cases third
    rw [List.append_nil]
    have nameless : Nameless px := by
      by_cases present : directoryType < 5
      · rw [if_pos present, map_eq_pure_bind, except_bind_eq_ok] at second
        obtain ⟨serialNumber, _, closed⟩ := second
        cases closed
        rw [← List.append_nil (rockRidgePx _ _)]
        exact (otherEntry_px _ _).nameless_append nameless_nil
      · rw [if_neg present] at second
        cases second
        exact nameless_nil
    by_cases root : directoryType = 3
    · rw [if_pos root] at first
      exact nameless_susp first nameless _
    · rw [if_neg root] at first
      cases first
      exact nameless _

theorem nameShort_of_size {entry : DirectoryEntry} {directoryType size : Nat}
    {fileName : Name}
    (sized : (RecordSource.directory directoryType entry).size = .ok size)
    (named : entry.getFileName = .ok fileName) : fileName.length ≤ 251 := by
  rw [RecordSource.size, DirectoryEntry.getEntrySize, named] at sized
  exact (getEntrySize_eq_ok.mp sized).1

/-- A record that was written says what it is to say. -/
theorem RecordSource.Built.decodes {source : RecordSource}
    {bytes : List UInt8} (built : source.Built bytes) :
    source.expected = .ok (decodeRecord bytes) := by
  obtain ⟨sized, now, recorded⟩ := built
  cases source with
  | directory directoryType entry =>
      obtain
        ⟨_, fileName, fixed, extentSize, systemUse, _, named, converted,
          measured, fits, used, rfl⟩ :=
          directoryRecord_eq_ok recorded
      have short := nameShort_of_size sized named
      have identifier :
          (recordIdentifier directoryType fixed).length ≤ 255 := by
        have length := convertName_length converted
        unfold recordIdentifier
        split <;> simp
        omega
      have whole : extentSize * logicSize % 2 ^ 32 = extentSize * logicSize :=
        Nat.mod_eq_of_lt fits
      rw [decodeRecord_header identifier, whole,
        findName_directorySystemUse used short, expected, named]
      change (convertName fileName >>= _) = _
      rw [converted]
      change (entry.getExtentSizeInLb >>= _) = _
      rw [measured]
      rfl
  | file child =>
      obtain ⟨_, fileName, fixed, nm, _, named, converted, entered, rfl⟩ :=
        fileRecord_eq_ok recorded
      have short : fileName.length ≤ 251 := by
        rw [RecordSource.size, FileEntry.getEntrySize, named] at sized
        exact (getEntrySize_eq_ok.mp sized).1
      have identifier : (fixed ++ utf8 ";1").length ≤ 255 := by
        have length := convertName_length converted
        rw [List.length_append, version_length]
        omega
      have found :
          findName (rockRidgePx 0o100644 child.lba ++ nm).length
              (rockRidgePx 0o100644 child.lba ++ nm) =
            some fileName := by
        obtain ⟨fuel, enough⟩ :
            ∃ fuel,
              (rockRidgePx 0o100644 child.lba ++ nm).length = fuel + 1 + 1 := by
          rw [List.length_append, rockRidgePx_length]
          exact ⟨nm.length + 42, by omega⟩
        rw [enough, (otherEntry_px _ _).findName_append,
          findName_nm entered short]
      rw [List.append_assoc, decodeRecord_header identifier, found, expected,
        named]
      change (convertName fileName >>= _) = _
      rw [converted]
      rfl

end RustKernel.Iso
