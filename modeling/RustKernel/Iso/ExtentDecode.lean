import RustKernel.Iso.ExtentFit

/-!
# Reading extents back

A reader that starts at a directory and steps by the length bytes finds the
records of `'.'`, `'..'` and the children in their order.  `write_extent`
returns whenever the records are short and the positions small.
-/

namespace RustKernel.Iso

open RustKernel.Foundations
open RustKernel.Machine

/-! ## What a reader finds -/

/-- The records that a reader finds from a position on. -/
def readRecords (position : Nat) (bytes : List UInt8) :
    List (Nat × List UInt8) :=
  scan logicSize bytes.length position bytes

theorem built_expected {sources : List RecordSource}
    {records : List (List UInt8)}
    (built : List.Forall₂ RecordSource.Built sources records) :
    sources.mapM RecordSource.expected = .ok (records.map decodeRecord) := by
  induction built with
  | nil => rfl
  | cons own _ inductionHypothesis =>
      exact mapM_cons_eq_ok.mpr ⟨_, _, own.decodes, inductionHypothesis, rfl⟩

theorem built_bounds {sources : List RecordSource}
    {records : List (List UInt8)}
    (built : List.Forall₂ RecordSource.Built sources records)
    (short :
      ∀ source ∈ sources, ∀ size, source.size = .ok size → size ≤ 255) :
    ∀ record ∈ records,
      record.head? = some (UInt8.ofNat record.length) ∧
        0 < record.length ∧ record.length ≤ 255 := by
  induction built with
  | nil => simp
  | cons own _ inductionHypothesis =>
      refine List.forall_mem_cons.mpr ⟨⟨own.head, ?_, ?_⟩, ?_⟩
      · have bounds := RecordSource.size_bounds own.1
        omega
      · exact short _ (by simp) _ own.1
      · exact inductionHypothesis fun source member =>
          short source (by simp [member])

/-- A reader of the bytes of a directory finds its records. -/
theorem readRecords_ownBytes {above : Option DirectoryEntry}
    {entry : DirectoryEntry} {records : List (List UInt8)}
    (built : List.Forall₂ RecordSource.Built (ownSources above entry) records)
    (short :
      ∀ source ∈ ownSources above entry,
        ∀ size, source.size = .ok size → size ≤ 255) :
    readRecords (entry.lba * logicSize) (ownBytes entry.lba records) =
      placed logicSize (entry.lba * logicSize) records := by
  have bounds := built_bounds built short
  rw [readRecords, ownBytes]
  apply scan_layOut
  · intro record member
    exact ⟨(bounds record member).1, (bounds record member).2.2⟩
  · decide
  · rw [List.length_append]
    exact Nat.le_add_right _ _

theorem expected_identifier {directoryType : Nat} {entry : DirectoryEntry}
    {decoded : Decoded}
    (read :
      (RecordSource.directory directoryType entry).expected = .ok decoded) :
    ∃ fixed, decoded.identifier = recordIdentifier directoryType fixed := by
  rw [RecordSource.expected, except_bind_eq_ok] at read
  obtain ⟨fileName, _, read⟩ := read
  rw [except_bind_eq_ok] at read
  obtain ⟨fixed, _, read⟩ := read
  rw [except_bind_eq_ok] at read
  obtain ⟨extentSize, _, read⟩ := read
  cases read
  exact ⟨fixed, rfl⟩

/-- What a reader makes of the stores of a directory. -/
structure ReadsBack (entry : DirectoryEntry)
    (items : List (Nat × List UInt8)) : Prop where
  decoded :
    ∃ current parent childs,
      items.map (fun item => decodeRecord item.2) =
          current :: parent :: childs ∧
        current.identifier = [0] ∧
        parent.identifier = [1] ∧
        (childSources entry).mapM RecordSource.expected = .ok childs
  within :
    ∀ item ∈ items, item.1 % logicSize + item.2.length ≤ logicSize

theorem OwnWritten.readsBack {origin : Origin}
    {above : Option DirectoryEntry} {entry : DirectoryEntry}
    {added : List (Store Origin)}
    (written : OwnWritten origin above entry added)
    (short :
      ∀ source ∈ ownSources above entry,
        ∀ size, source.size = .ok size → size ≤ 255) :
    ∃ bytes,
      Tiles (entry.lba * logicSize)
          (added.filter fun store => store.origin = origin) bytes ∧
        ReadsBack entry
          (readRecords (entry.lba * logicSize) bytes) := by
  obtain ⟨records, built, tiles⟩ := written
  refine ⟨ownBytes entry.lba records, tiles, ?_⟩
  rw [readRecords_ownBytes built short]
  have bounds := built_bounds built short
  constructor
  · obtain ⟨current, behind, first, mapped, split⟩ :=
      mapM_cons_eq_ok.mp (built_expected built)
    obtain ⟨parent, childs, second, childrenMapped, rfl⟩ :=
      mapM_cons_eq_ok.mp mapped
    obtain ⟨_, firstIdentifier⟩ := expected_identifier first
    obtain ⟨_, secondIdentifier⟩ := expected_identifier second
    refine ⟨current, parent, childs, by rw [placed_map, split], ?_,
      secondIdentifier, childrenMapped⟩
    rw [firstIdentifier]
    cases above with
    | none => rfl
    | some directory => rfl
  · apply placed_within
    intro record member
    have bound := bounds record member
    unfold logicSize
    omega

/-! ## Directories that can be recorded -/

/-- What the records of a directory need: its extent has a size, and the sums
that go into its records are `u32`. -/
structure Measured (entry : DirectoryEntry) : Prop where
  extent :
    ∃ extentSize,
      entry.getExtentSizeInLb = .ok extentSize ∧
        (entry.lba + extentSize) * logicSize < 2 ^ 32
  serial : entry.lba + entry.pathTableIndex < 2 ^ 32

theorem name_of_directorySize {entry : DirectoryEntry}
    {directoryType size : Nat}
    (sized : entry.getEntrySize (some directoryType) = .ok size) :
    ∃ fileName fixed,
      entry.getFileName = .ok fileName ∧ fileName.length ≤ 251 ∧
        convertName fileName = .ok fixed := by
  rw [DirectoryEntry.getEntrySize, except_bind_eq_ok] at sized
  obtain ⟨fileName, named, sized⟩ := sized
  obtain ⟨short, fixed, converted, _⟩ := getEntrySize_eq_ok.mp sized
  exact ⟨fileName, fixed, named, short, converted⟩

theorem exists_rockRidgeNm {fileName : Name} (short : fileName.length ≤ 250) :
    ∃ nm, rockRidgeNm fileName = .ok nm :=
  ⟨_, rockRidgeNm_eq_ok.mpr ⟨by omega, rfl⟩⟩

theorem exists_recordSusp {entry : DirectoryEntry} {extentSize : Nat}
    (directoryType : Nat)
    (fits : entry.lba + extentSize < 2 ^ 32) :
    ∃ susp, recordSusp entry directoryType extentSize = .ok susp := by
  unfold recordSusp suspEntries
  by_cases root : directoryType = 3
  · rw [if_pos root]
    cases entry.continuationArea with
    | none => exact ⟨_, rfl⟩
    | some area =>
        exact ⟨_, except_bind_eq_ok.mpr
          ⟨_, addU32_eq_ok.mpr ⟨fits, rfl⟩, rfl⟩⟩
  · rw [if_neg root]
    exact ⟨_, rfl⟩

theorem exists_recordPx {entry : DirectoryEntry} (directoryType : Nat)
    (fits : entry.lba + entry.pathTableIndex < 2 ^ 32) :
    ∃ px, recordPx entry directoryType = .ok px := by
  unfold recordPx
  by_cases present : directoryType < 5
  · rw [if_pos present, map_eq_pure_bind]
    exact ⟨_, except_bind_eq_ok.mpr ⟨_, addU32_eq_ok.mpr ⟨fits, rfl⟩, rfl⟩⟩
  · rw [if_neg present]
    exact ⟨_, rfl⟩

/-- A record can be built when the sum of its `NM` entry is a `u8`. -/
theorem Measured.exists_record_of_named {entry : DirectoryEntry}
    (measured : Measured entry) {directoryType size : Nat} {fileName : Name}
    (sized : entry.getEntrySize (some directoryType) = .ok size)
    (named : entry.getFileName = .ok fileName)
    (short : directoryType = 0 → fileName.length ≤ 250) (now : DateTime) :
    ∃ bytes, (RecordSource.directory directoryType entry).record now =
      .ok bytes := by
  obtain ⟨extentSize, extent, fits⟩ := measured.extent
  obtain ⟨_, fixed, namedAgain, _, converted⟩ := name_of_directorySize sized
  rw [named] at namedAgain
  cases namedAgain
  have product : extentSize * logicSize < 2 ^ 32 := by
    rw [Nat.add_mul] at fits
    omega
  have sum : entry.lba + extentSize < 2 ^ 32 := by
    have factor := Nat.le_mul_of_pos_right (entry.lba + extentSize)
      (by decide : 0 < logicSize)
    omega
  obtain ⟨susp, first⟩ := exists_recordSusp directoryType sum
  obtain ⟨px, second⟩ := exists_recordPx directoryType measured.serial
  obtain ⟨nm, third⟩ : ∃ nm, recordNm directoryType fileName = .ok nm := by
    unfold recordNm
    by_cases child : directoryType = 0
    · rw [if_pos child]
      exact exists_rockRidgeNm (short child)
    · rw [if_neg child]
      exact ⟨_, rfl⟩
  refine ⟨_, except_bind_eq_ok.mpr ⟨size, sized, except_bind_eq_ok.mpr
    ⟨fileName, named, except_bind_eq_ok.mpr ⟨fixed, converted,
      except_bind_eq_ok.mpr ⟨extentSize, extent, except_bind_eq_ok.mpr
        ⟨_, mulU32_eq_ok.mpr ⟨product, rfl⟩, except_bind_eq_ok.mpr
          ⟨_, except_bind_eq_ok.mpr ⟨susp, first, except_bind_eq_ok.mpr
            ⟨px, second, except_bind_eq_ok.mpr ⟨nm, third, rfl⟩⟩⟩,
            rfl⟩⟩⟩⟩⟩⟩⟩

theorem Measured.exists_record {entry : DirectoryEntry}
    (measured : Measured entry) {directoryType size : Nat}
    (sized : entry.getEntrySize (some directoryType) = .ok size)
    (short : size ≤ 255) (now : DateTime) :
    ∃ bytes, (RecordSource.directory directoryType entry).record now =
      .ok bytes := by
  obtain ⟨fileName, fixed, named, _, converted⟩ := name_of_directorySize sized
  have whole := directorySize_eq sized named converted
  rw [entrySize_odd] at whole
  refine measured.exists_record_of_named sized named ?_ now
  intro child
  rw [if_pos (by omega), if_pos child] at whole
  omega

theorem exists_fileRecord_of_named {file : FileEntry} {size : Nat}
    {fileName : Name} (sized : file.getEntrySize = .ok size)
    (named : file.getFileName = .ok fileName)
    (short : fileName.length ≤ 250) (now : DateTime) :
    ∃ bytes, (RecordSource.file file).record now = .ok bytes := by
  have measured := sized
  rw [FileEntry.getEntrySize, named] at measured
  obtain ⟨_, fixed, converted, _⟩ := getEntrySize_eq_ok.mp measured
  obtain ⟨nm, entered⟩ := exists_rockRidgeNm short
  exact ⟨_, except_bind_eq_ok.mpr ⟨size, sized, except_bind_eq_ok.mpr
    ⟨fileName, named, except_bind_eq_ok.mpr ⟨fixed, converted,
      except_bind_eq_ok.mpr ⟨nm, entered, rfl⟩⟩⟩⟩⟩

theorem exists_fileRecord {file : FileEntry} {size : Nat}
    (sized : file.getEntrySize = .ok size) (short : size ≤ 255)
    (now : DateTime) :
    ∃ bytes, (RecordSource.file file).record now = .ok bytes := by
  have measured := sized
  rw [FileEntry.getEntrySize, except_bind_eq_ok] at measured
  obtain ⟨fileName, named, measured⟩ := measured
  obtain ⟨_, fixed, converted, whole⟩ := getEntrySize_eq_ok.mp measured
  rw [entrySize_odd, if_pos (by omega), if_pos rfl] at whole
  exact exists_fileRecord_of_named sized named (by omega) now

/-! ## Directories that can be written -/

/-- The records of a directory are short and end at a small position, and the
sums that go into them are `u32`. -/
structure Writable (above : Option DirectoryEntry) (entry : DirectoryEntry) :
    Prop where
  short :
    ∀ source ∈ ownSources above entry,
      ∃ size, source.size = .ok size ∧ size ≤ 255
  below :
    ∀ sizes, (ownSources above entry).mapM RecordSource.size = .ok sizes →
      endOf logicSize (entry.lba * logicSize) sizes < 2 ^ 31 - 4096
  serial : entry.lba + entry.pathTableIndex < 2 ^ 32
  area : above = none → entry.continuationArea.isSome = true

theorem extentStep_returns {counted : Nat × Nat} (size : Nat)
    (small : counted.2 + 2048 < 2 ^ 31) :
    ∃ next,
      DirectoryEntry.extentStep counted size = .ok next ∧
        next.2 ≤ counted.2 + size := by
  have aligned :
      ∃ value, alignUp (asI32 counted.2) logicSize = .ok value := by
    refine ⟨_, if_pos ?_⟩
    rw [asI32_of_lt (by omega)]
    unfold logicSize
    omega
  obtain ⟨value, aligned⟩ := aligned
  by_cases needed :
      value - asI32 counted.2 < (size : Int) ∧ value - asI32 counted.2 ≠ 0
  · refine ⟨(counted.1 + 1, size), ?_, by simp⟩
    rw [DirectoryEntry.extentStep, except_bind_eq_ok]
    exact ⟨value, aligned, if_pos needed⟩
  · refine ⟨(counted.1, counted.2 + size), ?_, Nat.le_refl _⟩
    rw [DirectoryEntry.extentStep, except_bind_eq_ok]
    exact ⟨value, aligned, if_neg needed⟩

theorem extentFold_returns {sources : List RecordSource} {sizes : List Nat}
    {counted : Nat × Nat}
    (sized : sources.mapM RecordSource.size = .ok sizes)
    (small : counted.2 + sizes.sum + 2048 < 2 ^ 31) :
    ∃ last,
      sources.foldlM
          (fun counted source => do
            let entrySize ← source.size
            DirectoryEntry.extentStep counted entrySize)
          counted = .ok last := by
  induction sources generalizing counted sizes with
  | nil => exact ⟨counted, rfl⟩
  | cons source sources inductionHypothesis =>
      obtain ⟨size, rest, own, later, rfl⟩ := mapM_cons_eq_ok.mp sized
      rw [List.sum_cons] at small
      have before : counted.2 + 2048 < 2 ^ 31 := by
        omega
      obtain ⟨next, stepped, bounded⟩ := extentStep_returns size before
      have after : next.2 + rest.sum + 2048 < 2 ^ 31 := by
        omega
      obtain ⟨last, folded⟩ := inductionHypothesis later after
      refine ⟨last, ?_⟩
      rw [List.foldlM_cons, except_bind_eq_ok]
      exact ⟨next, except_bind_eq_ok.mpr ⟨size, own, stepped⟩, folded⟩

theorem exists_directorySize {entry : DirectoryEntry} {fileName fixed : Name}
    (named : entry.getFileName = .ok fileName)
    (short : fileName.length ≤ 251)
    (converted : convertName fileName = .ok fixed) (directoryType : Nat) :
    ∃ size, entry.getEntrySize (some directoryType) = .ok size :=
  ⟨_, except_bind_eq_ok.mpr
    ⟨fileName, named, getEntrySize_eq_ok.mpr ⟨short, fixed, converted, rfl⟩⟩⟩

theorem exists_extentSize {entry : DirectoryEntry} {fileName fixed : Name}
    {sizes : List Nat} (named : entry.getFileName = .ok fileName)
    (short : fileName.length ≤ 251)
    (converted : convertName fileName = .ok fixed)
    (sized : childSizes entry = .ok sizes)
    (small : 191 + sizes.sum + 2048 < 2 ^ 31) :
    ∃ extentSize, entry.getExtentSizeInLb = .ok extentSize := by
  obtain ⟨current, first⟩ := exists_directorySize named short converted 3
  obtain ⟨parent, second⟩ := exists_directorySize named short converted 2
  have firstSize := headSizes_eq (by omega) (by omega) first
  have secondSize := headSizes_eq (by omega) (by omega) second
  have start : (1, current + parent).2 + sizes.sum + 2048 < 2 ^ 31 := by
    rw [firstSize, secondSize]
    exact small
  obtain ⟨last, folded⟩ := extentFold_returns sized start
  refine ⟨last.1, ?_⟩
  rw [getExtentSizeInLb_sources, except_bind_eq_ok]
  exact ⟨current, first, except_bind_eq_ok.mpr
    ⟨parent, second, except_bind_eq_ok.mpr ⟨last, folded, rfl⟩⟩⟩

/-- The planned blocks reach at most two blocks behind the records. -/
theorem extentSize_le {entry : DirectoryEntry} {extentSize : Nat}
    {sizes : List Nat} (root : Bool)
    (measured : entry.getExtentSizeInLb = .ok extentSize)
    (sized : childSizes entry = .ok sizes) :
    extentSize * logicSize ≤
      endOf logicSize (headSize root) sizes + 4095 := by
  obtain ⟨same, sizedAgain, counted⟩ := extentSize_eq measured
  rw [sized] at sizedAgain
  cases sizedAgain
  have planned :=
    sectorsTo_endOf (childSizes_bounded sized) (headSize true)
  have first : sectorsTo logicSize (headSize true) = 1 := rfl
  have filled := add_restOf (endOf logicSize (headSize true) sizes)
  have rest :
      restOf logicSize (endOf logicSize (headSize true) sizes) < 2048 :=
    Nat.mod_lt _ (by decide)
  have head : headSize true ≤ logicSize * 1 + headSize root := by
    cases root <;> decide
  have later := endOf_mono (by decide : 0 < logicSize) head sizes
  rw [endOf_shift] at later
  have count :
      extentSize * logicSize ≤
        logicSize *
          sectorsTo logicSize (endOf logicSize (headSize true) sizes) := by
    rw [Nat.mul_comm]
    apply Nat.mul_le_mul_left
    omega
  have block : logicSize = 2048 := rfl
  omega

theorem Writable.measured {above : Option DirectoryEntry}
    {entry : DirectoryEntry} (writable : Writable above entry) :
    Measured entry := by
  have each :
      ∀ source ∈ ownSources above entry,
        ∃ size, source.size = .ok size := by
    intro source member
    obtain ⟨size, sized, _⟩ := writable.short source member
    exact ⟨size, sized⟩
  obtain ⟨sizes, sized⟩ := exists_mapM_eq_ok each
  have below := writable.below sizes sized
  obtain ⟨childs, children, reached⟩ := ownSizes_end sized
  have shifted := endOf_shift logicSize entry.lba 0 sizes
  rw [Nat.add_zero, Nat.mul_comm, reached] at shifted
  rw [shifted] at below
  have sum := le_endOf logicSize (headSize above.isNone) childs
  have head : 156 ≤ headSize above.isNone := by
    unfold headSize
    split <;> omega
  obtain ⟨current, sizedCurrent⟩ := each _ (List.mem_cons_self ..)
  obtain ⟨fileName, fixed, named, short, converted⟩ :=
    name_of_directorySize sizedCurrent
  obtain ⟨extentSize, measured⟩ :=
    exists_extentSize named short converted children (by omega)
  have planned := extentSize_le above.isNone measured children
  refine ⟨⟨extentSize, measured, ?_⟩, writable.serial⟩
  rw [Nat.add_mul]
  omega

theorem measured_emptyParent {lba : Nat} (small : lba * logicSize < 2 ^ 31) :
    Measured (emptyParent lba) := by
  have known : extentSizeOfNames (some (utf8 "dummy")) [] [] = .ok 1 := by
    with_unfolding_all decide
  have blocks : (lba + 1) * logicSize < 2 ^ 32 := by
    have block : logicSize = 2048 := rfl
    rw [Nat.add_mul, Nat.one_mul]
    omega
  have serial : lba + 0 < 2 ^ 32 := by
    unfold logicSize at small
    omega
  exact ⟨⟨1, (getExtentSizeInLb_eq (emptyParent lba)).trans known, blocks⟩,
    serial⟩

/-! ## Runs that return -/

/-- All directories of a tree can be written. -/
def AllWritable (above : Option DirectoryEntry) (tree : DirectoryEntry) :
    Prop :=
  ∀ place parent entry,
    locate above tree place = some (parent, entry) → Writable parent entry

theorem AllWritable.child {above : Option DirectoryEntry}
    {tree child : DirectoryEntry} {index : Nat}
    (writable : AllWritable above tree)
    (found : tree.dirChilds[index]? = some child) :
    AllWritable (some tree) child := by
  intro place parent entry located
  exact writable (index :: place) parent entry
    (locate_cons.mpr ⟨child, found, located⟩)

theorem directory_returns (clock : Clock) (origin : Origin)
    (output : Output Origin) {entry : DirectoryEntry}
    {directoryType size : Nat} (measured : Measured entry)
    (used : directoryType ≠ 4)
    (present :
      directoryType = 3 → entry.continuationArea.isSome = true)
    (sized : (RecordSource.directory directoryType entry).size = .ok size)
    (short : size ≤ 255)
    (below : advance logicSize output.position size + 4096 < 2 ^ 31) :
    ∃ final,
      (writeDirectoryEntry clock origin directoryType entry).run output =
          .ok () final ∧
        final.position = advance logicSize output.position size := by
  have inUse : (RecordSource.directory directoryType entry).Used := used
  have whole : (RecordSource.directory directoryType entry).missing = 0 := by
    rw [RecordSource.missing, if_neg]
    intro both
    rw [present both.1] at both
    cases both.2
  exact writeSource_returns inUse whole sized
    (measured.exists_record sized short) below

theorem files_return (clock : Clock) (origin : Origin)
    (output : Output Origin) {files : List FileEntry} {sizes : List Nat}
    (sized : (files.map RecordSource.file).mapM RecordSource.size = .ok sizes)
    (short : ∀ size ∈ sizes, size ≤ 255)
    (below : endOf logicSize output.position sizes + 4096 < 2 ^ 31) :
    ∃ final,
      (files.forM (writeFileEntry clock origin)).run output = .ok () final ∧
        final.position = endOf logicSize output.position sizes := by
  induction files generalizing sizes output with
  | nil =>
      cases sized
      exact ⟨output, rfl, rfl⟩
  | cons file files inductionHypothesis =>
      obtain ⟨size, rest, own, later, rfl⟩ := mapM_cons_eq_ok.mp sized
      have bound := le_endOf logicSize
        (advance logicSize output.position size) rest
      rw [endOf_cons] at below
      have first :
          advance logicSize output.position size + 4096 < 2 ^ 31 := by
        omega
      have used : (RecordSource.file file).Used := trivial
      obtain ⟨middle, returned, reached⟩ :=
        writeSource_returns used rfl own
          (exists_fileRecord own (short size (by simp))) first
      obtain ⟨final, looped, ended⟩ :=
        inductionHypothesis middle later
          (fun other member => short other (by simp [member]))
          (by rw [reached]; exact below)
      refine ⟨final, ?_, ?_⟩
      · rw [forM_cons_run_ok]
        exact ⟨middle, returned, looped⟩
      · rw [ended, reached]
        rfl

/-- `write_extent` returns, for a tree at any place. -/
def ReturnsExtents (clock : Clock) (tree : DirectoryEntry) : Prop :=
  ∀ place above output,
    AllWritable above tree →
    Measured (above.getD (emptyParent tree.lba)) →
    ∃ final,
      (writeExtent clock place above tree).run output = .ok () final ∧
        final.position = output.position

theorem childs_return {clock : Clock} (place : List Nat) (index : Nat)
    (output : Output Origin) {parent : DirectoryEntry}
    {childs : List DirectoryEntry} {sizes : List Nat}
    (each : ∀ child ∈ childs, ReturnsExtents clock child)
    (writable : ∀ child ∈ childs, AllWritable (some parent) child)
    (measured : Measured parent)
    (sized :
      (childs.map (RecordSource.directory 0)).mapM RecordSource.size =
        .ok sizes)
    (short : ∀ size ∈ sizes, size ≤ 255)
    (below : endOf logicSize output.position sizes + 4096 < 2 ^ 31) :
    ∃ final,
      (writeExtentChilds clock place parent index childs).run output =
          .ok () final ∧
        final.position = endOf logicSize output.position sizes := by
  induction childs generalizing index sizes output with
  | nil =>
      cases sized
      exact ⟨output, rfl, rfl⟩
  | cons child childs inductionHypothesis =>
      obtain ⟨size, rest, own, later, rfl⟩ := mapM_cons_eq_ok.mp sized
      have bound := le_endOf logicSize
        (advance logicSize output.position size) rest
      rw [endOf_cons] at below
      have next :
          advance logicSize output.position size + 4096 < 2 ^ 31 := by
        omega
      have allBelow := writable child (by simp)
      have childMeasured := (allBelow [] _ _ rfl).measured
      obtain ⟨first, recorded, reached⟩ :=
        directory_returns clock (.extent place) output childMeasured
          (by omega) (by omega) own (short size (by simp)) next
      obtain ⟨second, nested, restored⟩ :=
        each child (by simp) (place ++ [index]) (some parent) first
          allBelow measured
      obtain ⟨final, looped, ended⟩ :=
        inductionHypothesis (index + 1) second
          (fun other member => each other (by simp [member]))
          (fun other member => writable other (by simp [member])) later
          (fun other member => short other (by simp [member]))
          (by rw [restored, reached]; exact below)
      refine ⟨final, ?_, ?_⟩
      · rw [writeExtentChilds, bind_run_of_ok _ recorded,
          bind_run_of_ok _ nested, looped]
      · rw [ended, restored, reached]
        rfl

theorem area_returns {tree : DirectoryEntry} (measured : Measured tree)
    (output : Output Origin) :
    ∃ final,
      (writeContinuationArea tree).run output = .ok () final := by
  unfold writeContinuationArea
  cases tree.continuationArea with
  | none => exact ⟨output, rfl⟩
  | some data =>
      obtain ⟨extentSize, extent, fits⟩ := measured.extent
      have factor :=
        Nat.le_mul_of_pos_right (tree.lba + extentSize)
          (by decide : 0 < logicSize)
      have sum :
          addU32 tree.lba extentSize = .ok (tree.lba + extentSize) :=
        addU32_eq_ok.mpr ⟨by omega, rfl⟩
      have product :
          mulU32 (tree.lba + extentSize) logicSize =
            .ok ((tree.lba + extentSize) * logicSize) :=
        mulU32_eq_ok.mpr ⟨fits, rfl⟩
      simp only
      rw [bind_run_of_ok _ (ofExcept_run_ok.mpr ⟨extent, rfl⟩),
        bind_run_of_ok _ (ofExcept_run_ok.mpr ⟨sum, rfl⟩),
        bind_run_of_ok _ (ofExcept_run_ok.mpr ⟨product, rfl⟩)]
      exact ⟨_, rfl⟩

/-- The sizes of the records of a directory that can be written, and the
positions that they reach. -/
theorem Writable.exists_sizes {above : Option DirectoryEntry}
    {tree : DirectoryEntry} (writable : Writable above tree) :
    ∃ current parent dirs files,
      (RecordSource.directory
            (if above.isNone then 3 else 1) tree).size = .ok current ∧
        (RecordSource.directory 2
            (above.getD (emptyParent tree.lba))).size = .ok parent ∧
        (tree.dirChilds.map (RecordSource.directory 0)).mapM
            RecordSource.size = .ok dirs ∧
        (tree.filesChilds.map RecordSource.file).mapM RecordSource.size =
          .ok files ∧
        (∀ size ∈ current :: parent :: (dirs ++ files), size ≤ 255) ∧
        endOf logicSize (tree.lba * logicSize)
          (current :: parent :: (dirs ++ files)) < 2 ^ 31 - 4096 := by
  have each :
      ∀ source ∈ ownSources above tree, ∃ size, source.size = .ok size := by
    intro source member
    obtain ⟨size, sized, _⟩ := writable.short source member
    exact ⟨size, sized⟩
  obtain ⟨sizes, sized⟩ := exists_mapM_eq_ok each
  have below := writable.below sizes sized
  have short : ∀ size ∈ sizes, size ≤ 255 := by
    intro size member
    have listed :
        Except.ok size ∈ (ownSources above tree).map RecordSource.size := by
      rw [map_eq_of_mapM_eq_ok sized]
      exact List.mem_map_of_mem member
    obtain ⟨source, sourceMember, own⟩ := List.mem_map.mp listed
    obtain ⟨same, sizedAgain, bound⟩ := writable.short source sourceMember
    rw [own] at sizedAgain
    cases sizedAgain
    exact bound
  obtain ⟨current, _, first, mapped, rfl⟩ := mapM_cons_eq_ok.mp sized
  obtain ⟨parent, _, second, children, rfl⟩ := mapM_cons_eq_ok.mp mapped
  obtain ⟨dirs, files, third, fourth, rfl⟩ := mapM_append_eq_ok.mp children
  exact ⟨current, parent, dirs, files, first, second, third, fourth, short,
    below⟩

/-- Every position on the way to the end is in front of it. -/
theorem endOf_positions {start current parent limit : Nat}
    {dirs files : List Nat}
    (below :
      endOf logicSize start (current :: parent :: (dirs ++ files)) < limit) :
    start < limit ∧ advance logicSize start current < limit ∧
      advance logicSize (advance logicSize start current) parent < limit ∧
      endOf logicSize
          (advance logicSize (advance logicSize start current) parent) dirs <
        limit ∧
      endOf logicSize
          (endOf logicSize
            (advance logicSize (advance logicSize start current) parent) dirs)
          files <
        limit := by
  have whole := le_endOf logicSize start (current :: parent :: (dirs ++ files))
  rw [endOf_cons] at below whole
  have second :=
    le_endOf logicSize (advance logicSize start current)
      (parent :: (dirs ++ files))
  rw [endOf_cons, endOf_append] at below whole second
  have dirsBound :=
    le_endOf logicSize
      (advance logicSize (advance logicSize start current) parent) dirs
  have filesBound :=
    le_endOf logicSize
      (endOf logicSize
        (advance logicSize (advance logicSize start current) parent) dirs)
      files
  refine ⟨?_, ?_, ?_, ?_, below⟩ <;> omega

/-- The steps of a call of `write_extent`, put together. -/
theorem writeExtent_run_of {clock : Clock} {place : List Nat}
    {above : Option DirectoryEntry} {tree : DirectoryEntry}
    {output first second third fourth ended : Output Origin}
    (small : tree.lba * logicSize < 2 ^ 32)
    (current :
      (writeDirectoryEntry clock (.extent place)
          (if above.isNone then 3 else 1) tree).run
        (output.seeked (tree.lba * logicSize)) = .ok () first)
    (parent :
      (writeDirectoryEntry clock (.extent place) 2
          (above.getD (emptyParent tree.lba))).run first = .ok () second)
    (childs :
      (writeExtentChilds clock place tree 0 tree.dirChilds).run second =
        .ok () third)
    (files :
      (tree.filesChilds.forM (writeFileEntry clock (.extent place))).run
        third = .ok () fourth)
    (area :
      (writeContinuationArea tree).run
          (fourth.written (.extent place)
            (List.replicate (room fourth.position) 0)
            (room fourth.position)) = .ok () ended) :
    (writeExtent clock place above tree).run output =
      .ok () (ended.seeked output.position) := by
  have started : mulU32 tree.lba logicSize = .ok (tree.lba * logicSize) :=
    mulU32_eq_ok.mpr ⟨small, rfl⟩
  cases tree with
  | mk index parentIndex path dirChilds filesChilds given lba =>
      rw [writeExtent, bind_run_of_ok _ (ofExcept_run_ok.mpr ⟨started, rfl⟩),
        Output.writeAt_run_ok]
      refine ⟨ended, ?_, rfl⟩
      rw [bind_run_of_ok _ current, bind_run_of_ok _ parent,
        bind_run_of_ok _ childs, bind_run_of_ok _ files]
      exact area

theorem returnsExtents (clock : Clock) (tree : DirectoryEntry) :
    ReturnsExtents clock tree := by
  induction tree using DirectoryEntry.induction with
  | step tree inductionHypothesis =>
      intro place above output writable parentMeasured
      have own := writable [] above tree rfl
      have measured := own.measured
      obtain
        ⟨current, parent, dirs, files, sizedCurrent, sizedParent, sizedDirs,
          sizedFiles, short, below⟩ :=
          own.exists_sizes
      obtain
        ⟨startBelow, currentBelow, parentBelow, dirsBelow, filesBelow⟩ :=
          endOf_positions below
      have children :
          ∀ child ∈ tree.dirChilds, AllWritable (some tree) child := by
        intro child member
        obtain ⟨index, found⟩ := List.getElem?_of_mem member
        exact writable.child found
      have area :
          (if above.isNone then 3 else 1) = 3 →
            tree.continuationArea.isSome = true := by
        intro root
        apply own.area
        cases above with
        | none => rfl
        | some directory => cases root
      have shortDirs : ∀ size ∈ dirs, size ≤ 255 :=
        fun size member => short size (by simp [member])
      have shortFiles : ∀ size ∈ files, size ≤ 255 :=
        fun size member => short size (by simp [member])
      have seeked :
          (output.seeked (tree.lba * logicSize)).position =
            tree.lba * logicSize :=
        rfl
      obtain ⟨first, wroteCurrent, atFirst⟩ :=
        directory_returns clock (.extent place)
          (output.seeked (tree.lba * logicSize)) measured
          (by split <;> omega) area sizedCurrent (short current (by simp))
          (by rw [seeked]; omega)
      rw [seeked] at atFirst
      obtain ⟨second, wroteParent, atSecond⟩ :=
        directory_returns clock (.extent place) first parentMeasured
          (by omega) (by omega) sizedParent (short parent (by simp))
          (by rw [atFirst]; omega)
      rw [atFirst] at atSecond
      obtain ⟨third, wroteDirs, atThird⟩ :=
        childs_return place 0 second inductionHypothesis children measured
          sizedDirs shortDirs (by rw [atSecond]; omega)
      obtain ⟨fourth, wroteFiles, _⟩ :=
        files_return clock (.extent place) third sizedFiles shortFiles
          (by rw [atThird, atSecond]; omega)
      obtain ⟨ended, wroteArea⟩ :=
        area_returns measured
          (fourth.written (.extent place)
            (List.replicate (room fourth.position) 0)
            (room fourth.position))
      exact ⟨ended.seeked output.position,
        writeExtent_run_of (by omega) wroteCurrent wroteParent wroteDirs
          wroteFiles wroteArea,
        rfl⟩

/-- `write_extent` returns for a tree with short records at small positions,
and whenever it returns, a reader that starts at a directory with short
records finds them. -/
theorem writeExtent_readsBack (clock : Clock) (tree : DirectoryEntry)
    (output : Output Origin) :
    (AllWritable none tree →
      ∃ final, (writeExtent clock [] none tree).run output = .ok () final) ∧
      ∀ final,
        (writeExtent clock [] none tree).run output = .ok () final →
          ∃ added,
            final.stores = output.stores ++ added ∧
              ∀ place above entry,
                locate none tree place = some (above, entry) →
                (∀ source ∈ ownSources above entry,
                  ∀ size, source.size = .ok size → size ≤ 255) →
                ∃ bytes,
                  Tiles (entry.lba * logicSize)
                      (added.filter fun store =>
                        store.origin = .extent place)
                      bytes ∧
                    ReadsBack entry
                      (readRecords (entry.lba * logicSize) bytes) := by
  constructor
  · intro writable
    have root := writable [] none tree rfl
    obtain ⟨current, parent, dirs, files, rest⟩ := root.exists_sizes
    have start :=
      le_endOf logicSize (tree.lba * logicSize)
        (current :: parent :: (dirs ++ files))
    have below := rest.2.2.2.2.2
    obtain ⟨final, returned, _⟩ :=
      returnsExtents clock tree [] none output writable
        (measured_emptyParent (by omega))
    exact ⟨final, returned⟩
  · intro final returned
    obtain ⟨added, logged, _, _, each⟩ :=
      runsExtents clock tree _ _ _ _ _ returned
    refine ⟨added, logged, ?_⟩
    intro place above entry located short
    have written := each place above entry located
    rw [List.nil_append] at written
    exact written.readsBack short

theorem writable_of_sizes {above : Option DirectoryEntry}
    {entry : DirectoryEntry} {sizes : List Nat}
    (sized :
      (ownSources above entry).mapM RecordSource.size = .ok sizes)
    (short : ∀ size ∈ sizes, size ≤ 255)
    (below :
      endOf logicSize (entry.lba * logicSize) sizes < 2 ^ 31 - 4096)
    (serial : entry.lba + entry.pathTableIndex < 2 ^ 32)
    (area : above = none → entry.continuationArea.isSome = true) :
    Writable above entry := by
  refine ⟨?_, ?_, serial, area⟩
  · intro source member
    have listed : source.size ∈ sizes.map Except.ok := by
      rw [← map_eq_of_mapM_eq_ok sized]
      exact List.mem_map_of_mem member
    obtain ⟨size, sizeMember, same⟩ := List.mem_map.mp listed
    exact ⟨size, same.symm, short size sizeMember⟩
  · intro others sizedAgain
    rw [sized] at sizedAgain
    cases sizedAgain
    exact below

theorem allWritable_placedTree : AllWritable none placedTree := by
  intro place above entry located
  rcases place with _ | ⟨_ | index, _ | ⟨next, place⟩⟩
  · cases located
    exact writable_of_sizes
      (by with_unfolding_all decide : _ = Except.ok [113, 78, 91, 105, 105])
      (by decide) (by decide) (by decide) (by decide)
  · cases located
    exact writable_of_sizes
      (by with_unfolding_all decide : _ = Except.ok [78, 78, 105])
      (by decide) (by decide) (by decide) (by decide)
  · cases located
  · cases located
  · cases located

theorem writeExtent_readsBack_placedTree :
    ∃ final entry bytes,
      (writeExtent fixedClock [] none placedTree).run Output.empty =
          .ok () final ∧
        locate none placedTree [0] = some (some placedTree, entry) ∧
        Tiles (entry.lba * logicSize)
          (final.stores.filter fun store => store.origin = .extent [0])
          bytes ∧
        ReadsBack entry (readRecords (entry.lba * logicSize) bytes) := by
  have both :=
    writeExtent_readsBack fixedClock placedTree (Output.empty)
  obtain ⟨final, returned⟩ := both.1 allWritable_placedTree
  obtain ⟨added, logged, each⟩ := both.2 final returned
  have short :
      ∀ source ∈ ownSources (some placedTree)
          { bootDirectory with pathTableIndex := 2, lba := 26 },
        ∀ size, source.size = .ok size → size ≤ 255 := by
    intro source member size sized
    obtain ⟨same, sizedAgain, bound⟩ :=
      (allWritable_placedTree [0] _ _ rfl).short source member
    rw [sized] at sizedAgain
    cases sizedAgain
    exact bound
  obtain ⟨bytes, tiles, reads⟩ := each [0] (some placedTree) _ rfl short
  have whole : final.stores = added := logged
  rw [← whole] at tiles
  exact ⟨final, _, bytes, returned, rfl, tiles, reads⟩

end RustKernel.Iso
