import RustKernel.Foundations.FileRegions
import RustKernel.Iso.Image
import RustKernel.Iso.Placement

/-!
# The contents of the files in the image

The contents of the files are written last but one, each inside the blocks of
its file, and the zeros behind them start at the end of the image.  So every
file still has its contents where the run ends.
-/

namespace RustKernel.Iso

open RustKernel.Foundations
open RustKernel.Machine

/-! ## The contents of one file -/

/-- The bytes of the blocks of a file. -/
def FileEntry.Region (file : FileEntry) (target : Nat) : Prop :=
  logicSize * file.blocks.start ≤ target ∧
    target < logicSize * file.blocks.stop

theorem FileEntry.region_disjoint {first second : FileEntry} {target : Nat}
    (disjoint : Range.Disjoint first.blocks second.blocks)
    (own : first.Region target) : ¬ second.Region target := by
  intro other
  unfold FileEntry.Region logicSize at own other
  unfold Range.Disjoint at disjoint
  omega

/-- The image behind a run of `write_content`. -/
def contentWritten (file : FileEntry) (output : Output Origin) :
    Output Origin :=
  let copied :=
    (output.seeked (file.lba * logicSize)).written .file file.contents
      file.contents.length
  (copied.written .file (List.replicate (room copied.position) 0)
    (room copied.position)).seeked output.position

theorem writeContent_run_ok {file : FileEntry} {output final : Output Origin}
    {result : Unit} :
    (writeContent file).run output = .ok result final ↔
      file.lba * logicSize < 2 ^ 32 ∧ final = contentWritten file output := by
  rw [writeContent, bind_run_ok]
  simp only [ofExcept_run_ok, mulU32_eq_ok]
  constructor
  · intro returned
    obtain ⟨_, _, ⟨⟨fits, rfl⟩, rfl⟩, returned⟩ := returned
    cases returned
    exact ⟨fits, rfl⟩
  · intro both
    obtain ⟨fits, rfl⟩ := both
    exact ⟨_, output, ⟨⟨fits, rfl⟩, rfl⟩, rfl⟩

theorem contentWritten_writesIn {file : FileEntry} (sized : file.Sized)
    (output : Output Origin) :
    WritesIn file.Region output (contentWritten file output) := by
  have size : file.contents.length = file.size := sized
  have copied :
      WritesIn file.Region (output.seeked (file.lba * logicSize))
        ((output.seeked (file.lba * logicSize)).written .file file.contents
          file.contents.length) := by
    apply writesIn_written
    intro target above below
    simp only [Output.seeked, logicSize] at above below
    simp only [FileEntry.Region, FileEntry.blocks, Range.stop, logicSize]
    omega
  apply WritesIn.seeked
  refine RunRelation.trans (writesIn_seeked _ output)
    (RunRelation.trans copied (writesIn_written ?_))
  intro target above below
  rw [Output.written_position] at above below
  rw [List.length_replicate] at below
  simp only [Output.seeked, room, logicSize] at above below
  simp only [FileEntry.Region, FileEntry.blocks, Range.stop, logicSize]
  omega

theorem contentWritten_holds (file : FileEntry) (output : Output Origin) :
    Holds (file.lba * logicSize) file.contents
      (contentWritten file output) := by
  have copied :=
    holds_written .file file.contents
      (output.seeked (file.lba * logicSize))
  have padded :
      WritesIn
        (fun target =>
          file.lba * logicSize + file.contents.length ≤ target)
        _ (contentWritten file output) :=
    (writesIn_written fun target above _ => by
      rw [Output.written_position] at above
      exact above).seeked output.position
  exact padded.holds (fun target _ below => Nat.not_le_of_lt below) copied

theorem writeContent_writesIn {file : FileEntry} (sized : file.Sized) :
    Preserves (WritesIn file.Region) (writeContent file) := by
  intro output
  by_cases fits : file.lba * logicSize < 2 ^ 32
  · have written :
        (writeContent file).run output =
          .ok () (contentWritten file output) :=
      writeContent_run_ok.mpr ⟨fits, rfl⟩
    rw [written]
    exact contentWritten_writesIn sized output
  · have stopped : mulU32 file.lba logicSize = .error (.panic .overflow) :=
      if_neg fits
    rw [writeContent, bind_run, stopped]
    exact RunRelation.refl output

/-! ## The contents of all files -/

namespace DirectoryEntry

mutual

/-- The files of a tree in the order of `write_files`. -/
def writtenFiles : DirectoryEntry → List FileEntry
  | ⟨_, _, _, dirChilds, filesChilds, _, _⟩ =>
      writtenFilesOf dirChilds ++ filesChilds

def writtenFilesOf : List DirectoryEntry → List FileEntry
  | [] => []
  | entry :: entries => entry.writtenFiles ++ writtenFilesOf entries

end

theorem writtenFilesOf_perm {entries : List DirectoryEntry}
    (each : ∀ entry ∈ entries, entry.writtenFiles.Perm entry.files) :
    (writtenFilesOf entries).Perm (entries.flatMap files) := by
  induction entries with
  | nil => exact List.Perm.nil
  | cons entry entries inductionHypothesis =>
      rw [writtenFilesOf, List.flatMap_cons]
      exact (each entry (by simp)).append
        (inductionHypothesis fun later member => each later (by simp [member]))

theorem writtenFiles_perm (entry : DirectoryEntry) :
    entry.writtenFiles.Perm entry.files := by
  induction entry using DirectoryEntry.induction with
  | step entry inductionHypothesis =>
      have below := writtenFilesOf_perm inductionHypothesis
      rw [files_eq]
      cases entry with
      | mk index parent path dirChilds filesChilds area lba =>
          rw [writtenFiles]
          exact (below.append_right filesChilds).trans
            List.perm_append_comm

end DirectoryEntry

open DirectoryEntry

theorem writeFilesBelow_run {entries : List DirectoryEntry}
    (each :
      ∀ entry ∈ entries, ∀ output,
        (writeFiles entry).run output =
          (entry.writtenFiles.forM writeContent).run output)
    (output : Output Origin) :
    (writeFilesBelow entries).run output =
      ((writtenFilesOf entries).forM writeContent).run output := by
  induction entries generalizing output with
  | nil => rfl
  | cons entry entries inductionHypothesis =>
      rw [writeFilesBelow, writtenFilesOf, List.forM_eq_forM,
        List.forM_append, bind_run, bind_run, each entry (by simp) output,
        List.forM_eq_forM]
      cases (forM entry.writtenFiles writeContent).run output with
      | error fault middle => rfl
      | ok value middle =>
          exact inductionHypothesis
            (fun later member => each later (by simp [member])) middle

theorem writeFiles_run (tree : DirectoryEntry) :
    ∀ output,
      (writeFiles tree).run output =
        (tree.writtenFiles.forM writeContent).run output := by
  induction tree using DirectoryEntry.induction with
  | step tree inductionHypothesis =>
      intro output
      cases tree with
      | mk index parent path dirChilds filesChilds area lba =>
          rw [writeFiles, writtenFiles, List.forM_eq_forM, List.forM_append,
            bind_run, bind_run, writeFilesBelow_run inductionHypothesis,
            List.forM_eq_forM]

/-- What the run leaves of a file: its block has an address, and the contents
are there. -/
def FileEntry.Stored (file : FileEntry) (output : Output Origin) : Prop :=
  file.lba * logicSize < 2 ^ 32 ∧
    Holds (file.lba * logicSize) file.contents output

theorem FileEntry.Stored.kept {file : FileEntry} {region : Nat → Prop}
    {before after : Output Origin} (stored : file.Stored before)
    (sized : file.Sized) (writes : WritesIn region before after)
    (outside : ∀ target, file.Region target → ¬ region target) :
    file.Stored after := by
  refine ⟨stored.1, writes.holds ?_ stored.2⟩
  intro target above below
  apply outside
  have size : file.contents.length = file.size := sized
  simp only [logicSize] at above below
  simp only [FileEntry.Region, FileEntry.blocks, Range.stop, logicSize]
  omega

/-- The order of the writes does not matter: no file is stored in the blocks
of another. -/
theorem writeFiles_stored {tree : DirectoryEntry}
    {output final : Output Origin} {result : Unit}
    (sized : ∀ file ∈ tree.files, file.Sized)
    (disjoint :
      (tree.files.map FileEntry.blocks).Pairwise Range.Disjoint)
    (returned : (writeFiles tree).run output = .ok result final) :
    ∀ file ∈ tree.files, file.Stored final := by
  have order := tree.writtenFiles_perm
  have apart :
      (tree.writtenFiles.map FileEntry.blocks).Pairwise Range.Disjoint :=
    ((order.map FileEntry.blocks).pairwise_iff Range.Disjoint.symm).mpr
      disjoint
  rw [writeFiles_run] at returned
  rw [List.pairwise_map] at apart
  have each : ∀ file ∈ tree.writtenFiles, file.Stored final := by
    refine forM_run_ok_each ?_ ?_ returned
    · intro file _ before after written
      obtain ⟨fits, rfl⟩ := writeContent_run_ok.mp written
      exact ⟨fits, contentWritten_holds file before⟩
    · apply apart.imp_of_mem
      intro earlier later earlierMember laterMember disjoint before stored
      have writes :=
        writeContent_writesIn (sized later (order.mem_iff.mp laterMember))
          before
      exact stored.kept (sized earlier (order.mem_iff.mp earlierMember))
        writes fun target => FileEntry.region_disjoint disjoint
  intro file member
  exact each file (order.mem_iff.mpr member)

/-! ## The run as a whole -/

theorem writeTrailer_run_ok {output final : Output Origin} {result : Unit}
    (returned : (writeTrailer).run output = .ok result final) :
    WritesIn (fun target => output.length ≤ target) output final := by
  have zeros :
      Preserves (StaysBehind output.length)
        ((List.replicate 128 logicSize).forM
          (Output.writeZeros Origin.trailer) : Writer Unit) :=
    Preserves.forM fun count _ => staysBehind_writeZeros Origin.trailer count
  rw [writeTrailer, bind_run_of_ok _ (Output.seekEnd_run output),
    bind_run_ok] at returned
  obtain ⟨_, ended, looped, closed⟩ := returned
  cases closed
  have written := (zeros.of_run_ok looped (Nat.le_refl _)).2
  exact (RunRelation.trans (writesIn_seeked _ output) written).seeked _

/-- The runs that make up one of `create_iso`. -/
structure Stages (clock : Clock) (opt : Opt) (tree : DirectoryEntry)
    (lbCount : Nat)
    (output area described marked tabled extended filed final :
      Output Origin) : Prop where
  systemArea : (writeSystemArea opt tree lbCount).run output = .ok () area
  descriptors :
    ((generateVolumeDescriptors opt).forM
      (writeVolume clock tree (pathTableStartLba opt) lbCount)).run area =
      .ok () described
  mki : (writeMki).run described = .ok () marked
  pathTables :
    (writePathTables tree (pathTableStartLba opt)).run marked =
      .ok () tabled
  extents : (writeExtent clock [] none tree).run tabled = .ok () extended
  files : (writeFiles tree).run extended = .ok () filed
  trailer : (writeTrailer).run filed = .ok () final

theorem writeImage_run_ok {clock : Clock} {opt : Opt} {tree : DirectoryEntry}
    {lbCount : Nat} {output final : Output Origin} {result : Unit}
    (returned :
      (writeImage clock opt tree lbCount).run output = .ok result final) :
    ∃ area described marked tabled extended filed,
      Stages clock opt tree lbCount output area described marked tabled
        extended filed final := by
  rw [writeImage, bind_run_ok] at returned
  obtain ⟨_, area, systemArea, returned⟩ := returned
  rw [bind_run_ok] at returned
  obtain ⟨_, described, descriptors, returned⟩ := returned
  rw [bind_run_ok] at returned
  obtain ⟨_, marked, mki, returned⟩ := returned
  rw [bind_run_ok] at returned
  obtain ⟨_, tabled, pathTables, returned⟩ := returned
  rw [bind_run_ok] at returned
  obtain ⟨_, extended, extents, returned⟩ := returned
  rw [bind_run_ok] at returned
  obtain ⟨_, filed, files, trailer⟩ := returned
  exact ⟨area, described, marked, tabled, extended, filed, systemArea,
    descriptors, mki, pathTables, extents, files, trailer⟩

theorem createIso_run_ok {clock : Clock} {opt : Opt}
    {inputFiles : List HostEntry} {output final : Output Origin}
    {result : Unit}
    (returned :
      (createIso clock opt inputFiles).run output = .ok result final) :
    ∃ tree finalLba,
      planImage opt inputFiles = .ok (tree, finalLba) ∧
        (writeImage clock opt tree finalLba).run output = .ok () final := by
  rw [createIso, bind_run_ok] at returned
  obtain ⟨⟨tree, finalLba⟩, _, planned, returned⟩ := returned
  rw [ofExcept_run_ok] at planned
  obtain ⟨planned, rfl⟩ := planned
  exact ⟨tree, finalLba, planned, returned⟩

theorem planImage_eq_ok {opt : Opt} {inputFiles : List HostEntry}
    {tree : DirectoryEntry} {finalLba : Nat}
    (infoTable : opt.bootInfoTable = false)
    (grub2 : opt.grub2BootInfo = false)
    (planned : planImage opt inputFiles = .ok (tree, finalLba)) :
    ∃ scanned,
      scanInputs opt inputFiles = .ok scanned ∧
        planLayout opt (pathTableStartLba opt) scanned =
          .ok (tree, finalLba) := by
  rw [planImage, except_bind_eq_ok] at planned
  obtain ⟨scanned, scan, planned⟩ := planned
  rw [except_bind_eq_ok] at planned
  obtain ⟨⟨laidOut, currentLba⟩, layout, planned⟩ := planned
  have unpatched : patchIfAsked opt laidOut = .ok laidOut := by
    rw [patchIfAsked, infoTable, grub2]
    exact if_neg (by simp)
  simp only at planned
  rw [unpatched] at planned
  cases planned
  exact ⟨scanned, scan, layout⟩

theorem Stages.stored {clock : Clock} {opt : Opt} {tree : DirectoryEntry}
    {lbCount : Nat}
    {output area described marked tabled extended filed final :
      Output Origin}
    (stages :
      Stages clock opt tree lbCount output area described marked tabled
        extended filed final)
    (sized : ∀ file ∈ tree.files, file.Sized)
    (disjoint :
      (tree.files.map FileEntry.blocks).Pairwise Range.Disjoint) :
    ∀ file ∈ tree.files, file.Stored final := by
  intro file member
  have stored := writeFiles_stored sized disjoint stages.files file member
  exact ⟨stored.1,
    (writeTrailer_run_ok stages.trailer).holds_behind stored.2⟩

/-- What the plan says of the files that are to be written. -/
theorem planned_files {opt : Opt} {inputFiles : List HostEntry}
    {scanned tree : DirectoryEntry} {finalLba : Nat}
    (scan : scanInputs opt inputFiles = .ok scanned)
    (small : ∀ file ∈ scanned.files, file.size < 2 ^ 32)
    (layout :
      planLayout opt (pathTableStartLba opt) scanned =
        .ok (tree, finalLba)) :
    List.Forall₂ (FileEntry.PlannedFrom opt) scanned.files tree.files ∧
      (∀ file ∈ tree.files, file.Sized) ∧
      (tree.files.map FileEntry.blocks).Pairwise Range.Disjoint := by
  obtain ⟨sizedScanned, catalogFirst⟩ := scanInputs_eq_ok scan
  have each := planLayout_files catalogFirst layout
  obtain ⟨_, _, _, laidOut⟩ := planLayout_layout small layout
  exact ⟨each, sized_of_planned each sizedScanned,
    laidOut.files.pairwise_disjoint⟩

/-- The files of the inputs and the catalog are the files of the planned tree,
and each has its contents in the image. -/
theorem createIso_contents {clock : Clock} {opt : Opt}
    {inputFiles : List HostEntry} {scanned tree : DirectoryEntry}
    {finalLba : Nat} {final : Output Origin}
    (infoTable : opt.bootInfoTable = false)
    (grub2 : opt.grub2BootInfo = false)
    (scan : scanInputs opt inputFiles = .ok scanned)
    (small : ∀ file ∈ scanned.files, file.size < 2 ^ 32)
    (planned : planImage opt inputFiles = .ok (tree, finalLba))
    (returned :
      (createIso clock opt inputFiles).run Output.empty = .ok () final) :
    List.Forall₂ (FileEntry.PlannedFrom opt) scanned.files tree.files ∧
      ∀ file ∈ tree.files,
        bytesAt final.bytes (logicSize * file.lba) file.size =
          file.contents := by
  obtain ⟨own, ownScan, layout⟩ := planImage_eq_ok infoTable grub2 planned
  rw [scan] at ownScan
  cases ownScan
  obtain ⟨each, sized, disjoint⟩ := planned_files scan small layout
  obtain ⟨_, _, samePlan, written⟩ := createIso_run_ok returned
  rw [planned] at samePlan
  cases samePlan
  obtain ⟨_, _, _, _, _, _, stages⟩ := writeImage_run_ok written
  refine ⟨each, ?_⟩
  intro file member
  have holds := (stages.stored sized disjoint file member).2
  have size : file.contents.length = file.size := sized file member
  rw [← size, Nat.mul_comm]
  exact holds.bytesAt_eq

/-! ## A bootable image -/

def bootInputs : List HostEntry :=
  [.directory (.text (utf8 "boot"))
      (some [.file (.text (utf8 "loader.bin")) [0xEB, 0xFE]]),
    .file (.text (utf8 "readme.txt")) [0x68, 0x69]]

def someClock : Clock := fun _ => ⟨2024, 1, 2, 3, 4, 5⟩

def bootLoader : FileEntry :=
  ⟨.regular (some (utf8 "loader.bin")) [0xEB, 0xFE], 2, 0, 2048⟩

theorem scanInputs_bootInputs :
    ∃ scanned,
      scanInputs bootOpt bootInputs = .ok scanned ∧
        (∀ file ∈ scanned.files, file.size < 2 ^ 32) ∧
        scanned.getFile (utf8 "boot/loader.bin") = .ok (some bootLoader) := by
  have known :
      (scanInputs bootOpt bootInputs).map (fun scanned =>
        decide
          ((∀ file ∈ scanned.files, file.size < 2 ^ 32) ∧
            scanned.getFile (utf8 "boot/loader.bin") =
              .ok (some bootLoader))) = .ok true := by
    with_unfolding_all decide
  cases scan : scanInputs bootOpt bootInputs with
  | error fault =>
      rw [scan] at known
      cases known
  | ok scanned =>
      rw [scan] at known
      refine ⟨scanned, rfl, ?_⟩
      simpa [Except.map] using known

theorem createIso_bootInputs :
    ∃ final,
      (createIso someClock bootOpt bootInputs).run Output.empty =
        .ok () final := by
  obtain ⟨⟨_, final⟩, run⟩ :=
    except_eq_ok_of_isOk
      (by decide +kernel :
        (outcome (createIso someClock bootOpt bootInputs)
          Output.empty).isOk = true)
  exact ⟨final, outcome_eq_ok.mp run⟩

theorem createIso_contents_bootInputs :
    ∃ scanned tree finalLba final,
      scanInputs bootOpt bootInputs = .ok scanned ∧
        planImage bootOpt bootInputs = .ok (tree, finalLba) ∧
        (createIso someClock bootOpt bootInputs).run Output.empty =
          .ok () final ∧
        List.Forall₂ (FileEntry.PlannedFrom bootOpt) scanned.files
          tree.files ∧
        ∀ file ∈ tree.files,
          bytesAt final.bytes (logicSize * file.lba) file.size =
            file.contents := by
  obtain ⟨final, run⟩ := createIso_bootInputs
  obtain ⟨tree, finalLba, planned, _⟩ := createIso_run_ok run
  obtain ⟨scanned, scan, small, _⟩ := scanInputs_bootInputs
  obtain ⟨each, contents⟩ := createIso_contents rfl rfl scan small planned run
  exact ⟨scanned, tree, finalLba, final, scan, planned, run, each, contents⟩

end RustKernel.Iso
