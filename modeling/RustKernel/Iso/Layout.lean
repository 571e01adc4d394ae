import RustKernel.Foundations.Ranges
import RustKernel.Iso.Plan

/-!
# Disjointness of the layout

Each traversal hands out blocks from a counter that only grows, so the blocks
of the directories and those of the files ascend in the order of the
traversals.  The root is the exception: it is placed last and in front of all
others, in the room that its extent and its continuation area have left.
-/

namespace RustKernel.Iso

open RustKernel.Foundations

/-! ## Extents -/

/-- `get_extent_size_in_lb` in terms of the names that it reads. -/
def extentSizeOfNames (path : Option Name) (dirPaths : List (Option Name))
    (fileNames : List (Except Fault Name)) : Except Fault Nat := do
  let fileName ← lastComponent path
  let current ← Iso.getEntrySize 0x21 fileName 3 1
  let parent ← Iso.getEntrySize 0x21 fileName 2 1
  let counted ← dirPaths.foldlM
    (fun counted path => do
      let fileName ← lastComponent path
      let entrySize ← Iso.getEntrySize 0x21 fileName 0 1
      DirectoryEntry.extentStep counted entrySize)
    (1, current + parent)
  let counted ← fileNames.foldlM
    (fun counted name => do
      let fileName ← name
      let entrySize ← Iso.getEntrySize (0x21 + 2) fileName 0 1
      DirectoryEntry.extentStep counted entrySize)
    counted
  return counted.1

theorem getExtentSizeInLb_eq (entry : DirectoryEntry) :
    entry.getExtentSizeInLb =
      extentSizeOfNames entry.path (entry.dirChilds.map DirectoryEntry.path)
        (entry.filesChilds.map FileEntry.getFileName) := by
  unfold extentSizeOfNames DirectoryEntry.getExtentSizeInLb
    DirectoryEntry.getEntrySize DirectoryEntry.getFileName
    FileEntry.getEntrySize
  simp only [List.foldlM_map, bind_assoc, Option.getD_some]
  cases lastComponent entry.path with
  | error fault => rfl
  | ok fileName => rfl

/-- The blocks of a directory. -/
def DirectoryEntry.extent (entry : DirectoryEntry) : Except Fault Range := do
  let count ← entry.getExtentSizeInLb
  return ⟨entry.lba, count⟩

theorem Assigned.getExtentSizeInLb {parentIndex pathTableIndex lba : Nat}
    {tree planned : DirectoryEntry}
    (fields : Assigned parentIndex pathTableIndex lba tree planned)
    (paths :
      planned.dirChilds.map DirectoryEntry.path =
        tree.dirChilds.map DirectoryEntry.path) :
    planned.getExtentSizeInLb = tree.getExtentSizeInLb := by
  rw [getExtentSizeInLb_eq, getExtentSizeInLb_eq, fields.path, paths,
    fields.filesChilds]

/-- The extents of a list of directories. -/
def extents (entries : List DirectoryEntry) : Except Fault (List Range) :=
  entries.mapM DirectoryEntry.extent

theorem extents_append {first second : List DirectoryEntry}
    {front back : List Range} (begun : extents first = .ok front)
    (ended : extents second = .ok back) :
    extents (first ++ second) = .ok (front ++ back) := by
  unfold extents at begun ended ⊢
  rw [List.mapM_append, begun, ended]
  rfl

theorem extents_cons {entry : DirectoryEntry}
    {entries : List DirectoryEntry} {extentSize : Nat} {ranges : List Range}
    (sized : entry.getExtentSizeInLb = .ok extentSize)
    (rest : extents entries = .ok ranges) :
    extents (entry :: entries) = .ok (⟨entry.lba, extentSize⟩ :: ranges) := by
  unfold extents at rest ⊢
  rw [List.mapM_cons, DirectoryEntry.extent, sized, rest]
  rfl

/-- The extents of the directories below the root lie between the values of
the block counter, in their order. -/
def AssignsAscending (tree : DirectoryEntry) : Prop :=
  ∀ parentIndex pathTableIndex before after planned,
    before.lastIndex ≠ 0 →
    (assignDirectoryIdentifiers parentIndex pathTableIndex tree).run before =
      .ok planned after →
    after.lastIndex ≠ 0 ∧
      ∃ ranges, extents planned.directories = .ok ranges ∧
        Ascending before.lastLba after.lastLba ranges

theorem assignChilds_ascending {parentIndex pathTableIndex : Nat}
    {entries planned : List DirectoryEntry} {before after : Counters}
    (each : ∀ entry ∈ entries, AssignsAscending entry)
    (below : before.lastIndex ≠ 0)
    (returned :
      (assignChilds parentIndex pathTableIndex entries).run before =
        .ok planned after) :
    after.lastIndex ≠ 0 ∧
      ∃ ranges,
        extents (planned.flatMap DirectoryEntry.directories) = .ok ranges ∧
          Ascending before.lastLba after.lastLba ranges := by
  induction entries generalizing pathTableIndex planned before with
  | nil =>
      obtain ⟨rfl, rfl⟩ := assignChilds_nil_run_ok returned
      exact ⟨below, [], rfl, Nat.le_refl _⟩
  | cons entry entries inductionHypothesis =>
      obtain ⟨first, rest, middle, rfl, assigned, looped⟩ :=
        assignChilds_cons_run_ok returned
      obtain ⟨belowMiddle, front, begun, ascending⟩ :=
        each entry (by simp) _ _ _ _ _ below assigned
      obtain ⟨belowAfter, back, ended, ascendingLater⟩ :=
        inductionHypothesis
          (fun later member => each later (by simp [member])) belowMiddle
          looped
      refine ⟨belowAfter, front ++ back, ?_, ascending.append ascendingLater⟩
      rw [List.flatMap_cons]
      exact extents_append begun ended

theorem assign_ascending (tree : DirectoryEntry) : AssignsAscending tree := by
  induction tree using DirectoryEntry.induction with
  | step tree inductionHypothesis =>
      intro parentIndex pathTableIndex before after planned below returned
      obtain ⟨extentSize, index, last, sized, _, rfl, fields, _, looped⟩ :=
        assign_run_ok returned
      rw [if_neg below] at looped
      rw [if_neg below, if_neg below] at fields
      obtain ⟨belowAfter, ranges, listed, ascending⟩ :=
        assignChilds_ascending inductionHypothesis (by simp; omega)
          looped
      refine ⟨belowAfter, ⟨planned.lba, extentSize⟩ :: ranges, ?_, ?_⟩
      · rw [DirectoryEntry.directories_eq]
        apply extents_cons _ listed
        rw [fields.getExtentSizeInLb (assignChilds_paths looped), sized]
      · rw [fields.lba]
        exact ⟨Nat.le_add_right _ _, ascending⟩

theorem assignChilds_files {parentIndex pathTableIndex : Nat}
    {entries planned : List DirectoryEntry} {before after : Counters}
    (each :
      ∀ entry ∈ entries, ∀ parentIndex pathTableIndex before after planned,
        (assignDirectoryIdentifiers parentIndex pathTableIndex entry).run
            before = .ok planned after →
          planned.files = entry.files)
    (returned :
      (assignChilds parentIndex pathTableIndex entries).run before =
        .ok planned after) :
    planned.flatMap DirectoryEntry.files =
      entries.flatMap DirectoryEntry.files := by
  induction entries generalizing pathTableIndex planned before with
  | nil => rw [(assignChilds_nil_run_ok returned).1]
  | cons entry entries inductionHypothesis =>
      obtain ⟨first, rest, middle, rfl, assigned, looped⟩ :=
        assignChilds_cons_run_ok returned
      rw [List.flatMap_cons, List.flatMap_cons,
        each entry (by simp) _ _ _ _ _ assigned,
        inductionHypothesis
          (fun later member => each later (by simp [member])) looped]

/-- The first traversal leaves the files as they are. -/
theorem assign_files (tree : DirectoryEntry) :
    ∀ parentIndex pathTableIndex before after planned,
      (assignDirectoryIdentifiers parentIndex pathTableIndex tree).run
          before = .ok planned after →
        planned.files = tree.files := by
  induction tree using DirectoryEntry.induction with
  | step tree inductionHypothesis =>
      intro parentIndex pathTableIndex before after planned returned
      obtain ⟨_, _, _, _, _, _, fields, _, looped⟩ := assign_run_ok returned
      rw [DirectoryEntry.files_eq, DirectoryEntry.files_eq,
        fields.filesChilds, assignChilds_files inductionHypothesis looped]

/-- The first traversal from the root on: behind the block of the continuation
area come the extents of the other directories. -/
theorem assignDirectories_ascending {tree planned : DirectoryEntry}
    {currentLba lastLba : Nat}
    (returned :
      assignDirectories currentLba tree = .ok (planned, lastLba)) :
    ∃ extentSize ranges,
      planned.getExtentSizeInLb = .ok extentSize ∧
        planned.lba = currentLba ∧
        planned.continuationArea = tree.continuationArea ∧
        planned.files = tree.files ∧
        extents (planned.dirChilds.flatMap DirectoryEntry.directories) =
          .ok ranges ∧
        Ascending (currentLba + areaBlocks tree + extentSize) lastLba
          ranges := by
  rw [assignDirectories, except_bind_eq_ok] at returned
  obtain ⟨⟨assigned, counters⟩, begun, returned⟩ := returned
  rw [outcome_eq_ok] at begun
  cases returned
  obtain ⟨extentSize, index, last, sized, rfl, rfl, fields, _, looped⟩ :=
    assign_run_ok begun
  have children : ∀ entry ∈ tree.dirChilds, AssignsAscending entry :=
    fun entry _ => assign_ascending entry
  obtain ⟨_, ranges, listed, ascending⟩ :=
    assignChilds_ascending children (by simp) looped
  have keptSize : assigned.getExtentSizeInLb = .ok extentSize := by
    rw [fields.getExtentSizeInLb (assignChilds_paths looped), sized]
  have keptFiles : assigned.files = tree.files :=
    assign_files tree _ _ _ _ _ begun
  refine ⟨extentSize, ranges, ?_, rfl, fields.continuationArea, ?_, listed,
    ascending⟩
  · rw [getExtentSizeInLb_eq] at keptSize ⊢
    exact keptSize
  · rw [DirectoryEntry.files_eq] at keptFiles ⊢
    exact keptFiles

/-! ## The second traversal -/

/-- The blocks that `reserve_file_space` sets aside for a file. -/
def FileEntry.reserved (file : FileEntry) : Range :=
  ⟨file.lba, (file.size % 2 ^ 32 + logicSize) / logicSize⟩

/-- The file without its place. -/
def FileEntry.unplaced (file : FileEntry) : FileEntry :=
  { file with lba := 0 }

theorem reserveFiles_cons_run_iff {file : FileEntry}
    {files planned : List FileEntry} {before after : Nat} :
    (reserveFiles (file :: files)).run before = .ok planned after ↔
      file.size % 2 ^ 32 + logicSize < 2 ^ 32 ∧
        before + file.reserved.count < 2 ^ 32 ∧
        ∃ rest,
          planned = { file with lba := before } :: rest ∧
            (reserveFiles files).run (before + file.reserved.count) =
              .ok rest after := by
  rw [reserveFiles, bind_run_ok]
  simp only [ofExcept_run_ok, addU32_eq_ok]
  constructor
  · intro returned
    obtain ⟨_, _, ⟨⟨summed, rfl⟩, rfl⟩, returned⟩ := returned
    rw [bind_run_of_ok _ (get_run before), bind_run_ok] at returned
    obtain ⟨next, _, advanced, returned⟩ := returned
    rw [ofExcept_run_ok, addU32_eq_ok] at advanced
    obtain ⟨⟨fits, rfl⟩, rfl⟩ := advanced
    rw [bind_run_ok] at returned
    obtain ⟨_, _, stored, returned⟩ := returned
    cases stored
    rw [bind_run_ok] at returned
    obtain ⟨rest, _, looped, returned⟩ := returned
    rw [pure_run_ok] at returned
    obtain ⟨rfl, rfl⟩ := returned
    exact ⟨summed, fits, rest, rfl, looped⟩
  · rintro ⟨summed, fits, rest, rfl, looped⟩
    refine ⟨_, before, ⟨⟨summed, rfl⟩, rfl⟩, ?_⟩
    rw [bind_run_of_ok _ (get_run before), bind_run_ok]
    refine ⟨before + file.reserved.count, before, ?_, ?_⟩
    · rw [ofExcept_run_ok, addU32_eq_ok]
      exact ⟨⟨fits, rfl⟩, rfl⟩
    · rw [bind_run_ok]
      refine ⟨(), before + file.reserved.count, rfl, ?_⟩
      rw [bind_run_ok]
      exact ⟨rest, after, looped, rfl⟩

theorem reserveFiles_ascending {files planned : List FileEntry}
    {before after : Nat}
    (returned : (reserveFiles files).run before = .ok planned after) :
    planned.map FileEntry.unplaced = files.map FileEntry.unplaced ∧
      Ascending before after (planned.map FileEntry.reserved) := by
  induction files generalizing planned before with
  | nil =>
      rw [reserveFiles, pure_run_ok] at returned
      obtain ⟨rfl, rfl⟩ := returned
      exact ⟨rfl, Nat.le_refl _⟩
  | cons file files inductionHypothesis =>
      rw [reserveFiles_cons_run_iff] at returned
      obtain ⟨_, _, rest, rfl, looped⟩ := returned
      obtain ⟨same, ascending⟩ := inductionHypothesis looped
      refine ⟨?_, Nat.le_refl _, ascending⟩
      rw [List.map_cons, List.map_cons, same]
      rfl

/-- What `reserve_file_space` keeps of an entry. -/
structure Reserved (tree planned : DirectoryEntry) : Prop where
  pathTableIndex : planned.pathTableIndex = tree.pathTableIndex
  parentIndex : planned.parentIndex = tree.parentIndex
  path : planned.path = tree.path
  continuationArea : planned.continuationArea = tree.continuationArea
  lba : planned.lba = tree.lba

theorem reserveFileSpace_run_ok {tree planned : DirectoryEntry}
    {before after : Nat}
    (returned : (reserveFileSpace tree).run before = .ok planned after) :
    ∃ middle,
      Reserved tree planned ∧
        (reserveFiles tree.filesChilds).run before =
          .ok planned.filesChilds middle ∧
        (reserveChilds tree.dirChilds).run middle =
          .ok planned.dirChilds after := by
  cases tree with
  | mk index parent path dirChilds filesChilds area lba =>
      rw [reserveFileSpace, bind_run_ok] at returned
      obtain ⟨files, middle, reserved, returned⟩ := returned
      rw [bind_run_ok] at returned
      obtain ⟨childs, _, looped, returned⟩ := returned
      rw [pure_run_ok] at returned
      obtain ⟨rfl, rfl⟩ := returned
      exact ⟨middle, ⟨rfl, rfl, rfl, rfl, rfl⟩, reserved, looped⟩

theorem reserveChilds_cons_run_ok {entry : DirectoryEntry}
    {entries planned : List DirectoryEntry} {before after : Nat}
    (returned :
      (reserveChilds (entry :: entries)).run before = .ok planned after) :
    ∃ first rest middle,
      planned = first :: rest ∧
        (reserveFileSpace entry).run before = .ok first middle ∧
        (reserveChilds entries).run middle = .ok rest after := by
  rw [reserveChilds, bind_run_ok] at returned
  obtain ⟨first, middle, reserved, returned⟩ := returned
  rw [bind_run_ok] at returned
  obtain ⟨rest, _, looped, returned⟩ := returned
  rw [pure_run_ok] at returned
  obtain ⟨rfl, rfl⟩ := returned
  exact ⟨first, rest, middle, rfl, reserved, looped⟩

theorem Reserved.getExtentSizeInLb {tree planned : DirectoryEntry}
    (fields : Reserved tree planned)
    (paths :
      planned.dirChilds.map DirectoryEntry.path =
        tree.dirChilds.map DirectoryEntry.path)
    (same :
      planned.filesChilds.map FileEntry.unplaced =
        tree.filesChilds.map FileEntry.unplaced) :
    planned.getExtentSizeInLb = tree.getExtentSizeInLb := by
  have names := congrArg (List.map FileEntry.getFileName) same
  rw [List.map_map, List.map_map] at names
  rw [getExtentSizeInLb_eq, getExtentSizeInLb_eq, fields.path, paths]
  exact congrArg _ names

/-- The second traversal keeps the extents, and the blocks of the files lie
between the values of its counter, in their order. -/
structure Reserves (before after : Nat) (trees planned : List DirectoryEntry) :
    Prop where
  paths :
    planned.map DirectoryEntry.path = trees.map DirectoryEntry.path
  extents :
    extents (planned.flatMap DirectoryEntry.directories) =
      extents (trees.flatMap DirectoryEntry.directories)
  unplaced :
    (planned.flatMap DirectoryEntry.files).map FileEntry.unplaced =
      (trees.flatMap DirectoryEntry.files).map FileEntry.unplaced
  ascending :
    Ascending before after
      ((planned.flatMap DirectoryEntry.files).map FileEntry.reserved)

theorem Reserves.append {before middle after : Nat}
    {first second plannedFirst plannedSecond : List DirectoryEntry}
    (begun : Reserves before middle first plannedFirst)
    (ended : Reserves middle after second plannedSecond) :
    Reserves before after (first ++ second) (plannedFirst ++ plannedSecond)
    where
  paths := by
    rw [List.map_append, List.map_append, begun.paths, ended.paths]
  extents := by
    have begun := begun.extents
    have ended := ended.extents
    unfold Iso.extents at begun ended ⊢
    rw [List.flatMap_append, List.flatMap_append, List.mapM_append,
      List.mapM_append, begun, ended]
  unplaced := by
    rw [List.flatMap_append, List.flatMap_append, List.map_append,
      List.map_append, begun.unplaced, ended.unplaced]
  ascending := by
    rw [List.flatMap_append, List.map_append]
    exact begun.ascending.append ended.ascending

theorem reserveChilds_reserves {entries planned : List DirectoryEntry}
    {before after : Nat}
    (each :
      ∀ entry ∈ entries, ∀ before after planned,
        (reserveFileSpace entry).run before = .ok planned after →
          Reserves before after [entry] [planned])
    (returned : (reserveChilds entries).run before = .ok planned after) :
    Reserves before after entries planned := by
  induction entries generalizing planned before with
  | nil =>
      rw [reserveChilds, pure_run_ok] at returned
      obtain ⟨rfl, rfl⟩ := returned
      exact ⟨rfl, rfl, rfl, Nat.le_refl _⟩
  | cons entry entries inductionHypothesis =>
      obtain ⟨first, rest, middle, rfl, reserved, looped⟩ :=
        reserveChilds_cons_run_ok returned
      have begun := each entry (by simp) _ _ _ reserved
      have ended :=
        inductionHypothesis
          (fun later member => each later (by simp [member])) looped
      exact begun.append ended

theorem reserveFileSpace_reserves (tree : DirectoryEntry) :
    ∀ before after planned,
      (reserveFileSpace tree).run before = .ok planned after →
        Reserves before after [tree] [planned] := by
  induction tree using DirectoryEntry.induction with
  | step tree inductionHypothesis =>
      intro before after planned returned
      obtain ⟨middle, fields, files, looped⟩ := reserveFileSpace_run_ok returned
      have childs := reserveChilds_reserves inductionHypothesis looped
      obtain ⟨same, ascending⟩ := reserveFiles_ascending files
      have sized := fields.getExtentSizeInLb childs.paths same
      constructor
      · rw [List.map_cons, List.map_cons, fields.path]
      · have below := childs.extents
        unfold extents at below ⊢
        rw [List.flatMap_singleton, List.flatMap_singleton,
          DirectoryEntry.directories_eq, DirectoryEntry.directories_eq,
          List.mapM_cons, List.mapM_cons, below, DirectoryEntry.extent,
          DirectoryEntry.extent, sized, fields.lba]
      · rw [List.flatMap_singleton, List.flatMap_singleton,
          DirectoryEntry.files_eq, DirectoryEntry.files_eq, List.map_append,
          List.map_append, same, childs.unplaced]
      · rw [List.flatMap_singleton, DirectoryEntry.files_eq, List.map_append]
        exact ascending.append childs.ascending

/-! ## The plan as a whole -/

/-- The blocks that the contents of a file take. -/
def FileEntry.blocks (file : FileEntry) : Range :=
  ⟨file.lba, max 1 ((file.size + (logicSize - 1)) / logicSize)⟩

theorem blocks_within_reserved {files : List FileEntry}
    (small : ∀ file ∈ files, file.size < 2 ^ 32) :
    List.Forall₂
      (fun range short =>
        short.start = range.start ∧ short.count ≤ range.count)
      (files.map FileEntry.reserved) (files.map FileEntry.blocks) := by
  induction files with
  | nil => exact List.Forall₂.nil
  | cons file files inductionHypothesis =>
      refine List.Forall₂.cons ⟨rfl, ?_⟩
        (inductionHypothesis fun later member => small later (by simp [member]))
      have fits := small file (by simp)
      have whole : file.size % 2 ^ 32 = file.size := Nat.mod_eq_of_lt fits
      simp only [FileEntry.blocks, FileEntry.reserved, whole, logicSize]
      omega

/-- The blocks of a planned tree: the extent of the root, one block for the
continuation area, the extents of the other directories and the contents of
the files. -/
structure Layout (start finalLba extentSize lastLba : Nat)
    (ranges : List Range) (tree : DirectoryEntry) : Prop where
  lba : tree.lba = start
  sized : tree.getExtentSizeInLb = .ok extentSize
  area : tree.continuationArea = some rockRidgeArea
  below :
    extents (tree.dirChilds.flatMap DirectoryEntry.directories) = .ok ranges
  directories : Ascending (start + extentSize + 1) lastLba ranges
  files : Ascending lastLba finalLba (tree.files.map FileEntry.blocks)

theorem small_of_unplaced {files planned : List FileEntry}
    (same : planned.map FileEntry.unplaced = files.map FileEntry.unplaced)
    (small : ∀ file ∈ files, file.size < 2 ^ 32) :
    ∀ file ∈ planned, file.size < 2 ^ 32 := by
  intro file member
  have listed : file.unplaced ∈ files.map FileEntry.unplaced := by
    rw [← same]
    exact List.mem_map_of_mem member
  obtain ⟨original, originalMember, unplaced⟩ := List.mem_map.mp listed
  have sizes : original.unplaced.size = file.unplaced.size := by
    rw [unplaced]
  change original.size = file.size at sizes
  rw [← sizes]
  exact small original originalMember

theorem layout_of_reserved {start lastLba finalLba : Nat}
    {tree assigned reserved : DirectoryEntry}
    (area : tree.continuationArea = some rockRidgeArea)
    (small : ∀ file ∈ tree.files, file.size < 2 ^ 32)
    (numbered : assignDirectories start tree = .ok (assigned, lastLba))
    (placed : (reserveFileSpace assigned).run lastLba = .ok reserved finalLba) :
    ∃ extentSize ranges,
      Layout start finalLba extentSize lastLba ranges reserved := by
  obtain ⟨extentSize, ranges, sized, lba, keptArea, files, listed, ascending⟩ :=
    assignDirectories_ascending numbered
  have blocks : areaBlocks tree = 1 := if_pos (by rw [area]; rfl)
  rw [blocks] at ascending
  have reserves := reserveFileSpace_reserves assigned _ _ _ placed
  have unplaced := reserves.unplaced
  have contents := reserves.ascending
  rw [List.flatMap_singleton, List.flatMap_singleton, files] at unplaced
  rw [List.flatMap_singleton] at contents
  obtain ⟨middle, fields, own, looped⟩ := reserveFileSpace_run_ok placed
  have childs :=
    reserveChilds_reserves
      (fun entry _ => reserveFileSpace_reserves entry) looped
  refine ⟨extentSize, ranges, ?_⟩
  constructor
  · rw [fields.lba, lba]
  · rw [fields.getExtentSizeInLb childs.paths (reserveFiles_ascending own).1,
      sized]
  · rw [fields.continuationArea, keptArea, area]
  · rw [childs.extents, listed]
  · exact ascending.lower (by omega)
  · exact contents.shorten
      (blocks_within_reserved (small_of_unplaced unplaced small))

theorem blocks_of_filled {front back : List FileEntry} {catalog : FileEntry}
    (opt : Opt) (eltoritoLba : Nat) :
    List.Forall₂
      (fun range short =>
        short.start = range.start ∧ short.count ≤ range.count)
      ((front ++ catalog :: back).map FileEntry.blocks)
      ((front ++ filledCatalog opt eltoritoLba catalog :: back).map
        FileEntry.blocks) := by
  induction front with
  | nil =>
      refine List.Forall₂.cons ⟨rfl, ?_⟩ ?_
      · simp only [FileEntry.blocks, filledCatalog, logicSize]
        omega
      · exact List.forall₂_same.mpr fun range _ => ⟨rfl, Nat.le_refl _⟩
  | cons head front inductionHypothesis =>
      exact List.Forall₂.cons ⟨rfl, Nat.le_refl _⟩ inductionHypothesis

theorem Layout.fill {start finalLba extentSize lastLba : Nat}
    {ranges : List Range} {opt : Opt} {value : Name}
    {tree planned : DirectoryEntry}
    (layout : Layout start finalLba extentSize lastLba ranges tree)
    (returned : fillBootCatalog opt value tree = .ok planned) :
    Layout start finalLba extentSize lastLba ranges planned := by
  obtain ⟨eltoritoBootFile, catalog, front, back, _, first, rfl⟩ :=
    fillBootCatalog_eq_ok returned
  refine ⟨layout.lba, ?_, layout.area, layout.below, layout.directories, ?_⟩
  · have sized := layout.sized
    rw [getExtentSizeInLb_eq, first.split, List.map_append, List.map_cons,
      first.named] at sized
    rw [getExtentSizeInLb_eq, List.map_append, List.map_cons]
    exact sized
  · have files := layout.files
    rw [DirectoryEntry.files_eq, first.split] at files
    rw [DirectoryEntry.files_eq]
    apply files.shorten
    rw [List.append_assoc, List.append_assoc, List.cons_append,
      List.cons_append]
    exact blocks_of_filled opt eltoritoBootFile.lba

/-- The layout traversal by traversal. -/
theorem planLayout_eq_ok {opt : Opt} {pathTableStartLba finalLba : Nat}
    {tree planned : DirectoryEntry}
    (returned :
      planLayout opt pathTableStartLba tree = .ok (planned, finalLba)) :
    ∃ assigned lastLba reserved,
      assignDirectories (pathTableStartLba + 4)
          { tree with continuationArea := some rockRidgeArea } =
          .ok (assigned, lastLba) ∧
        (reserveFileSpace assigned).run lastLba = .ok reserved finalLba ∧
        fillIfBootable opt reserved = .ok planned := by
  rw [planLayout, except_bind_eq_ok] at returned
  obtain ⟨currentLba, started, returned⟩ := returned
  rw [addU32_eq_ok] at started
  obtain ⟨_, rfl⟩ := started
  rw [except_bind_eq_ok] at returned
  obtain ⟨⟨assigned, lastLba⟩, numbered, returned⟩ := returned
  rw [except_bind_eq_ok] at returned
  obtain ⟨⟨reserved, final⟩, placed, returned⟩ := returned
  rw [outcome_eq_ok] at placed
  rw [except_bind_eq_ok] at returned
  obtain ⟨filled, filling, closed⟩ := returned
  cases closed
  exact ⟨assigned, lastLba, reserved, numbered, placed, filling⟩

theorem planLayout_layout {opt : Opt} {pathTableStartLba finalLba : Nat}
    {tree planned : DirectoryEntry}
    (small : ∀ file ∈ tree.files, file.size < 2 ^ 32)
    (returned :
      planLayout opt pathTableStartLba tree = .ok (planned, finalLba)) :
    ∃ extentSize lastLba ranges,
      Layout (pathTableStartLba + 4) finalLba extentSize lastLba ranges
        planned := by
  obtain ⟨assigned, lastLba, reserved, numbered, placed, filling⟩ :=
    planLayout_eq_ok returned
  have sameFiles :
      { tree with continuationArea := some rockRidgeArea }.files =
        tree.files := by
    rw [DirectoryEntry.files_eq, DirectoryEntry.files_eq]
  obtain ⟨extentSize, ranges, layout⟩ :=
    layout_of_reserved rfl (by rw [sameFiles]; exact small) numbered
      placed
  refine ⟨extentSize, lastLba, ranges, ?_⟩
  unfold fillIfBootable at filling
  cases boot : opt.eltoritoBoot with
  | none =>
      rw [boot] at filling
      cases filling
      exact layout
  | some value =>
      rw [boot] at filling
      exact layout.fill filling

theorem planLayout_disjoint {opt : Opt} {pathTableStartLba finalLba : Nat}
    {tree planned : DirectoryEntry}
    (small : ∀ file ∈ tree.files, file.size < 2 ^ 32)
    (returned :
      planLayout opt pathTableStartLba tree = .ok (planned, finalLba)) :
    ∃ extentSize dirRanges,
      planned.getExtentSizeInLb = .ok extentSize ∧
        extents planned.directories = .ok dirRanges ∧
        (dirRanges ++ ⟨planned.lba + extentSize, 1⟩ ::
            planned.files.map FileEntry.blocks).Pairwise Range.Disjoint ∧
        ∀ range ∈
            dirRanges ++ ⟨planned.lba + extentSize, 1⟩ ::
              planned.files.map FileEntry.blocks,
          pathTableStartLba + 4 ≤ range.start ∧ range.stop ≤ finalLba := by
  obtain ⟨extentSize, lastLba, ranges, layout⟩ :=
    planLayout_layout small returned
  have listed :
      extents planned.directories =
        .ok (⟨planned.lba, extentSize⟩ :: ranges) := by
    rw [DirectoryEntry.directories_eq]
    exact extents_cons layout.sized layout.below
  refine ⟨extentSize, _, layout.sized, listed, ?_⟩
  have directories := layout.directories
  rw [← layout.lba] at directories
  have ascending :
      Ascending (pathTableStartLba + 4) finalLba
        (⟨planned.lba, extentSize⟩ :: ⟨planned.lba + extentSize, 1⟩ ::
          (ranges ++ planned.files.map FileEntry.blocks)) :=
    ⟨by rw [layout.lba], Nat.le_refl _, directories.append layout.files⟩
  have reordered :
      List.Perm
        (⟨planned.lba, extentSize⟩ :: ⟨planned.lba + extentSize, 1⟩ ::
          (ranges ++ planned.files.map FileEntry.blocks))
        ((⟨planned.lba, extentSize⟩ :: ranges) ++
          ⟨planned.lba + extentSize, 1⟩ ::
            planned.files.map FileEntry.blocks) :=
    List.Perm.cons _ List.perm_middle.symm
  constructor
  · exact (reordered.pairwise_iff Range.Disjoint.symm).mp
      ascending.pairwise_disjoint
  · intro range member
    exact ascending.bounds range (reordered.mem_iff.mpr member)

/-! ## A bootable tree -/

def regularFile (name : String) (contents : List UInt8) : FileEntry :=
  ⟨.regular (some (utf8 name)) contents, contents.length, 0, 0⟩

def bootDirectory : DirectoryEntry :=
  { DirectoryEntry.new with
    path := some (utf8 "boot")
    filesChilds := [regularFile "loader.bin" [0xEB, 0xFE]] }

/-- A root with a catalog, a file and a directory with the boot file. -/
def bootTree : DirectoryEntry :=
  { createBootCatalog DirectoryEntry.new with
    path := some (utf8 "input")
    dirChilds := [bootDirectory]
    filesChilds :=
      (createBootCatalog DirectoryEntry.new).filesChilds ++
        [regularFile "readme.txt" [0x68, 0x69]] }

def bootOpt : Opt :=
  ⟨some (utf8 "boot/loader.bin"), false, false, false, none, none, 4, false⟩

theorem planLayout_disjoint_bootTree :
    ∃ planned finalLba extentSize dirRanges,
      planLayout bootOpt 20 bootTree = .ok (planned, finalLba) ∧
        planned.getExtentSizeInLb = .ok extentSize ∧
        extents planned.directories = .ok dirRanges ∧
        (dirRanges ++ ⟨planned.lba + extentSize, 1⟩ ::
          planned.files.map FileEntry.blocks).Pairwise Range.Disjoint := by
  obtain ⟨⟨planned, finalLba⟩, returned⟩ :=
    except_eq_ok_of_isOk
      (by with_unfolding_all decide :
        (planLayout bootOpt 20 bootTree).isOk = true)
  obtain ⟨extentSize, dirRanges, sized, listed, disjoint, _⟩ :=
    planLayout_disjoint (by decide) returned
  exact ⟨planned, finalLba, extentSize, dirRanges, returned, sized, listed,
    disjoint⟩

end RustKernel.Iso
