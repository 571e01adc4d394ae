import RustKernel.Iso.ExtentContents
import RustKernel.Iso.ExtentDecode

/-!
# Mounting the image

A reader of ISO 9660 with Rock Ridge starts at the record of the root in the
primary descriptor and goes down from extent to extent.  From the image that
`create_iso` leaves it gets the tree of the inputs back: the names, the
directories and the contents of all files.
-/

namespace RustKernel.Iso

open RustKernel.Foundations
open RustKernel.Machine
open DirectoryEntry

/-! ## The reader -/

/-- What a reader shows of a volume. -/
inductive MountedEntry where
  | directory (name : Name) (childs : List MountedEntry)
  | file (name : Name) (contents : List UInt8)

/-- A child by its record; directories are read by the given function. -/
def mountRecord (bytes : List UInt8)
    (mountBelow : Nat → Nat → Option (List MountedEntry))
    (decoded : Decoded) : Option MountedEntry := do
  let name ← decoded.name
  if decoded.directory then
    let childs ← mountBelow decoded.lba decoded.extentSize
    return .directory name childs
  else
    return .file name
      (bytesAt bytes (decoded.lba * logicSize) decoded.extentSize)

/-- The children of the directory whose extent is given, as many levels down as
the first number says.  Its first records have to be those of `'.'` and
`'..'`. -/
def mountDirectory (bytes : List UInt8) :
    Nat → Nat → Nat → Option (List MountedEntry)
  | 0, _, _ => none
  | depth + 1, lba, extentSize =>
      let extent := bytesAt bytes (lba * logicSize) extentSize
      match (readRecords (lba * logicSize) extent).map
          (fun item => decodeRecord item.2) with
      | current :: parent :: childs =>
          if current.identifier = [0] ∧ parent.identifier = [1] then
            childs.mapM (mountRecord bytes (mountDirectory bytes depth))
          else
            none
      | _ => none

/-- The children of the root of a volume. -/
def mountVolume (depth : Nat) (bytes : List UInt8) :
    Option (List MountedEntry) :=
  if bytesAt bytes (0x10 * logicSize) 7 = VolumeDescriptor.primary.header then
    let root := decodeRecord (bytesAt bytes (0x10 * logicSize + 156) 34)
    mountDirectory bytes depth root.lba root.extentSize
  else
    none

/-! ## What is to be shown -/

def FileEntry.shown (file : FileEntry) : Except Fault MountedEntry := do
  let name ← file.getFileName
  return .file name file.contents

namespace DirectoryEntry

mutual

def shown : DirectoryEntry → Except Fault MountedEntry
  | ⟨_, _, path, dirChilds, filesChilds, _, _⟩ => do
      let name ← lastComponent path
      let dirs ← shownOf dirChilds
      let files ← filesChilds.mapM FileEntry.shown
      return .directory name (dirs ++ files)

def shownOf : List DirectoryEntry → Except Fault (List MountedEntry)
  | [] => .ok []
  | entry :: entries => do
      let first ← entry.shown
      let rest ← shownOf entries
      return first :: rest

end

/-- The children of a directory as they are to be shown. -/
def shownChilds (entry : DirectoryEntry) :
    Except Fault (List MountedEntry) := do
  let dirs ← entry.dirChilds.mapM shown
  let files ← entry.filesChilds.mapM FileEntry.shown
  return dirs ++ files

mutual

/-- The levels of directories in a tree. -/
def height : DirectoryEntry → Nat
  | ⟨_, _, _, dirChilds, _, _, _⟩ => heightOf dirChilds + 1

def heightOf : List DirectoryEntry → Nat
  | [] => 0
  | entry :: entries => max entry.height (heightOf entries)

end

theorem shownOf_eq (entries : List DirectoryEntry) :
    shownOf entries = entries.mapM shown := by
  induction entries with
  | nil => rfl
  | cons entry entries inductionHypothesis =>
      rw [shownOf, inductionHypothesis, List.mapM_cons]

theorem shown_eq (entry : DirectoryEntry) :
    entry.shown = do
      let name ← entry.getFileName
      let childs ← entry.shownChilds
      return .directory name childs := by
  cases entry with
  | mk index parent path dirChilds filesChilds area lba =>
      rw [shown, shownOf_eq, shownChilds]
      simp only [bind_assoc, pure_bind]
      rfl

theorem height_eq (entry : DirectoryEntry) :
    entry.height = heightOf entry.dirChilds + 1 := by
  cases entry
  rfl

theorem height_le_of_mem {entry : DirectoryEntry}
    {entries : List DirectoryEntry} (member : entry ∈ entries) :
    entry.height ≤ heightOf entries := by
  induction entries with
  | nil => cases member
  | cons head rest inductionHypothesis =>
      rw [heightOf]
      rcases List.mem_cons.mp member with rfl | later
      · exact Nat.le_max_left _ _
      · exact Nat.le_trans (inductionHypothesis later) (Nat.le_max_right _ _)

end DirectoryEntry

/-! ## One directory -/

/-- The records of all children are as short as their first byte can say. -/
def ShortRecords (tree : DirectoryEntry) : Prop :=
  ∀ directory ∈ tree.directories, ∀ source ∈ childSources directory,
    source.size.toOption.getD 0 ≤ 255

theorem shortRecords_own {tree entry : DirectoryEntry}
    {above : Option DirectoryEntry} (short : ShortRecords tree)
    (member : entry ∈ tree.directories) :
    ∀ source ∈ ownSources above entry,
      ∀ size, source.size = .ok size → size ≤ 255 := by
  intro source listed size sized
  rw [ownSources, List.mem_cons, List.mem_cons] at listed
  rcases listed with rfl | rfl | child
  · have head : size = if (if above.isNone then 3 else 1) = 3 then 113 else 78 :=
      headSizes_eq (by split <;> omega) (by split <;> omega) sized
    rw [head]
    cases above with
    | none => decide
    | some directory => exact Nat.le_of_ble_eq_true rfl
  · have head : size = if 2 = 3 then 113 else 78 :=
      headSizes_eq (by omega) (by omega) sized
    rw [head]
    decide
  · have bound := short entry member source child
    rwa [sized] at bound

/-- A record of a directory gives its block as a `u32`. -/
theorem lba_of_built {directoryType : Nat} {entry : DirectoryEntry}
    {record : List UInt8} (numbered : directoryType < 5)
    (built : (RecordSource.directory directoryType entry).Built record) :
    entry.lba < 2 ^ 32 := by
  obtain ⟨_, now, recorded⟩ := built
  obtain ⟨_, _, _, _, systemUse, _, _, _, _, _, used, _⟩ :=
    directoryRecord_eq_ok recorded
  rw [directorySystemUse, except_bind_eq_ok] at used
  obtain ⟨_, _, used⟩ := used
  rw [except_bind_eq_ok] at used
  obtain ⟨px, entered, _⟩ := used
  rw [recordPx, if_pos numbered, map_eq_pure_bind, except_bind_eq_ok]
    at entered
  obtain ⟨serialNumber, summed, _⟩ := entered
  have fits := (addU32_eq_ok.mp summed).1
  omega

theorem built_of_mem {sources : List RecordSource}
    {records : List (List UInt8)}
    (built : List.Forall₂ RecordSource.Built sources records) :
    ∀ source ∈ sources, ∃ record, source.Built record := by
  induction built with
  | nil => simp
  | cons own _ inductionHypothesis =>
      exact List.forall_mem_cons.mpr ⟨⟨_, own⟩, inductionHypothesis⟩

theorem mem_files_of_located {tree entry : DirectoryEntry}
    {above : Option DirectoryEntry} {place : List Nat} {file : FileEntry}
    (located : locate none tree place = some (above, entry))
    (member : file ∈ entry.filesChilds) : file ∈ tree.files := by
  have gathered :
      (gather (fun _ directory => directory.filesChilds) [] tree).map id =
        tree.files := by
    apply gather_map _ files_eq
    intro place directory
    exact List.map_id _
  rw [← gathered, List.map_id, mem_gather tree none]
  exact ⟨place, above, entry, located, member⟩

/-- What a record of a child is to be shown as. -/
def RecordSource.shown : RecordSource → Except Fault MountedEntry
  | .directory _ entry => entry.shown
  | .file child => child.shown

theorem shownChilds_sources (entry : DirectoryEntry) :
    entry.shownChilds = (childSources entry).mapM RecordSource.shown := by
  unfold shownChilds childSources
  rw [List.mapM_append, List.mapM_map, List.mapM_map]
  rfl

/-- Where every value that was read yields what its item yields, so do the
lists. -/
theorem exists_mapM_eq_some {sources : List RecordSource}
    {decodeds : List Decoded} {mount : Decoded → Option MountedEntry}
    (mapped : sources.mapM RecordSource.expected = .ok decodeds)
    (each :
      ∀ source ∈ sources, ∀ decoded, source.expected = .ok decoded →
        ∃ entry, source.shown = .ok entry ∧ mount decoded = some entry) :
    ∃ entries,
      sources.mapM RecordSource.shown = .ok entries ∧
        decodeds.mapM mount = some entries := by
  induction sources generalizing decodeds with
  | nil =>
      cases mapped
      exact ⟨[], rfl, rfl⟩
  | cons source sources inductionHypothesis =>
      obtain ⟨decoded, rest, own, later, rfl⟩ := mapM_cons_eq_ok.mp mapped
      obtain ⟨entry, shown, mounted⟩ := each source (by simp) decoded own
      obtain ⟨entries, shownLater, mountedLater⟩ :=
        inductionHypothesis later fun other member =>
          each other (by simp [member])
      refine ⟨entry :: entries,
        mapM_cons_eq_ok.mpr ⟨_, _, shown, shownLater, rfl⟩, ?_⟩
      rw [List.mapM_cons, mounted, mountedLater]
      rfl

/-- The bytes have the extents of all directories of a tree and the contents of
its files. -/
structure HasTree (bytes : List UInt8) (tree : DirectoryEntry) : Prop where
  extents :
    ∀ place above entry, locate none tree place = some (above, entry) →
      ExtentRead bytes above entry
  short : ShortRecords tree
  files :
    ∀ file ∈ tree.files,
      file.lba < 2 ^ 32 ∧ file.size < 2 ^ 32 ∧
        bytesAt bytes (file.lba * logicSize) file.size = file.contents

section Directory

variable {bytes : List UInt8} {tree : DirectoryEntry}

/-- A reader of an extent finds `'.'`, `'..'` and the children. -/
theorem HasTree.records (has : HasTree bytes tree) {place : List Nat}
    {above : Option DirectoryEntry} {entry : DirectoryEntry}
    (located : locate none tree place = some (above, entry)) :
    ∃ extentSize current parent childs,
      entry.getExtentSizeInLb = .ok extentSize ∧
        (readRecords (entry.lba * logicSize)
            (bytesAt bytes (entry.lba * logicSize)
              (extentSize * logicSize))).map
            (fun item => decodeRecord item.2) =
          current :: parent :: childs ∧
        current.identifier = [0] ∧ parent.identifier = [1] ∧
        (childSources entry).mapM RecordSource.expected = .ok childs ∧
        ∀ child ∈ entry.dirChilds, child.lba < 2 ^ 32 := by
  obtain ⟨extentSize, records, count, measured, built, read⟩ :=
    has.extents place above entry located
  have bounds :=
    built_bounds built
      (shortRecords_own has.short (mem_directories_of_located located))
  have scanned :
      readRecords (entry.lba * logicSize)
          (layOut logicSize (entry.lba * logicSize) records ++
            List.replicate count 0) =
        placed logicSize (entry.lba * logicSize) records := by
    apply scan_layOut
    · intro record member
      exact ⟨(bounds record member).1, (bounds record member).2.2⟩
    · decide
    · rw [List.length_append]
      exact Nat.le_add_right _ _
  obtain ⟨current, behind, first, mapped, split⟩ :=
    mapM_cons_eq_ok.mp (built_expected built)
  obtain ⟨parent, childs, second, childrenMapped, rfl⟩ :=
    mapM_cons_eq_ok.mp mapped
  obtain ⟨_, firstIdentifier⟩ := expected_identifier first
  obtain ⟨_, secondIdentifier⟩ := expected_identifier second
  refine ⟨extentSize, current, parent, childs, measured, ?_, ?_,
    secondIdentifier, childrenMapped, ?_⟩
  · rw [read, scanned, placed_map, split]
  · rw [firstIdentifier]
    cases above with
    | none => rfl
    | some directory => rfl
  · intro child member
    have listed :
        RecordSource.directory 0 child ∈ ownSources above entry := by
      simp [ownSources, childSources, member]
    obtain ⟨record, own⟩ := built_of_mem built _ listed
    exact lba_of_built (by omega) own

/-- A directory is shown by its own record when its extent is read. -/
theorem mountRecord_directory {child : DirectoryEntry} {decoded : Decoded}
    {mountBelow : Nat → Nat → Option (List MountedEntry)}
    {extentSize : Nat} {childs : List MountedEntry}
    (expected : (RecordSource.directory 0 child).expected = .ok decoded)
    (small : child.lba < 2 ^ 32)
    (measured : child.getExtentSizeInLb = .ok extentSize)
    (shown : child.shownChilds = .ok childs)
    (mounted :
      mountBelow child.lba (extentSize * logicSize) = some childs) :
    ∃ entry,
      child.shown = .ok entry ∧
        mountRecord bytes mountBelow decoded = some entry := by
  rw [RecordSource.expected, except_bind_eq_ok] at expected
  obtain ⟨fileName, named, expected⟩ := expected
  rw [except_bind_eq_ok] at expected
  obtain ⟨fixed, _, expected⟩ := expected
  rw [measured] at expected
  cases expected
  refine ⟨.directory fileName childs, ?_, ?_⟩
  · rw [shown_eq, named, shown]
    rfl
  · rw [← Nat.mod_eq_of_lt small] at mounted
    change (mountBelow _ _ >>= _) = _
    rw [mounted]
    rfl

theorem mountRecord_file {file : FileEntry} {decoded : Decoded}
    {mountBelow : Nat → Nat → Option (List MountedEntry)}
    (expected : (RecordSource.file file).expected = .ok decoded)
    (small : file.lba < 2 ^ 32) (sized : file.size < 2 ^ 32)
    (read :
      bytesAt bytes (file.lba * logicSize) file.size = file.contents) :
    ∃ entry,
      file.shown = .ok entry ∧
        mountRecord bytes mountBelow decoded = some entry := by
  rw [RecordSource.expected, except_bind_eq_ok] at expected
  obtain ⟨fileName, named, expected⟩ := expected
  rw [except_bind_eq_ok] at expected
  obtain ⟨fixed, _, closed⟩ := expected
  cases closed
  refine ⟨.file fileName file.contents, ?_, ?_⟩
  · rw [FileEntry.shown, named]
    rfl
  · change
      some (MountedEntry.file fileName
        (bytesAt bytes (file.lba % 2 ^ 32 * logicSize)
          (file.size % 2 ^ 32))) = _
    rw [Nat.mod_eq_of_lt small, Nat.mod_eq_of_lt sized, read]

/-- From the extent of a directory on, a reader gets what the tree has
there. -/
theorem HasTree.mounts (has : HasTree bytes tree) (entry : DirectoryEntry) :
    ∀ place above depth,
      locate none tree place = some (above, entry) → entry.height ≤ depth →
        ∃ extentSize childs,
          entry.getExtentSizeInLb = .ok extentSize ∧
            entry.shownChilds = .ok childs ∧
            mountDirectory bytes depth entry.lba (extentSize * logicSize) =
              some childs := by
  induction entry using DirectoryEntry.induction with
  | step entry inductionHypothesis =>
      intro place above depth located deep
      obtain
        ⟨extentSize, current, parent, childs, measured, read, first, second,
          expected, small⟩ :=
          has.records located
      rw [height_eq] at deep
      obtain ⟨less, rfl⟩ : ∃ less, depth = less + 1 :=
        ⟨depth - 1, by omega⟩
      have each :
          ∀ source ∈ childSources entry, ∀ decoded,
            source.expected = .ok decoded →
              ∃ shown,
                source.shown = .ok shown ∧
                  mountRecord bytes (mountDirectory bytes less) decoded =
                    some shown := by
        intro source member decoded own
        rw [childSources, List.mem_append, List.mem_map, List.mem_map]
          at member
        rcases member with ⟨child, member, rfl⟩ | ⟨file, member, rfl⟩
        · have lower := height_le_of_mem member
          obtain ⟨index, found⟩ := List.getElem?_of_mem member
          have locatedChild :=
            locate_concat.mpr ⟨_, _, located, found, rfl⟩
          obtain ⟨childSize, below, sized, shown, mounted⟩ :=
            inductionHypothesis child member _ _ less locatedChild (by omega)
          exact mountRecord_directory own (small child member) sized shown
            mounted
        · obtain ⟨fits, sized, contents⟩ :=
            has.files file (mem_files_of_located located member)
          exact mountRecord_file own fits sized contents
      obtain ⟨entries, shown, mounted⟩ := exists_mapM_eq_some expected each
      refine ⟨extentSize, entries, measured, ?_, ?_⟩
      · rw [shownChilds_sources, shown]
      · rw [mountDirectory]
        simp only [read, first, second, and_self, if_true]
        exact mounted

end Directory

/-! ## The scanned tree -/

namespace DirectoryEntry

theorem filesShown_unplaced (files : List FileEntry) :
    (files.map FileEntry.unplaced).mapM FileEntry.shown =
      files.mapM FileEntry.shown := by
  rw [List.mapM_map]
  rfl

theorem shown_unplaced (entry : DirectoryEntry) :
    entry.unplaced.shown = entry.shown := by
  induction entry using DirectoryEntry.induction with
  | step entry inductionHypothesis =>
      have below :
          (entry.dirChilds.map unplaced).mapM shown =
            entry.dirChilds.mapM shown := by
        rw [List.mapM_map]
        exact mapM_congr inductionHypothesis
      rw [shown_eq, shown_eq, shownChilds, shownChilds, unplaced_eq, below,
        filesShown_unplaced]
      rfl

/-- The layout does not change what is to be shown. -/
theorem shownChilds_unplaced (entry : DirectoryEntry) :
    entry.unplaced.shownChilds = entry.shownChilds := by
  have below :
      (entry.dirChilds.map unplaced).mapM shown =
        entry.dirChilds.mapM shown := by
    rw [List.mapM_map]
    exact mapM_congr fun child _ => shown_unplaced child
  rw [shownChilds, shownChilds, unplaced_eq, below, filesShown_unplaced]

/-- The tree with its boot catalog filled in, when there is one. -/
def catalogued (opt : Opt) (eltoritoLba : Nat) (tree : DirectoryEntry) :
    DirectoryEntry :=
  match opt.eltoritoBoot with
  | none => tree
  | some _ =>
      { tree with
        filesChilds :=
          filledCatalog opt eltoritoLba (FileEntry.newBuffered bootCatalog) ::
            tree.filesChilds.tail }

end DirectoryEntry

theorem planLayout_catalogued {opt : Opt} {pathTableStartLba finalLba : Nat}
    {tree planned : DirectoryEntry}
    (catalogFirst :
      opt.eltoritoBoot.isSome = true →
        ∃ others,
          tree.filesChilds = FileEntry.newBuffered bootCatalog :: others)
    (returned :
      planLayout opt pathTableStartLba tree = .ok (planned, finalLba)) :
    ∃ eltoritoLba,
      planned.unplaced = (tree.catalogued opt eltoritoLba).unplaced := by
  obtain ⟨reserved, same, filling⟩ := planLayout_unplaced returned
  unfold fillIfBootable at filling
  cases boot : opt.eltoritoBoot with
  | none =>
      rw [boot] at filling
      cases filling
      refine ⟨0, ?_⟩
      rw [same, catalogued, boot]
  | some value =>
      rw [boot] at filling catalogFirst
      obtain ⟨others, first⟩ := catalogFirst rfl
      obtain ⟨file, catalog, front, back, _, named, rfl⟩ :=
        fillBootCatalog_eq_ok filling
      rw [unplaced_eq, unplaced_eq tree, first] at same
      injection same with _ _ path dirs files
      have none := named.front_eq_nil files
      subst none
      rw [named.split, List.nil_append, List.map_cons, List.map_cons,
        List.cons_eq_cons] at files
      have filled := congrArg (filledCatalog opt file.lba) files.1
      refine ⟨file.lba, ?_⟩
      rw [catalogued, boot, unplaced_eq, unplaced_eq, first]
      simp only [List.nil_append, List.map_cons, List.tail_cons]
      rw [path, dirs, files.2]
      congr 2

/-! ## The image -/

/-- What a reader relies on: every record is as short as its first byte can
say, and the records of each directory and the path tables stay in their
blocks. -/
structure Readable (tree : DirectoryEntry) : Prop where
  short : ShortRecords tree
  fits : AllFit tree
  tables : tree.getPathTableSize.toOption.getD 0 ≤ 2 * logicSize

instance (tree : DirectoryEntry) : Decidable (ShortRecords tree) :=
  inferInstanceAs (Decidable (∀ directory ∈ tree.directories, _))

instance (tree : DirectoryEntry) : Decidable (Readable tree) :=
  decidable_of_iff
    (ShortRecords tree ∧ AllFit tree ∧
      tree.getPathTableSize.toOption.getD 0 ≤ 2 * logicSize)
    ⟨fun each => ⟨each.1, each.2.1, each.2.2⟩,
      fun readable => ⟨readable.short, readable.fits, readable.tables⟩⟩

section Image

variable {clock : Clock} {opt : Opt} {lbCount finalLba rootSize : Nat}
variable {lastLba : Nat} {ranges : List Range} {tree : DirectoryEntry}
variable {area described marked tabled extended filed final : Output Origin}

theorem Stages.hasTree
    (stages :
      Stages clock opt tree lbCount Output.empty area described marked tabled
        extended filed final)
    (layout :
      Layout (pathTableStartLba opt + 4) finalLba rootSize lastLba ranges tree)
    (areaFree : AreaFree tree.dirChilds) (readable : Readable tree)
    (sized : ∀ file ∈ tree.files, file.Sized)
    (small : ∀ file ∈ tree.files, file.size < 2 ^ 32) :
    HasTree final.bytes tree := by
  obtain ⟨_, little, _⟩ := writePathTables_run_ok stages.pathTables
  obtain ⟨_, size, _, tableSize, _⟩ := exists_wroteTable little
  have tables := readable.tables
  rw [tableSize] at tables
  have stored := stages.stored sized layout.files.pairwise_disjoint
  refine ⟨?_, readable.short, ?_⟩
  · intro place above entry located
    exact stages.extentRead layout areaFree readable.fits sized tableSize
      tables located
  · intro file member
    obtain ⟨fits, holds⟩ := stored file member
    have length : file.contents.length = file.size := sized file member
    refine ⟨?_, small file member, ?_⟩
    · unfold logicSize at fits
      omega
    · rw [← length]
      exact holds.bytesAt_eq

/-- A reader that finds the tree goes to it from the primary descriptor. -/
theorem mountVolume_eq {depth : Nat} {bytes : List UInt8}
    {output : Output Origin} (same : output.bytes = bytes)
    (primary : HoldsPrimary tree (0x10 * logicSize) output)
    (has : HasTree bytes tree) (deep : tree.height ≤ depth) :
    ∃ childs,
      tree.shownChilds = .ok childs ∧
        mountVolume depth bytes = some childs := by
  obtain ⟨extentSize, childs, measured, shown, mounted⟩ :=
    has.mounts tree [] none depth rfl deep
  obtain ⟨record, built, length, held⟩ := primary.record
  have header := primary.header.bytesAt_eq
  have root := held.bytesAt_eq
  rw [header_length, same] at header
  rw [length, same] at root
  have small : tree.lba < 2 ^ 32 := by
    obtain ⟨_, records, _, _, own, _⟩ := has.extents [] none tree rfl
    obtain ⟨_, first⟩ := built_of_mem own _ List.mem_cons_self
    exact lba_of_built (by decide) first
  have decoded := built.decodes
  rw [RecordSource.expected, except_bind_eq_ok] at decoded
  obtain ⟨fileName, _, decoded⟩ := decoded
  rw [except_bind_eq_ok] at decoded
  obtain ⟨fixed, _, decoded⟩ := decoded
  rw [measured] at decoded
  have fields := Except.ok.inj decoded
  refine ⟨childs, shown, ?_⟩
  rw [mountVolume, if_pos header, root, ← fields]
  change mountDirectory bytes depth (tree.lba % 2 ^ 32) _ = _
  rw [Nat.mod_eq_of_lt small]
  exact mounted

end Image

theorem small_of_planned {opt : Opt} {files planned : List FileEntry}
    (each : List.Forall₂ (FileEntry.PlannedFrom opt) files planned)
    (small : ∀ file ∈ files, file.size < 2 ^ 32) :
    ∀ file ∈ planned, file.size < 2 ^ 32 := by
  induction each with
  | nil => simp
  | @cons original placed _ _ own _ inductionHypothesis =>
      rw [List.forall_mem_cons] at small ⊢
      refine ⟨?_, inductionHypothesis small.2⟩
      rcases own with same | ⟨_, eltoritoLba, filled⟩
      · have sizes := congrArg FileEntry.size same
        exact Nat.lt_of_le_of_lt (Nat.le_of_eq sizes) small.1
      · have size : placed.size = 64 := congrArg FileEntry.size filled
        rw [size]
        decide

theorem readable_bootInputs :
    (do
      let planned ← planImage bootOpt bootInputs
      return decide (Readable planned.1 ∧ planned.1.height ≤ 2)) =
      .ok true := by
  decide +kernel

end RustKernel.Iso
