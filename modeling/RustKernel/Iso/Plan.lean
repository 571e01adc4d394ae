import RustKernel.Foundations.Bytes
import RustKernel.Iso.Entries

/-!
# The layout of an image

`create_iso` gives every directory and every file its logical blocks before it
writes anything.  Two traversals of the tree thread a block counter: the first
numbers the directories and gives them their extents, the second gives the
files their contents.  The root gets its block behind the first traversal, and
the block that the traversal left free for its continuation area in front of
the extent ends up behind it.
-/

namespace RustKernel.Iso

open RustKernel.Foundations
open RustKernel.Machine

/-- `ElToritoOpt` and `Opt`.  A boot file is given by the contents behind its
path, if there are any. -/
structure Opt where
  eltoritoBoot : Option Name
  noBoot : Bool
  bootInfoTable : Bool
  grub2BootInfo : Bool
  embeddedBoot : Option (Option (List UInt8))
  grub2Mbr : Option (Option (List UInt8))
  bootLoadSize : Nat
  protectiveMsdosLabel : Bool

/-- The two counters of `assign_directory_identifiers`. -/
structure Counters where
  lastIndex : Nat
  lastLba : Nat
  deriving DecidableEq, Repr

def advanceLba (count : Nat) : EStateM Fault Counters Unit := do
  let counters ← get
  let lastLba ← MonadExcept.ofExcept (addU32 counters.lastLba count)
  set { counters with lastLba := lastLba }

/-- The loop that numbers the children; returns the last index before it. -/
def advanceIndex (count : Nat) : EStateM Fault Counters Nat := do
  let counters ← get
  let lastIndex ← MonadExcept.ofExcept (addU32 counters.lastIndex count)
  set { counters with lastIndex := lastIndex }
  return counters.lastIndex

mutual

/-- `assign_directory_identifiers`.  The two indices are the ones that the
loop over the children of the parent has given to the entry. -/
def assignDirectoryIdentifiers (parentIndex pathTableIndex : Nat) :
    DirectoryEntry → EStateM Fault Counters DirectoryEntry
  | tree@⟨_, _, path, dirChilds, filesChilds, continuationArea, lba⟩ => do
      advanceLba (if continuationArea.isSome then 1 else 0)
      let counters ← get
      let isRoot := counters.lastIndex = 0
      let pathTableIndex := if isRoot then 1 else pathTableIndex
      set { counters with lastIndex := if isRoot then 1 else counters.lastIndex }
      let extentSize ← MonadExcept.ofExcept tree.getExtentSizeInLb
      advanceLba extentSize
      let lastIndex ← advanceIndex dirChilds.length
      let dirChilds ←
        assignChilds pathTableIndex (lastIndex + 1) dirChilds
      return {
        pathTableIndex := pathTableIndex
        parentIndex := if isRoot then 0 else parentIndex
        path := path
        dirChilds := dirChilds
        filesChilds := filesChilds
        continuationArea := continuationArea
        lba := if isRoot then lba else counters.lastLba }

/-- The second loop of `assign_directory_identifiers`. -/
def assignChilds (parentIndex pathTableIndex : Nat) :
    List DirectoryEntry → EStateM Fault Counters (List DirectoryEntry)
  | [] => return []
  | entry :: entries => do
      let entry ← assignDirectoryIdentifiers parentIndex pathTableIndex entry
      let entries ← assignChilds parentIndex (pathTableIndex + 1) entries
      return entry :: entries

end

/-- The first loop of `reserve_file_space`. -/
def reserveFiles : List FileEntry → EStateM Fault Nat (List FileEntry)
  | [] => return []
  | file :: files => do
      let sum ← MonadExcept.ofExcept (addU32 (file.size % 2 ^ 32) logicSize)
      let lbaCount := sum / logicSize
      let currentLba ← get
      let nextLba ← MonadExcept.ofExcept (addU32 currentLba lbaCount)
      set nextLba
      let files ← reserveFiles files
      return { file with lba := currentLba } :: files

mutual

/-- `reserve_file_space`. -/
def reserveFileSpace : DirectoryEntry → EStateM Fault Nat DirectoryEntry
  | ⟨pathTableIndex, parentIndex, path, dirChilds, filesChilds, area, lba⟩ => do
      let filesChilds ← reserveFiles filesChilds
      let dirChilds ← reserveChilds dirChilds
      return ⟨pathTableIndex, parentIndex, path, dirChilds, filesChilds, area,
        lba⟩

/-- The second loop of `reserve_file_space`. -/
def reserveChilds :
    List DirectoryEntry → EStateM Fault Nat (List DirectoryEntry)
  | [] => return []
  | entry :: entries => do
      let entry ← reserveFileSpace entry
      let entries ← reserveChilds entries
      return entry :: entries

end

/-! ## The boot catalog -/

def bootCatalog : Name := utf8 "boot.catalog"

/-- `create_boot_catalog`. -/
def createBootCatalog (tree : DirectoryEntry) : DirectoryEntry :=
  tree.addFile (FileEntry.newBuffered bootCatalog)

/-- The catalog for a boot file at the given block. -/
def catalogBytes (opt : Opt) (eltoritoLba : Nat) : List UInt8 :=
  [0x1, 0xEF] ++ leBytes 2 0 ++ List.replicate 0x16 0 ++
    leBytes 4 0x66aa0000 ++ [0x55, 0xAA] ++
    [if opt.noBoot then 0x0 else 0x88, 0x0] ++ leBytes 2 0 ++ [0x0, 0x0] ++
    leBytes 2 opt.bootLoadSize ++ leBytes 4 eltoritoLba ++
    List.replicate 0x14 0

/-- `Option::unwrap` on what `get_file` returns. -/
def unwrapFile (found : Option FileEntry) : Except Fault FileEntry :=
  match found with
  | none => .error (.panic .unwrap)
  | some file => .ok file

/-- `fill_boot_catalog`. -/
def fillBootCatalog (opt : Opt) (value : Name) (tree : DirectoryEntry) :
    Except Fault DirectoryEntry := do
  let eltoritoBootFile ← unwrapFile (← tree.getFile value)
  let file ← unwrapFile (← tree.getFile bootCatalog)
  match file.fileType with
  | .buffer name _ =>
      let buff := catalogBytes opt eltoritoBootFile.lba
      let file ← { file with fileType := .buffer name buff }.update
      tree.setFile bootCatalog file
  | .regular _ _ => throw (.panic (.message "explicit panic"))

/-- `std::io::Cursor<Vec<u8>>`: `bytes` written at `position`. -/
def cursorWrite (buffer : List UInt8) (position : Nat) (bytes : List UInt8) :
    List UInt8 :=
  buffer.take position ++ List.replicate (position - buffer.length) 0 ++
    bytes ++ buffer.drop (position + bytes.length)

/-- `patch_boot_image`. -/
def patchBootImage (opt : Opt) (value : Name) (tree : DirectoryEntry) :
    Except Fault DirectoryEntry := do
  let file ← unwrapFile (← tree.getFile value)
  let buff := file.contents
  let buff :=
    if opt.bootInfoTable then
      cursorWrite buff 0x8
        (leBytes 4 0x10 ++ leBytes 4 file.lba ++ leBytes 4 file.size ++
          leBytes 4 0)
    else
      buff
  let buff ←
    if opt.grub2BootInfo then do
      let product ← mulU32 file.lba 4
      let sum ← addU32 product 5
      pure (cursorWrite buff 0x9f4 (leBytes 8 sum))
    else
      pure buff
  let name ← file.getFileName
  let file ← { file with fileType := .buffer name buff }.update
  tree.setFile value file

/-! ## The plan -/

/-- The `ER` entry of Rock Ridge 1.2. -/
def rockRidgeArea : List UInt8 :=
  utf8 "ER" ++ [0xB6, 0x1, 0x9, 0x48, 0x5d, 0x1] ++ utf8 "IEEE_1282" ++
    utf8 "THE IEEE 1282 PROTOCOL PROVIDES SUPPORT FOR POSIX FILE SYSTEM " ++
    utf8 "SEMANTICS." ++
    utf8 "PLEASE CONTACT THE IEEE STANDARDS DEPARTMENT, PISCATAWAY, NJ, USA " ++
    utf8 "FOR THE 1282 SPECIFICATION."

/-- `assign_directory_identifiers` and the fix-up of the root behind it;
returns the block counter. -/
def assignDirectories (currentLba : Nat) (tree : DirectoryEntry) :
    Except Fault (DirectoryEntry × Nat) := do
  let (tree, counters) ←
    outcome (assignDirectoryIdentifiers 0 0 tree) ⟨0, currentLba⟩
  return ({ tree with parentIndex := 1, lba := currentLba }, counters.lastLba)

/-- Fills the catalog in when there is a boot file. -/
def fillIfBootable (opt : Opt) (tree : DirectoryEntry) :
    Except Fault DirectoryEntry :=
  match opt.eltoritoBoot with
  | none => .ok tree
  | some value => fillBootCatalog opt value tree

/-- The part of `create_iso` between the scan of the inputs and the first
write; returns the size of the volume as well. -/
def planLayout (opt : Opt) (pathTableStartLba : Nat) (tree : DirectoryEntry) :
    Except Fault (DirectoryEntry × Nat) := do
  let currentLba ← addU32 pathTableStartLba 4
  let tree := { tree with continuationArea := some rockRidgeArea }
  let (tree, currentLba) ← assignDirectories currentLba tree
  let (tree, currentLba) ← outcome (reserveFileSpace tree) currentLba
  let tree ← fillIfBootable opt tree
  return (tree, currentLba)

/-! ## One step of the first traversal -/

theorem advanceLba_run_ok {count : Nat} {before after : Counters}
    {result : Unit} :
    (advanceLba count).run before = .ok result after ↔
      before.lastLba + count < 2 ^ 32 ∧
        after = { before with lastLba := before.lastLba + count } := by
  unfold advanceLba
  rw [bind_run_of_ok _ (get_run before), bind_run_ok]
  simp only [ofExcept_run_ok, addU32_eq_ok]
  constructor
  · intro returned
    obtain ⟨_, _, ⟨⟨fits, rfl⟩, rfl⟩, closed⟩ := returned
    cases closed
    exact ⟨fits, rfl⟩
  · intro both
    obtain ⟨fits, rfl⟩ := both
    exact ⟨_, before, ⟨⟨fits, rfl⟩, rfl⟩, rfl⟩

theorem advanceIndex_run_ok {count last : Nat} {before after : Counters} :
    (advanceIndex count).run before = .ok last after ↔
      before.lastIndex + count < 2 ^ 32 ∧ last = before.lastIndex ∧
        after = { before with lastIndex := before.lastIndex + count } := by
  unfold advanceIndex
  rw [bind_run_of_ok _ (get_run before), bind_run_ok]
  simp only [ofExcept_run_ok, addU32_eq_ok]
  constructor
  · intro returned
    obtain ⟨_, _, ⟨⟨fits, rfl⟩, rfl⟩, closed⟩ := returned
    cases closed
    exact ⟨fits, rfl, rfl⟩
  · intro both
    obtain ⟨fits, rfl, rfl⟩ := both
    exact ⟨_, before, ⟨⟨fits, rfl⟩, rfl⟩, rfl⟩

/-- The blocks that the traversal leaves free for the continuation area. -/
def areaBlocks (tree : DirectoryEntry) : Nat :=
  if tree.continuationArea.isSome then 1 else 0

/-- What `assign_directory_identifiers` does to an entry, apart from its
children. -/
structure Assigned (parentIndex pathTableIndex lba : Nat)
    (tree planned : DirectoryEntry) : Prop where
  pathTableIndex : planned.pathTableIndex = pathTableIndex
  parentIndex : planned.parentIndex = parentIndex
  path : planned.path = tree.path
  filesChilds : planned.filesChilds = tree.filesChilds
  continuationArea : planned.continuationArea = tree.continuationArea
  lba : planned.lba = lba

theorem assign_run_ok {parentIndex pathTableIndex : Nat}
    {tree planned : DirectoryEntry} {before after : Counters}
    (returned :
      (assignDirectoryIdentifiers parentIndex pathTableIndex tree).run before =
        .ok planned after) :
    ∃ extentSize index last,
      tree.getExtentSizeInLb = .ok extentSize ∧
        index = (if before.lastIndex = 0 then 1 else pathTableIndex) ∧
        last = (if before.lastIndex = 0 then 1 else before.lastIndex) ∧
        Assigned (if before.lastIndex = 0 then 0 else parentIndex) index
          (if before.lastIndex = 0 then
            tree.lba
          else
            before.lastLba + areaBlocks tree)
          tree planned ∧
        before.lastLba + areaBlocks tree + extentSize < 2 ^ 32 ∧
        (assignChilds index (last + 1) tree.dirChilds).run
            ⟨last + tree.dirChilds.length,
              before.lastLba + areaBlocks tree + extentSize⟩ =
          .ok planned.dirChilds after := by
  cases tree with
  | mk oldIndex oldParent path dirChilds filesChilds area lba =>
      rw [assignDirectoryIdentifiers, bind_run_ok] at returned
      obtain ⟨_, passed, reserved, returned⟩ := returned
      rw [advanceLba_run_ok] at reserved
      obtain ⟨_, rfl⟩ := reserved
      rw [bind_run_of_ok _ (get_run _), bind_run_ok] at returned
      obtain ⟨_, numbered, stored, returned⟩ := returned
      cases stored
      rw [bind_run_ok] at returned
      obtain ⟨extentSize, _, computed, returned⟩ := returned
      rw [ofExcept_run_ok] at computed
      obtain ⟨computed, rfl⟩ := computed
      rw [bind_run_ok] at returned
      obtain ⟨_, _, advanced, returned⟩ := returned
      rw [advanceLba_run_ok] at advanced
      obtain ⟨fits, rfl⟩ := advanced
      rw [bind_run_ok] at returned
      obtain ⟨last, _, counted, returned⟩ := returned
      rw [advanceIndex_run_ok] at counted
      obtain ⟨_, rfl, rfl⟩ := counted
      rw [bind_run_ok] at returned
      obtain ⟨childs, final, looped, returned⟩ := returned
      rw [pure_run_ok] at returned
      obtain ⟨rfl, rfl⟩ := returned
      exact ⟨extentSize, _, _, computed, rfl, rfl,
        ⟨rfl, rfl, rfl, rfl, rfl, rfl⟩, fits, looped⟩

theorem assignChilds_cons_run_ok {parentIndex pathTableIndex : Nat}
    {entry : DirectoryEntry} {entries planned : List DirectoryEntry}
    {before after : Counters}
    (returned :
      (assignChilds parentIndex pathTableIndex (entry :: entries)).run before =
        .ok planned after) :
    ∃ first rest middle,
      planned = first :: rest ∧
        (assignDirectoryIdentifiers parentIndex pathTableIndex entry).run
            before = .ok first middle ∧
        (assignChilds parentIndex (pathTableIndex + 1) entries).run middle =
          .ok rest after := by
  rw [assignChilds, bind_run_ok] at returned
  obtain ⟨first, middle, assigned, returned⟩ := returned
  rw [bind_run_ok] at returned
  obtain ⟨rest, _, looped, returned⟩ := returned
  rw [pure_run_ok] at returned
  obtain ⟨rfl, rfl⟩ := returned
  exact ⟨first, rest, middle, rfl, assigned, looped⟩

theorem assignChilds_nil_run_ok {parentIndex pathTableIndex : Nat}
    {planned : List DirectoryEntry} {before after : Counters}
    (returned :
      (assignChilds parentIndex pathTableIndex []).run before =
        .ok planned after) :
    planned = [] ∧ after = before := by
  rw [assignChilds, pure_run_ok] at returned
  exact ⟨returned.1.symm, returned.2.symm⟩

theorem assignChilds_paths {parentIndex pathTableIndex : Nat}
    {entries planned : List DirectoryEntry} {before after : Counters}
    (returned :
      (assignChilds parentIndex pathTableIndex entries).run before =
        .ok planned after) :
    planned.map DirectoryEntry.path = entries.map DirectoryEntry.path := by
  induction entries generalizing pathTableIndex planned before with
  | nil =>
      rw [(assignChilds_nil_run_ok returned).1]
  | cons entry entries inductionHypothesis =>
      obtain ⟨first, rest, middle, rfl, assigned, looped⟩ :=
        assignChilds_cons_run_ok returned
      obtain ⟨_, _, _, _, _, _, fields, _, _⟩ := assign_run_ok assigned
      rw [List.map_cons, List.map_cons, fields.path,
        inductionHypothesis looped]

/-! ## The catalog is filled in -/

/-- A lookup finds the first file of the name. -/
structure FirstNamed (name : Name) (files front : List FileEntry)
    (found : FileEntry) (back : List FileEntry) : Prop where
  split : files = front ++ found :: back
  named : found.getFileName = .ok name
  earlier :
    ∀ file ∈ front, ∃ other, file.getFileName = .ok other ∧ other ≠ name

theorem findFile_eq_some {name : Name} {files : List FileEntry}
    {found : FileEntry}
    (returned : DirectoryEntry.findFile name files = .ok (some found)) :
    ∃ front back, FirstNamed name files front found back := by
  induction files with
  | nil => cases returned
  | cons file files inductionHypothesis =>
      rw [DirectoryEntry.findFile, except_bind_eq_ok] at returned
      obtain ⟨other, named, returned⟩ := returned
      by_cases same : other = name
      · rw [if_pos same] at returned
        cases returned
        subst same
        exact ⟨[], files, rfl, named, by simp⟩
      · rw [if_neg same] at returned
        obtain ⟨front, back, first⟩ := inductionHypothesis returned
        refine ⟨file :: front, back, ?_, first.named, ?_⟩
        · rw [first.split, List.cons_append]
        · exact List.forall_mem_cons.mpr ⟨⟨other, named, same⟩, first.earlier⟩

theorem FirstNamed.replaceFile {name : Name} {files front back : List FileEntry}
    {found : FileEntry} (first : FirstNamed name files front found back)
    (file : FileEntry) :
    DirectoryEntry.replaceFile name file files =
      .ok (front ++ file :: back) := by
  obtain ⟨rfl, named, earlier⟩ := first
  induction front with
  | nil =>
      rw [List.nil_append, DirectoryEntry.replaceFile, named]
      exact if_pos rfl
  | cons head front inductionHypothesis =>
      obtain ⟨other, headNamed, different⟩ := earlier head (by simp)
      rw [List.cons_append, DirectoryEntry.replaceFile, headNamed]
      change (if other = name then _ else _) = _
      rw [if_neg different,
        inductionHypothesis fun later member => earlier later (by simp [member])]
      rfl

theorem catalogBytes_length (opt : Opt) (eltoritoLba : Nat) :
    (catalogBytes opt eltoritoLba).length = 64 := by
  simp [catalogBytes]

theorem bootCatalog_components : bootCatalog.splitOn 0x2F = [bootCatalog] := by
  with_unfolding_all decide

/-- The catalog of a boot file in place of the reserved one. -/
def filledCatalog (opt : Opt) (eltoritoLba : Nat) (catalog : FileEntry) :
    FileEntry :=
  { catalog with
    fileType := .buffer bootCatalog (catalogBytes opt eltoritoLba)
    size := 64
    alignedSize := 2048 }

theorem unwrapFile_eq_ok {found : Option FileEntry} {file : FileEntry} :
    unwrapFile found = .ok file ↔ found = some file := by
  cases found with
  | none => simp [unwrapFile]
  | some other => simp [unwrapFile]

theorem update_buffer {file : FileEntry} {name : Name} {data : List UInt8}
    {updated : FileEntry}
    (returned :
      { file with fileType := .buffer name data }.update = .ok updated)
    (sized : data.length = 64) :
    updated =
      { file with
        fileType := .buffer name data
        size := 64
        alignedSize := 2048 } := by
  have aligned : FileEntry.alignedLength 64 = .ok 2048 := by decide
  rw [FileEntry.update] at returned
  simp only at returned
  rw [sized, aligned] at returned
  cases returned
  rfl

theorem fillBootCatalog_eq_ok {opt : Opt} {value : Name}
    {tree planned : DirectoryEntry}
    (returned : fillBootCatalog opt value tree = .ok planned) :
    ∃ eltoritoBootFile catalog front back,
      tree.getFile value = .ok (some eltoritoBootFile) ∧
        FirstNamed bootCatalog tree.filesChilds front catalog back ∧
        planned =
          { tree with
            filesChilds :=
              front ++ filledCatalog opt eltoritoBootFile.lba catalog ::
                back } := by
  rw [fillBootCatalog, except_bind_eq_ok] at returned
  obtain ⟨boot, found, returned⟩ := returned
  rw [except_bind_eq_ok] at returned
  obtain ⟨eltoritoBootFile, unwrapped, returned⟩ := returned
  rw [unwrapFile_eq_ok] at unwrapped
  subst unwrapped
  rw [except_bind_eq_ok] at returned
  obtain ⟨lookup, foundCatalog, returned⟩ := returned
  rw [except_bind_eq_ok] at returned
  obtain ⟨catalog, unwrapped, returned⟩ := returned
  rw [unwrapFile_eq_ok] at unwrapped
  subst unwrapped
  rw [DirectoryEntry.getFile, bootCatalog_components] at foundCatalog
  obtain ⟨front, back, first⟩ := findFile_eq_some foundCatalog
  refine ⟨eltoritoBootFile, catalog, front, back, found, first, ?_⟩
  have named := first.named
  unfold FileEntry.getFileName at named
  cases buffered : catalog.fileType with
  | regular path contents =>
      rw [buffered] at returned
      cases returned
  | buffer name data =>
      rw [buffered] at returned named
      cases named
      simp only at returned
      rw [except_bind_eq_ok] at returned
      obtain ⟨updated, filled, returned⟩ := returned
      rw [update_buffer filled (catalogBytes_length _ _),
        DirectoryEntry.setFile, bootCatalog_components,
        DirectoryEntry.setFileAlong, except_bind_eq_ok] at returned
      obtain ⟨files, replaced, returned⟩ := returned
      rw [first.replaceFile] at replaced
      cases replaced
      cases returned
      rfl

/-! ## The boot file is patched -/

theorem cursorWrite_length (buffer : List UInt8) (position : Nat)
    (bytes : List UInt8) :
    (cursorWrite buffer position bytes).length =
      max buffer.length (position + bytes.length) := by
  unfold cursorWrite
  simp only [List.length_append, List.length_take, List.length_replicate,
    List.length_drop]
  omega

/-- The length of a boot file behind the patches: the boot information table
ends at byte 24, and the field of GRUB at byte 2556. -/
def patchedLength (opt : Opt) (length : Nat) : Nat :=
  max (if opt.bootInfoTable then max length 24 else length)
    (if opt.grub2BootInfo then 2556 else 0)

/-- The boot file is put back with contents of the patched length. -/
theorem patchBootImage_eq_ok {opt : Opt} {value : Name}
    {tree patched : DirectoryEntry}
    (returned : patchBootImage opt value tree = .ok patched) :
    ∃ file name buff updated,
      tree.getFile value = .ok (some file) ∧
        file.getFileName = .ok name ∧
        buff.length = patchedLength opt file.contents.length ∧
        { file with fileType := .buffer name buff }.update = .ok updated ∧
        tree.setFile value updated = .ok patched := by
  rw [patchBootImage, except_bind_eq_ok] at returned
  obtain ⟨looked, found, returned⟩ := returned
  rw [except_bind_eq_ok] at returned
  obtain ⟨file, unwrapped, returned⟩ := returned
  rw [unwrapFile_eq_ok] at unwrapped
  subst unwrapped
  simp only at returned
  have tabled (table : List UInt8) (known : table.length = 16) :
      (if opt.bootInfoTable then cursorWrite file.contents 0x8 table
        else file.contents).length =
        if opt.bootInfoTable then max file.contents.length 24
          else file.contents.length := by
    split
    · rw [cursorWrite_length, known]
    · rfl
  by_cases grub2 : opt.grub2BootInfo = true
  · rw [if_pos grub2, except_bind_eq_ok] at returned
    obtain ⟨product, _, returned⟩ := returned
    rw [except_bind_eq_ok] at returned
    obtain ⟨sum, _, returned⟩ := returned
    rw [pure_bind, except_bind_eq_ok] at returned
    obtain ⟨name, named, returned⟩ := returned
    rw [except_bind_eq_ok] at returned
    obtain ⟨updated, update, assigned⟩ := returned
    refine ⟨file, name, _, updated, found, named, ?_, update, assigned⟩
    rw [cursorWrite_length, tabled _ (by simp), patchedLength, if_pos grub2]
    simp
  · rw [if_neg grub2, pure_bind, except_bind_eq_ok] at returned
    obtain ⟨name, named, returned⟩ := returned
    rw [except_bind_eq_ok] at returned
    obtain ⟨updated, update, assigned⟩ := returned
    refine ⟨file, name, _, updated, found, named, ?_, update, assigned⟩
    rw [tabled _ (by simp), patchedLength, if_neg grub2, Nat.max_zero]

end RustKernel.Iso
