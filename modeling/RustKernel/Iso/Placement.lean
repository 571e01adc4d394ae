import RustKernel.Iso.Layout
import RustKernel.Iso.Scan

/-!
# What the layout leaves as it is

The two traversals give numbers and blocks to the entries of the tree and
change nothing else, so that a lookup finds the same file before and after
them.  Only the catalog is filled in.
-/

namespace RustKernel.Iso

open RustKernel.Foundations

namespace DirectoryEntry

mutual

/-- The tree without numbers and places. -/
def unplaced : DirectoryEntry → DirectoryEntry
  | ⟨_, _, path, dirChilds, filesChilds, _, _⟩ =>
      ⟨0, 0, path, unplacedOf dirChilds, filesChilds.map FileEntry.unplaced,
        none, 0⟩

def unplacedOf : List DirectoryEntry → List DirectoryEntry
  | [] => []
  | entry :: entries => entry.unplaced :: unplacedOf entries

end

theorem unplacedOf_eq (entries : List DirectoryEntry) :
    unplacedOf entries = entries.map unplaced := by
  induction entries with
  | nil => rfl
  | cons entry entries inductionHypothesis =>
      rw [unplacedOf, inductionHypothesis, List.map_cons]

theorem unplaced_eq (entry : DirectoryEntry) :
    entry.unplaced =
      ⟨0, 0, entry.path, entry.dirChilds.map unplaced,
        entry.filesChilds.map FileEntry.unplaced, none, 0⟩ := by
  rw [← unplacedOf_eq]
  cases entry
  rfl

theorem filesOf_unplaced {entries : List DirectoryEntry}
    (each :
      ∀ entry ∈ entries,
        entry.unplaced.files = entry.files.map FileEntry.unplaced) :
    (entries.map unplaced).flatMap files =
      (entries.flatMap files).map FileEntry.unplaced := by
  induction entries with
  | nil => rfl
  | cons entry entries inductionHypothesis =>
      rw [List.map_cons, List.flatMap_cons, List.flatMap_cons,
        List.map_append, each entry (by simp),
        inductionHypothesis fun later member => each later (by simp [member])]

theorem files_unplaced (entry : DirectoryEntry) :
    entry.unplaced.files = entry.files.map FileEntry.unplaced := by
  induction entry using DirectoryEntry.induction with
  | step entry inductionHypothesis =>
      rw [unplaced_eq, files_eq, files_eq entry, List.map_append,
        filesOf_unplaced inductionHypothesis]

end DirectoryEntry

open DirectoryEntry

/-! ## The traversals -/

theorem assignChilds_unplaced {parentIndex pathTableIndex : Nat}
    {entries planned : List DirectoryEntry} {before after : Counters}
    (each :
      ∀ entry ∈ entries, ∀ parentIndex pathTableIndex before after planned,
        (assignDirectoryIdentifiers parentIndex pathTableIndex entry).run
            before = .ok planned after →
          planned.unplaced = entry.unplaced)
    (returned :
      (assignChilds parentIndex pathTableIndex entries).run before =
        .ok planned after) :
    planned.map unplaced = entries.map unplaced := by
  induction entries generalizing pathTableIndex planned before with
  | nil => rw [(assignChilds_nil_run_ok returned).1]
  | cons entry entries inductionHypothesis =>
      obtain ⟨first, rest, middle, rfl, assigned, looped⟩ :=
        assignChilds_cons_run_ok returned
      rw [List.map_cons, List.map_cons,
        each entry (by simp) _ _ _ _ _ assigned,
        inductionHypothesis
          (fun later member => each later (by simp [member])) looped]

theorem assign_unplaced (tree : DirectoryEntry) :
    ∀ parentIndex pathTableIndex before after planned,
      (assignDirectoryIdentifiers parentIndex pathTableIndex tree).run
          before = .ok planned after →
        planned.unplaced = tree.unplaced := by
  induction tree using DirectoryEntry.induction with
  | step tree inductionHypothesis =>
      intro parentIndex pathTableIndex before after planned returned
      obtain ⟨_, _, _, _, _, _, fields, _, looped⟩ := assign_run_ok returned
      rw [unplaced_eq, unplaced_eq tree, fields.path, fields.filesChilds,
        assignChilds_unplaced inductionHypothesis looped]

theorem reserveChilds_unplaced {entries planned : List DirectoryEntry}
    {before after : Nat}
    (each :
      ∀ entry ∈ entries, ∀ before after planned,
        (reserveFileSpace entry).run before = .ok planned after →
          planned.unplaced = entry.unplaced)
    (returned : (reserveChilds entries).run before = .ok planned after) :
    planned.map unplaced = entries.map unplaced := by
  induction entries generalizing planned before with
  | nil =>
      rw [reserveChilds, pure_run_ok] at returned
      rw [← returned.1]
  | cons entry entries inductionHypothesis =>
      obtain ⟨first, rest, middle, rfl, reserved, looped⟩ :=
        reserveChilds_cons_run_ok returned
      rw [List.map_cons, List.map_cons,
        each entry (by simp) _ _ _ reserved,
        inductionHypothesis
          (fun later member => each later (by simp [member])) looped]

theorem reserve_unplaced (tree : DirectoryEntry) :
    ∀ before after planned,
      (reserveFileSpace tree).run before = .ok planned after →
        planned.unplaced = tree.unplaced := by
  induction tree using DirectoryEntry.induction with
  | step tree inductionHypothesis =>
      intro before after planned returned
      obtain ⟨middle, fields, files, looped⟩ := reserveFileSpace_run_ok returned
      rw [unplaced_eq, unplaced_eq tree, fields.path,
        (reserveFiles_ascending files).1,
        reserveChilds_unplaced inductionHypothesis looped]

theorem assignDirectories_unplaced {tree assigned : DirectoryEntry}
    {currentLba lastLba : Nat}
    (returned :
      assignDirectories currentLba tree = .ok (assigned, lastLba)) :
    assigned.unplaced = tree.unplaced := by
  rw [assignDirectories, except_bind_eq_ok] at returned
  obtain ⟨⟨counted, counters⟩, begun, closed⟩ := returned
  rw [outcome_eq_ok] at begun
  cases closed
  have same := assign_unplaced _ _ _ _ _ _ begun
  rw [unplaced_eq] at same ⊢
  exact same

/-- The layout up to the catalog. -/
theorem planLayout_unplaced {opt : Opt} {pathTableStartLba finalLba : Nat}
    {tree planned : DirectoryEntry}
    (returned :
      planLayout opt pathTableStartLba tree = .ok (planned, finalLba)) :
    ∃ reserved,
      reserved.unplaced = tree.unplaced ∧
        fillIfBootable opt reserved = .ok planned := by
  obtain ⟨assigned, lastLba, reserved, numbered, placed, filling⟩ :=
    planLayout_eq_ok returned
  refine ⟨reserved, ?_, filling⟩
  rw [reserve_unplaced _ _ _ _ placed, assignDirectories_unplaced numbered,
    unplaced_eq, unplaced_eq tree]

/-! ## The files of the planned tree -/

/-- A file of the planned tree is one of the scanned tree, or the catalog that
has been filled in. -/
def FileEntry.PlannedFrom (opt : Opt) (original placed : FileEntry) : Prop :=
  placed.unplaced = original.unplaced ∨
    original = FileEntry.newBuffered bootCatalog ∧
      ∃ eltoritoLba, placed.unplaced = filledCatalog opt eltoritoLba original

theorem plannedFrom_of_unplaced (opt : Opt) {files placed : List FileEntry}
    (same : placed.map FileEntry.unplaced = files.map FileEntry.unplaced) :
    List.Forall₂ (FileEntry.PlannedFrom opt) files placed := by
  have each :
      List.Forall₂ Eq (files.map FileEntry.unplaced)
        (placed.map FileEntry.unplaced) := by
    rw [List.forall₂_eq_eq_eq, same]
  rw [List.forall₂_map_left_iff, List.forall₂_map_right_iff] at each
  exact each.imp fun _ _ unplaced => Or.inl unplaced.symm

/-- The catalog that the scan has put in front is the one that is found. -/
theorem FirstNamed.front_eq_nil {files others front back : List FileEntry}
    {catalog : FileEntry}
    (first : FirstNamed bootCatalog files front catalog back)
    (same :
      files.map FileEntry.unplaced =
        (FileEntry.newBuffered bootCatalog :: others).map
          FileEntry.unplaced) :
    front = [] := by
  cases front with
  | nil => rfl
  | cons head front =>
      obtain ⟨other, named, different⟩ := first.earlier head (by simp)
      rw [first.split, List.cons_append, List.map_cons, List.map_cons,
        List.cons_eq_cons] at same
      have headNamed : head.unplaced.getFileName = .ok other := named
      rw [same.1] at headNamed
      have sameName : Except.ok bootCatalog = Except.ok other := headNamed
      cases sameName
      exact absurd rfl different

theorem fillBootCatalog_plannedFrom {opt : Opt} {value : Name}
    {tree reserved planned : DirectoryEntry} {others : List FileEntry}
    (catalogFirst :
      tree.filesChilds = FileEntry.newBuffered bootCatalog :: others)
    (same : reserved.unplaced = tree.unplaced)
    (returned : fillBootCatalog opt value reserved = .ok planned) :
    List.Forall₂ (FileEntry.PlannedFrom opt) tree.files planned.files := by
  obtain ⟨boot, catalog, front, back, _, first, rfl⟩ :=
    fillBootCatalog_eq_ok returned
  rw [unplaced_eq, unplaced_eq tree, catalogFirst] at same
  injection same with _ _ _ dirs files
  have none := first.front_eq_nil files
  subst none
  have below := congrArg (List.flatMap DirectoryEntry.files) dirs
  rw [filesOf_unplaced fun entry _ => files_unplaced entry,
    filesOf_unplaced fun entry _ => files_unplaced entry] at below
  rw [first.split, List.nil_append, List.map_cons, List.map_cons,
    List.cons_eq_cons] at files
  rw [files_eq, files_eq, catalogFirst, List.nil_append, List.cons_append,
    List.cons_append]
  refine List.Forall₂.cons (Or.inr ⟨rfl, boot.lba, ?_⟩)
    (plannedFrom_of_unplaced opt ?_)
  · have unplaced := congrArg (filledCatalog opt boot.lba) files.1
    exact unplaced
  · rw [List.map_append, List.map_append, files.2, below]

theorem planLayout_files {opt : Opt} {pathTableStartLba finalLba : Nat}
    {tree planned : DirectoryEntry}
    (catalogFirst :
      opt.eltoritoBoot.isSome = true →
        ∃ others,
          tree.filesChilds = FileEntry.newBuffered bootCatalog :: others)
    (returned :
      planLayout opt pathTableStartLba tree = .ok (planned, finalLba)) :
    List.Forall₂ (FileEntry.PlannedFrom opt) tree.files planned.files := by
  obtain ⟨reserved, same, filling⟩ := planLayout_unplaced returned
  unfold fillIfBootable at filling
  cases boot : opt.eltoritoBoot with
  | none =>
      rw [boot] at filling
      cases filling
      apply plannedFrom_of_unplaced
      rw [← files_unplaced, ← files_unplaced, same]
  | some value =>
      rw [boot] at filling catalogFirst
      obtain ⟨others, first⟩ := catalogFirst rfl
      exact fillBootCatalog_plannedFrom first same filling

/-- Sizes stay right. -/
theorem FileEntry.PlannedFrom.sized {opt : Opt} {original placed : FileEntry}
    (planned : original.PlannedFrom opt placed) (sized : original.Sized) :
    placed.Sized := by
  rcases planned with unplaced | ⟨_, eltoritoLba, filled⟩
  · have own : original.unplaced.Sized := sized
    rw [← unplaced] at own
    exact own
  · have own : (filledCatalog opt eltoritoLba original).Sized :=
      catalogBytes_length opt eltoritoLba
    rw [← filled] at own
    exact own

theorem sized_of_planned {opt : Opt} {files placed : List FileEntry}
    (each : List.Forall₂ (FileEntry.PlannedFrom opt) files placed)
    (sized : ∀ file ∈ files, file.Sized) : ∀ file ∈ placed, file.Sized := by
  induction each with
  | nil => simp
  | cons head _ inductionHypothesis =>
      rw [List.forall_mem_cons] at sized ⊢
      exact ⟨head.sized sized.1, inductionHypothesis sized.2⟩

/-! ## Lookups -/

theorem findFile_cons {name other : Name} {file : FileEntry}
    {files : List FileEntry} (named : file.getFileName = .ok other) :
    findFile name (file :: files) =
      if other = name then .ok (some file) else findFile name files := by
  rw [findFile, named]
  rfl

theorem findDirectory_cons {dirName other : Name} {entry : DirectoryEntry}
    {entries : List DirectoryEntry} (named : entry.getFileName = .ok other) :
    findDirectory dirName (entry :: entries) =
      if other = dirName then
        .ok (some entry)
      else
        findDirectory dirName entries := by
  rw [findDirectory, named]
  rfl

theorem FirstNamed.findFile {name : Name} {files front back : List FileEntry}
    {found : FileEntry} (first : FirstNamed name files front found back) :
    DirectoryEntry.findFile name files = .ok (some found) := by
  obtain ⟨rfl, named, earlier⟩ := first
  induction front with
  | nil =>
      rw [List.nil_append, findFile_cons named]
      exact if_pos rfl
  | cons head front inductionHypothesis =>
      rw [List.forall_mem_cons] at earlier
      obtain ⟨other, headNamed, different⟩ := earlier.1
      rw [List.cons_append, findFile_cons headNamed, if_neg different]
      exact inductionHypothesis earlier.2

theorem findFile_of_unplaced {name : Name} {files placed : List FileEntry}
    {found : FileEntry}
    (same : placed.map FileEntry.unplaced = files.map FileEntry.unplaced)
    (looked : findFile name files = .ok (some found)) :
    ∃ there,
      findFile name placed = .ok (some there) ∧
        there.unplaced = found.unplaced := by
  induction files generalizing placed with
  | nil => cases looked
  | cons file files inductionHypothesis =>
      obtain ⟨head, rest, rfl, headSame, restSame⟩ :=
        List.map_eq_cons_iff.mp same
      have looking := looked
      rw [findFile, except_bind_eq_ok] at looking
      obtain ⟨other, named, _⟩ := looking
      have headNamed : head.getFileName = .ok other := by
        have names := congrArg FileEntry.getFileName headSame
        exact names.trans named
      rw [findFile_cons named] at looked
      rw [findFile_cons headNamed]
      by_cases hit : other = name
      · rw [if_pos hit] at looked ⊢
        cases looked
        exact ⟨head, rfl, headSame⟩
      · rw [if_neg hit] at looked ⊢
        exact inductionHypothesis restSame looked

theorem findDirectory_of_unplaced {dirName : Name}
    {entries placed : List DirectoryEntry} {found : DirectoryEntry}
    (same : placed.map unplaced = entries.map unplaced)
    (looked : findDirectory dirName entries = .ok (some found)) :
    ∃ there,
      findDirectory dirName placed = .ok (some there) ∧
        there.unplaced = found.unplaced := by
  induction entries generalizing placed with
  | nil => cases looked
  | cons entry entries inductionHypothesis =>
      obtain ⟨head, rest, rfl, headSame, restSame⟩ :=
        List.map_eq_cons_iff.mp same
      have looking := looked
      rw [findDirectory, except_bind_eq_ok] at looking
      obtain ⟨other, named, _⟩ := looking
      have headNamed : head.getFileName = .ok other := by
        have paths := congrArg DirectoryEntry.path headSame
        rw [unplaced_eq, unplaced_eq entry] at paths
        have samePath : head.path = entry.path := paths
        rw [DirectoryEntry.getFileName, samePath]
        exact named
      rw [findDirectory_cons named] at looked
      rw [findDirectory_cons headNamed]
      by_cases hit : other = dirName
      · rw [if_pos hit] at looked ⊢
        cases looked
        exact ⟨head, rfl, headSame⟩
      · rw [if_neg hit] at looked ⊢
        exact inductionHypothesis restSame looked

theorem getFileAlong_below {entry : DirectoryEntry} {dirName next : Name}
    {components : List Name} {file : FileEntry} :
    entry.getFileAlong (dirName :: next :: components) = .ok (some file) ↔
      ∃ child,
        findDirectory dirName entry.dirChilds = .ok (some child) ∧
          child.getFileAlong (next :: components) = .ok (some file) := by
  rw [getFileAlong, except_bind_eq_ok]
  · constructor
    · intro looked
      obtain ⟨found, directory, looked⟩ := looked
      cases found with
      | none => cases looked
      | some child => exact ⟨child, directory, looked⟩
    · intro looked
      obtain ⟨child, directory, looked⟩ := looked
      exact ⟨some child, directory, looked⟩
  · simp

/-- A lookup finds the file that it found before the layout. -/
theorem getFileAlong_of_unplaced {entry placed : DirectoryEntry}
    {components : List Name} {file : FileEntry}
    (same : placed.unplaced = entry.unplaced)
    (looked : entry.getFileAlong components = .ok (some file)) :
    ∃ there,
      placed.getFileAlong components = .ok (some there) ∧
        there.unplaced = file.unplaced := by
  induction components generalizing entry placed with
  | nil => cases looked
  | cons name components inductionHypothesis =>
      rw [unplaced_eq, unplaced_eq entry] at same
      injection same with _ _ _ dirs files
      cases components with
      | nil => exact findFile_of_unplaced files looked
      | cons next components =>
          rw [getFileAlong_below] at looked
          obtain ⟨child, directory, looked⟩ := looked
          obtain ⟨placedChild, placedDirectory, childSame⟩ :=
            findDirectory_of_unplaced dirs directory
          obtain ⟨there, found, thereSame⟩ :=
            inductionHypothesis childSame looked
          exact ⟨there,
            getFileAlong_below.mpr ⟨placedChild, placedDirectory, found⟩,
            thereSame⟩

theorem findDirectory_mem {dirName : Name} {entries : List DirectoryEntry}
    {found : DirectoryEntry}
    (looked : findDirectory dirName entries = .ok (some found)) :
    found ∈ entries := by
  induction entries with
  | nil => cases looked
  | cons entry entries inductionHypothesis =>
      rw [findDirectory, except_bind_eq_ok] at looked
      obtain ⟨other, _, looked⟩ := looked
      by_cases same : other = dirName
      · rw [if_pos same] at looked
        cases looked
        exact List.mem_cons_self
      · rw [if_neg same] at looked
        exact List.mem_cons_of_mem entry (inductionHypothesis looked)

theorem getFileAlong_mem {entry : DirectoryEntry} {components : List Name}
    {file : FileEntry}
    (looked : entry.getFileAlong components = .ok (some file)) :
    file ∈ entry.files := by
  induction components generalizing entry with
  | nil => cases looked
  | cons name components inductionHypothesis =>
      rw [files_eq, List.mem_append]
      cases components with
      | nil =>
          obtain ⟨front, back, first⟩ := findFile_eq_some looked
          rw [first.split]
          exact Or.inl (by simp)
      | cons next components =>
          rw [getFileAlong_below] at looked
          obtain ⟨child, directory, looked⟩ := looked
          exact Or.inr
            (List.mem_flatMap.mpr
              ⟨child, findDirectory_mem directory, inductionHypothesis looked⟩)

end RustKernel.Iso
