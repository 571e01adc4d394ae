import Mathlib.Data.List.Sort
import RustKernel.Iso.Plan

/-!
# The scan of the inputs

The inputs are trees of the file system of the host, as far as the generator
looks at them.  Their directories are merged by name, at every level.
-/

namespace RustKernel.Iso

open RustKernel.Foundations
open RustKernel.Machine

/-- The last component of a path: text, other bytes, or none at all. -/
inductive LastComponent where
  | text (name : Name)
  | bytes (raw : List UInt8)
  | none
  deriving DecidableEq, Repr

namespace LastComponent

/-- `file_name()` and `to_str()`. -/
def toStr : LastComponent → Option Name
  | .text name => some name
  | .bytes _ => Option.none
  | .none => Option.none

/-- The bytes by which the entries of one directory are ordered. -/
def key : LastComponent → List UInt8
  | .text name => name
  | .bytes raw => raw
  | .none => []

end LastComponent

/-- What `metadata` says of a path, and what lies behind it.  The entries of a
directory are missing when it cannot be read. -/
inductive HostEntry where
  | file (name : LastComponent) (contents : List UInt8)
  | directory (name : LastComponent) (entries : Option (List HostEntry))
  | other (name : LastComponent)
  | inaccessible (name : LastComponent) (text : String)

def HostEntry.name : HostEntry → LastComponent
  | .file name _ => name
  | .directory name _ => name
  | .other name => name
  | .inaccessible name _ => name

/-! ## Directories of the same name -/

/-- The entry of a list that comes last of those with a name, between the
entries before and behind it. -/
structure LastNamed where
  front : List DirectoryEntry
  found : DirectoryEntry
  back : List DirectoryEntry

/-- The filter of the two merging functions, seen from one entry. -/
def LastNamed.step (entry : DirectoryEntry) (rest : List DirectoryEntry)
    (same : Bool) : Option LastNamed → Option LastNamed
  | some later => some { later with front := entry :: later.front }
  | none => if same then some ⟨[], entry, rest⟩ else none

def lastNamed (child : DirectoryEntry) :
    List DirectoryEntry → Except Fault (Option LastNamed)
  | [] => .ok none
  | entry :: rest => do
      let inName ← entry.getFileName
      let newName ← child.getFileName
      let later ← lastNamed child rest
      return LastNamed.step entry rest (inName = newName) later

/-- Merges a directory into the one of its name, or adds it. -/
def mergeOrPush
    (merge : DirectoryEntry → Except Fault (List DirectoryEntry))
    (dirChilds : List DirectoryEntry) (child : DirectoryEntry) :
    Option LastNamed → Except Fault (List DirectoryEntry)
  | none => .ok (dirChilds ++ [child])
  | some present => do
      let below ← merge present.found
      return present.front ++
        { present.found with
          filesChilds := present.found.filesChilds ++ child.filesChilds
          dirChilds := below } ::
        present.back

mutual

/-- `merge_child_directories`, on the children of the directory merged
into. -/
def mergeChildDirectories (dirChilds : List DirectoryEntry) :
    DirectoryEntry → Except Fault (List DirectoryEntry)
  | ⟨_, _, _, childs, _, _, _⟩ => mergeChilds dirChilds childs

/-- The loop of `merge_child_directories`. -/
def mergeChilds (dirChilds : List DirectoryEntry) :
    List DirectoryEntry → Except Fault (List DirectoryEntry)
  | [] => .ok dirChilds
  | child :: childs => do
      let present ← lastNamed child dirChilds
      let dirChilds ←
        mergeOrPush
          (fun found => mergeChildDirectories found.dirChilds child) dirChilds
          child present
      mergeChilds dirChilds childs

end

/-- `add_and_merge_childs_directories`. -/
def addAndMergeChildsDirectories (dirChilds : List DirectoryEntry)
    (other : DirectoryEntry) : Except Fault (List DirectoryEntry) := do
  let present ← lastNamed other dirChilds
  mergeOrPush (fun found => mergeChildDirectories found.dirChilds other)
    dirChilds other present

/-! ## The scan -/

/-- What one entry of the host adds to a directory. -/
inductive Scanned where
  | directory (entry : DirectoryEntry)
  | file (file : FileEntry)
  | skipped

/-- The two lists that the loops of `set_path` and `set_path_files` fill. -/
structure Collected where
  dirChilds : List DirectoryEntry
  filesChilds : List FileEntry

def Collected.add (collected : Collected) :
    Scanned → Except Fault Collected
  | .directory entry => do
      let dirChilds ← addAndMergeChildsDirectories collected.dirChilds entry
      return { collected with dirChilds := dirChilds }
  | .file file =>
      .ok { collected with filesChilds := collected.filesChilds ++ [file] }
  | .skipped => .ok collected

/-- The turns of a loop, each with what has come of its entry. -/
def collect (turns : List (Except Fault Scanned)) : Except Fault Collected :=
  turns.foldlM
    (fun collected turn => do
      let scanned ← turn
      collected.add scanned)
    ⟨[], []⟩

/-- `ordered_dir.sort_by_key(|dir| dir.path())`. -/
def orderTurns (turns : List (List UInt8 × Except Fault Scanned)) :
    List (Except Fault Scanned) :=
  (turns.insertionSort fun left right => left.1 ≤ right.1).map Prod.snd

/-- The end of `set_path`, on a new directory. -/
def closeDirectory (name : LastComponent) (collected : Collected) :
    DirectoryEntry :=
  { DirectoryEntry.new with
    path := name.toStr
    dirChilds := collected.dirChilds
    filesChilds := collected.filesChilds }

mutual

/-- One turn of the loops, up to the merging; a directory is scanned by
`set_path`. -/
def scanEntry : HostEntry → Except Fault Scanned
  | .file name contents => do
      let alignedSize ← FileEntry.alignedLength contents.length
      return .file
        ⟨.regular name.toStr contents, contents.length, 0, alignedSize⟩
  | .directory _ none => .error (.panic .unwrap)
  | .directory name (some entries) => do
      let collected ← collect (orderTurns (scanEntries entries))
      return .directory (closeDirectory name collected)
  | .other _ => .ok .skipped
  | .inaccessible _ text => .error (.error text)

def scanEntries :
    List HostEntry → List (List UInt8 × Except Fault Scanned)
  | [] => []
  | entry :: entries =>
      (entry.name.key, scanEntry entry) :: scanEntries entries

end

/-- `set_path_files`. -/
def setPathFiles (tree : DirectoryEntry) (path : List HostEntry) :
    Except Fault DirectoryEntry := do
  let collected ← collect (path.map scanEntry)
  match path with
  | [] => .error (.panic .sliceIndex)
  | first :: _ =>
      return { tree with
        path := first.name.toStr
        dirChilds := tree.dirChilds ++ collected.dirChilds
        filesChilds := tree.filesChilds ++ collected.filesChilds }

/-- The tree of `create_iso` before it is laid out. -/
def scanInputs (opt : Opt) (inputFiles : List HostEntry) :
    Except Fault DirectoryEntry :=
  setPathFiles
    (if opt.eltoritoBoot.isSome then
      createBootCatalog DirectoryEntry.new
    else
      DirectoryEntry.new)
    inputFiles

/-! ## The files of the tree -/

/-- A condition on all files below a list of directories. -/
def AllFiles (P : FileEntry → Prop) (entries : List DirectoryEntry) : Prop :=
  ∀ file ∈ entries.flatMap DirectoryEntry.files, P file

section AllFiles

variable {P : FileEntry → Prop}

theorem allFiles_append {first second : List DirectoryEntry} :
    AllFiles P (first ++ second) ↔ AllFiles P first ∧ AllFiles P second := by
  unfold AllFiles
  simp only [List.flatMap_append, List.mem_append, or_imp, forall_and]

theorem allFiles_cons {entry : DirectoryEntry}
    {entries : List DirectoryEntry} :
    AllFiles P (entry :: entries) ↔
      (∀ file ∈ entry.filesChilds, P file) ∧ AllFiles P entry.dirChilds ∧
        AllFiles P entries := by
  unfold AllFiles
  rw [List.flatMap_cons, DirectoryEntry.files_eq]
  simp only [List.mem_append, or_imp, forall_and, and_assoc]

theorem allFiles_nil : AllFiles P [] := by
  unfold AllFiles
  simp

theorem lastNamed_eq_some {child : DirectoryEntry}
    {entries : List DirectoryEntry} {present : LastNamed}
    (looked : lastNamed child entries = .ok (some present)) :
    entries = present.front ++ present.found :: present.back := by
  induction entries generalizing present with
  | nil => cases looked
  | cons entry rest inductionHypothesis =>
      rw [lastNamed, except_bind_eq_ok] at looked
      obtain ⟨inName, _, looked⟩ := looked
      rw [except_bind_eq_ok] at looked
      obtain ⟨newName, _, looked⟩ := looked
      rw [except_bind_eq_ok] at looked
      obtain ⟨later, lookedLater, closed⟩ := looked
      cases later with
      | some found =>
          cases closed
          rw [List.cons_append, ← inductionHypothesis lookedLater]
      | none =>
          by_cases same : inName = newName
          · simp only [same, decide_true] at closed
            cases closed
            rfl
          · simp only [same, decide_false] at closed
            cases closed

/-- Merging a directory keeps a condition on files. -/
def MergesFiles (P : FileEntry → Prop) (child : DirectoryEntry) : Prop :=
  ∀ dirChilds merged,
    mergeChildDirectories dirChilds child = .ok merged →
      AllFiles P dirChilds → AllFiles P child.dirChilds → AllFiles P merged

theorem allFiles_mergeOrPush {dirChilds merged : List DirectoryEntry}
    {child : DirectoryEntry} {present : Option LastNamed}
    (merges : MergesFiles P child)
    (looked : lastNamed child dirChilds = .ok present)
    (returned :
      mergeOrPush
          (fun found => mergeChildDirectories found.dirChilds child) dirChilds
          child present = .ok merged)
    (known : AllFiles P dirChilds) (added : AllFiles P [child]) :
    AllFiles P merged := by
  cases present with
  | none =>
      cases returned
      exact allFiles_append.mpr ⟨known, added⟩
  | some present =>
      rw [mergeOrPush, except_bind_eq_ok] at returned
      obtain ⟨below, mergedBelow, closed⟩ := returned
      cases closed
      rw [lastNamed_eq_some looked, allFiles_append, allFiles_cons] at known
      rw [allFiles_cons] at added
      obtain ⟨front, files, dirs, back⟩ := known
      refine allFiles_append.mpr ⟨front, allFiles_cons.mpr ⟨?_, ?_, back⟩⟩
      · intro file member
        rcases List.mem_append.mp member with own | new
        · exact files file own
        · exact added.1 file new
      · exact merges _ _ mergedBelow dirs added.2.1

theorem allFiles_mergeChilds {childs dirChilds merged : List DirectoryEntry}
    (each : ∀ child ∈ childs, MergesFiles P child)
    (returned : mergeChilds dirChilds childs = .ok merged)
    (known : AllFiles P dirChilds) (added : AllFiles P childs) :
    AllFiles P merged := by
  induction childs generalizing dirChilds with
  | nil =>
      cases returned
      exact known
  | cons child childs inductionHypothesis =>
      rw [mergeChilds, except_bind_eq_ok] at returned
      obtain ⟨present, looked, returned⟩ := returned
      rw [except_bind_eq_ok] at returned
      obtain ⟨next, stepped, returned⟩ := returned
      rw [← List.singleton_append, allFiles_append] at added
      exact inductionHypothesis
        (fun later member => each later (by simp [member])) returned
        (allFiles_mergeOrPush (each child (by simp)) looked stepped known
          added.1)
        added.2

theorem mergesFiles (P : FileEntry → Prop) (child : DirectoryEntry) :
    MergesFiles P child := by
  induction child using DirectoryEntry.induction with
  | step child inductionHypothesis =>
      intro dirChilds merged returned known added
      cases child
      rw [mergeChildDirectories] at returned
      exact allFiles_mergeChilds inductionHypothesis returned known added

/-- What a turn of a loop adds meets a condition on files. -/
def Scanned.Meets (P : FileEntry → Prop) : Scanned → Prop
  | .directory entry => AllFiles P [entry]
  | .file found => P found
  | .skipped => True

theorem Collected.add_meets {collected next : Collected} {scanned : Scanned}
    (returned : collected.add scanned = .ok next)
    (meets : scanned.Meets P)
    (dirs : AllFiles P collected.dirChilds)
    (files : ∀ file ∈ collected.filesChilds, P file) :
    AllFiles P next.dirChilds ∧ ∀ file ∈ next.filesChilds, P file := by
  cases scanned with
  | directory entry =>
      rw [Collected.add, except_bind_eq_ok] at returned
      obtain ⟨merged, added, closed⟩ := returned
      cases closed
      rw [addAndMergeChildsDirectories, except_bind_eq_ok] at added
      obtain ⟨present, looked, stepped⟩ := added
      exact ⟨allFiles_mergeOrPush (mergesFiles P entry) looked stepped dirs
        meets, files⟩
  | file file =>
      cases returned
      refine ⟨dirs, ?_⟩
      intro other member
      rcases List.mem_append.mp member with old | new
      · exact files other old
      · rw [List.mem_singleton] at new
        subst new
        exact meets
  | skipped =>
      cases returned
      exact ⟨dirs, files⟩

theorem collect_meets {turns : List (Except Fault Scanned)}
    {collected : Collected}
    (each : ∀ scanned, Except.ok scanned ∈ turns → scanned.Meets P)
    (returned : collect turns = .ok collected) :
    AllFiles P collected.dirChilds ∧
      ∀ file ∈ collected.filesChilds, P file := by
  unfold collect at returned
  have dirs : AllFiles P (⟨[], []⟩ : Collected).dirChilds := allFiles_nil
  have files : ∀ file ∈ (⟨[], []⟩ : Collected).filesChilds, P file := by
    simp
  generalize (⟨[], []⟩ : Collected) = start at returned dirs files
  induction turns generalizing start with
  | nil =>
      cases returned
      exact ⟨dirs, files⟩
  | cons turn turns inductionHypothesis =>
      rw [List.foldlM_cons, except_bind_eq_ok] at returned
      obtain ⟨next, stepped, returned⟩ := returned
      rw [except_bind_eq_ok] at stepped
      obtain ⟨scanned, rfl, added⟩ := stepped
      obtain ⟨nextDirs, nextFiles⟩ :=
        Collected.add_meets added (each scanned (by simp)) dirs files
      exact inductionHypothesis
        (fun later member => each later (by simp [member])) next returned
        nextDirs nextFiles

end AllFiles

/-- What holds of an entry of the host when it holds of the entries below
holds of all. -/
theorem HostEntry.induction {P : HostEntry → Prop}
    (file : ∀ name contents, P (.file name contents))
    (unread : ∀ name, P (.directory name none))
    (directory :
      ∀ name entries, (∀ entry ∈ entries, P entry) →
        P (.directory name (some entries)))
    (other : ∀ name, P (.other name))
    (inaccessible : ∀ name text, P (.inaccessible name text))
    (entry : HostEntry) : P entry := by
  refine @HostEntry.rec P
    (fun entries => ∀ listed, entries = some listed → ∀ entry ∈ listed, P entry)
    (fun entries => ∀ entry ∈ entries, P entry)
    file ?_ other inaccessible ?_ ?_ ?_ ?_ entry
  · intro name entries each
    cases entries with
    | none => exact unread name
    | some entries => exact directory name entries (each entries rfl)
  · intro listed absent
    cases absent
  · intro entries each listed same
    cases same
    exact each
  · simp
  · intro head tail holds each
    exact List.forall_mem_cons.mpr ⟨holds, each⟩

/-- The size of a file is the length of its contents. -/
def FileEntry.Sized (file : FileEntry) : Prop :=
  file.contents.length = file.size

theorem mem_scanEntries {entries : List HostEntry}
    {turn : List UInt8 × Except Fault Scanned}
    (member : turn ∈ scanEntries entries) :
    ∃ entry ∈ entries, turn.2 = scanEntry entry := by
  induction entries with
  | nil => cases member
  | cons entry entries inductionHypothesis =>
      rw [scanEntries, List.mem_cons] at member
      rcases member with same | member
      · subst same
        exact ⟨entry, by simp, rfl⟩
      · obtain ⟨other, listed, scanned⟩ := inductionHypothesis member
        exact ⟨other, by simp [listed], scanned⟩

theorem scanEntry_meets (entry : HostEntry) :
    ∀ scanned, scanEntry entry = .ok scanned →
      scanned.Meets FileEntry.Sized := by
  induction entry using HostEntry.induction with
  | file name contents =>
      intro scanned returned
      rw [scanEntry, except_bind_eq_ok] at returned
      obtain ⟨alignedSize, _, closed⟩ := returned
      cases closed
      rfl
  | unread name =>
      intro scanned returned
      cases returned
  | directory name entries inductionHypothesis =>
      intro scanned returned
      rw [scanEntry, except_bind_eq_ok] at returned
      obtain ⟨collected, gathered, closed⟩ := returned
      cases closed
      have each :
          ∀ scanned, Except.ok scanned ∈ orderTurns (scanEntries entries) →
            scanned.Meets FileEntry.Sized := by
        intro scanned member
        obtain ⟨turn, listed, same⟩ := List.mem_map.mp member
        rw [List.mem_insertionSort] at listed
        obtain ⟨entry, entryMember, own⟩ := mem_scanEntries listed
        rw [own] at same
        exact inductionHypothesis entry entryMember scanned same
      obtain ⟨dirs, files⟩ := collect_meets each gathered
      exact allFiles_cons.mpr ⟨files, dirs, allFiles_nil⟩
  | other name =>
      intro scanned returned
      cases returned
      trivial
  | inaccessible name text =>
      intro scanned returned
      cases returned

theorem setPathFiles_eq_ok {tree scanned : DirectoryEntry}
    {path : List HostEntry}
    (returned : setPathFiles tree path = .ok scanned) :
    ∃ collected,
      collect (path.map scanEntry) = .ok collected ∧
        scanned.dirChilds = tree.dirChilds ++ collected.dirChilds ∧
        scanned.filesChilds = tree.filesChilds ++ collected.filesChilds := by
  rw [setPathFiles, except_bind_eq_ok] at returned
  obtain ⟨collected, gathered, closed⟩ := returned
  cases path with
  | nil => cases closed
  | cons first rest =>
      cases closed
      exact ⟨collected, gathered, rfl, rfl⟩

/-- The scanned tree has the catalog in front when there is a boot file, and
the sizes of its files are right. -/
theorem scanInputs_eq_ok {opt : Opt} {inputFiles : List HostEntry}
    {tree : DirectoryEntry}
    (returned : scanInputs opt inputFiles = .ok tree) :
    (∀ file ∈ tree.files, file.Sized) ∧
      (opt.eltoritoBoot.isSome = true →
        ∃ others,
          tree.filesChilds =
            FileEntry.newBuffered bootCatalog :: others) := by
  obtain ⟨collected, gathered, dirs, files⟩ := setPathFiles_eq_ok returned
  have each :
      ∀ scanned, Except.ok scanned ∈ inputFiles.map scanEntry →
        scanned.Meets FileEntry.Sized := by
    intro scanned member
    obtain ⟨entry, _, same⟩ := List.mem_map.mp member
    exact scanEntry_meets entry scanned same
  obtain ⟨sizedDirs, sizedFiles⟩ := collect_meets each gathered
  by_cases bootable : opt.eltoritoBoot.isSome = true
  · rw [if_pos bootable] at dirs files
    refine ⟨?_, fun _ => ⟨collected.filesChilds, files⟩⟩
    intro file member
    rw [DirectoryEntry.files_eq, files, dirs, List.mem_append] at member
    rcases member with own | below
    · rcases List.mem_cons.mp own with same | own
      · subst same
        rfl
      · exact sizedFiles file own
    · exact sizedDirs file below
  · rw [if_neg bootable] at dirs files
    refine ⟨?_, fun booted => absurd booted bootable⟩
    intro file member
    rw [DirectoryEntry.files_eq, files, dirs, List.mem_append] at member
    rcases member with own | below
    · exact sizedFiles file own
    · exact sizedDirs file below

end RustKernel.Iso
