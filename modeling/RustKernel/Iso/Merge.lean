import RustKernel.Foundations.Placed
import RustKernel.Iso.Scan

/-!
# Merging input directories

Directories of one name become one directory.  Nothing below them is lost or
doubled: at every path the merged forest holds the files of the first forest
and then those of the second.
-/

namespace RustKernel.Iso

open RustKernel.Foundations

namespace DirectoryEntry

mutual

/-- The files of a tree, each with the names of the directories above it. -/
def placedFiles :
    DirectoryEntry → List (List (Option Name) × FileEntry)
  | ⟨_, _, path, dirChilds, filesChilds, _, _⟩ =>
      under path
        (filesChilds.map (fun file => ([], file)) ++ placedFilesOf dirChilds)

def placedFilesOf :
    List DirectoryEntry → List (List (Option Name) × FileEntry)
  | [] => []
  | entry :: entries => entry.placedFiles ++ placedFilesOf entries

end

mutual

/-- The directories of a tree, by the names that lead to them. -/
def directoryPaths : DirectoryEntry → List (List (Option Name))
  | ⟨_, _, path, dirChilds, _, _, _⟩ =>
      pathsUnder path ([] :: directoryPathsOf dirChilds)

def directoryPathsOf : List DirectoryEntry → List (List (Option Name))
  | [] => []
  | entry :: entries => entry.directoryPaths ++ directoryPathsOf entries

end

/-- Directories side by side have names, no two of them the same, at every
level. -/
inductive NamesDiffer : List DirectoryEntry → Prop where
  | intro {entries : List DirectoryEntry}
      (named : ∀ entry ∈ entries, entry.path.isSome = true)
      (distinct : (entries.map DirectoryEntry.path).Nodup)
      (below : ∀ entry ∈ entries, NamesDiffer entry.dirChilds) :
      NamesDiffer entries

theorem placedFilesOf_eq (entries : List DirectoryEntry) :
    placedFilesOf entries = entries.flatMap placedFiles := by
  induction entries with
  | nil => rfl
  | cons entry entries inductionHypothesis =>
      rw [placedFilesOf, inductionHypothesis, List.flatMap_cons]

theorem placedFiles_eq (entry : DirectoryEntry) :
    entry.placedFiles =
      under entry.path
        (entry.filesChilds.map (fun file => ([], file)) ++
          placedFilesOf entry.dirChilds) := by
  cases entry
  rfl

theorem directoryPathsOf_eq (entries : List DirectoryEntry) :
    directoryPathsOf entries = entries.flatMap directoryPaths := by
  induction entries with
  | nil => rfl
  | cons entry entries inductionHypothesis =>
      rw [directoryPathsOf, inductionHypothesis, List.flatMap_cons]

theorem directoryPaths_eq (entry : DirectoryEntry) :
    entry.directoryPaths =
      pathsUnder entry.path ([] :: directoryPathsOf entry.dirChilds) := by
  cases entry
  rfl

theorem placedFilesOf_append (first second : List DirectoryEntry) :
    placedFilesOf (first ++ second) =
      placedFilesOf first ++ placedFilesOf second := by
  simp only [placedFilesOf_eq, List.flatMap_append]

theorem directoryPathsOf_append (first second : List DirectoryEntry) :
    directoryPathsOf (first ++ second) =
      directoryPathsOf first ++ directoryPathsOf second := by
  simp only [directoryPathsOf_eq, List.flatMap_append]

end DirectoryEntry

open DirectoryEntry

/-- The files at one path of a forest. -/
def filesAt (path : List (Option Name)) (entries : List DirectoryEntry) :
    List FileEntry :=
  valuesAt path (placedFilesOf entries)

@[simp]
theorem filesAt_nil (path : List (Option Name)) : filesAt path [] = [] := by
  simp [filesAt, placedFilesOf]

theorem filesAt_append (path : List (Option Name))
    (first second : List DirectoryEntry) :
    filesAt path (first ++ second) =
      filesAt path first ++ filesAt path second := by
  unfold filesAt
  rw [placedFilesOf_append, valuesAt_append]

theorem filesAt_cons (path : List (Option Name)) (entry : DirectoryEntry)
    (entries : List DirectoryEntry) :
    filesAt path (entry :: entries) =
      filesAt path [entry] ++ filesAt path entries := by
  rw [← List.singleton_append, filesAt_append]

theorem filesAt_root (entries : List DirectoryEntry) :
    filesAt [] entries = [] := by
  induction entries with
  | nil => simp
  | cons entry entries inductionHypothesis =>
      rw [filesAt_cons, inductionHypothesis, List.append_nil]
      unfold filesAt
      rw [placedFilesOf_eq, List.flatMap_singleton, placedFiles_eq,
        valuesAt_under_nil]

/-- The files of a directory itself, at the end of a path. -/
def ownFiles (path : List (Option Name)) (files : List FileEntry) :
    List FileEntry :=
  if path = [] then files else []

theorem ownFiles_append (path : List (Option Name))
    (first second : List FileEntry) :
    ownFiles path (first ++ second) =
      ownFiles path first ++ ownFiles path second := by
  unfold ownFiles
  split <;> simp

theorem valuesAt_own (path : List (Option Name)) (files : List FileEntry) :
    valuesAt path (files.map fun file => ([], file)) =
      ownFiles path files := by
  unfold ownFiles
  by_cases here : path = []
  · subst here
    simp [valuesAt, List.filter_map, Function.comp_def]
  · simp [valuesAt, List.filter_map, Function.comp_def, Ne.symm here, here]

theorem filesAt_singleton (name : Option Name) (path : List (Option Name))
    (entry : DirectoryEntry) :
    filesAt (name :: path) [entry] =
      if entry.path = name then
        ownFiles path entry.filesChilds ++ filesAt path entry.dirChilds
      else
        [] := by
  unfold filesAt
  rw [placedFilesOf_eq, List.flatMap_singleton, placedFiles_eq,
    valuesAt_under, valuesAt_append, valuesAt_own]

/-- A name that no directory has leads to no file. -/
theorem filesAt_of_absent {name : Option Name}
    {entries : List DirectoryEntry}
    (absent : ∀ entry ∈ entries, entry.path ≠ name)
    (path : List (Option Name)) :
    filesAt (name :: path) entries = [] := by
  induction entries with
  | nil => simp
  | cons entry entries inductionHypothesis =>
      rw [filesAt_cons, filesAt_singleton, if_neg (absent entry (by simp)),
        inductionHypothesis
          (fun later member => absent later (by simp [member])),
        List.append_nil]

theorem mem_directoryPaths (entry : DirectoryEntry)
    {path : List (Option Name)} :
    path ∈ entry.directoryPaths ↔
      ∃ below, path = entry.path :: below ∧
        (below = [] ∨ below ∈ directoryPathsOf entry.dirChilds) := by
  rw [directoryPaths_eq, mem_pathsUnder]
  simp only [List.mem_cons]
  constructor
  · rintro ⟨below, member, same⟩
    exact ⟨below, same.symm, member⟩
  · rintro ⟨below, same, member⟩
    exact ⟨below, member, same.symm⟩

theorem mem_directoryPathsOf (entries : List DirectoryEntry)
    {path : List (Option Name)} :
    path ∈ directoryPathsOf entries ↔
      ∃ entry ∈ entries, path ∈ entry.directoryPaths := by
  rw [directoryPathsOf_eq, List.mem_flatMap]

/-! ## The directory that a name finds -/

theorem getFileName_of_named {entry : DirectoryEntry}
    (named : entry.path.isSome = true) :
    ∃ name, entry.path = some name ∧ entry.getFileName = .ok name := by
  obtain ⟨name, same⟩ := Option.isSome_iff_exists.mp named
  refine ⟨name, same, ?_⟩
  rw [DirectoryEntry.getFileName, same]
  rfl

/-- Among directories with names, the last one of the child's name is found,
or there is none. -/
theorem lastNamed_spec {child : DirectoryEntry}
    {entries : List DirectoryEntry}
    (childNamed : child.path.isSome = true)
    (named : ∀ entry ∈ entries, entry.path.isSome = true) :
    ∃ looked, lastNamed child entries = .ok looked ∧
      match looked with
      | none => ∀ entry ∈ entries, entry.path ≠ child.path
      | some present =>
          entries = present.front ++ present.found :: present.back ∧
            present.found.path = child.path := by
  induction entries with
  | nil => exact ⟨none, rfl, by simp⟩
  | cons entry rest inductionHypothesis =>
      obtain ⟨later, lookedLater, spec⟩ :=
        inductionHypothesis (fun other member => named other (by simp [member]))
      obtain ⟨inName, inPath, inLooked⟩ :=
        getFileName_of_named (named entry (by simp))
      obtain ⟨newName, newPath, newLooked⟩ := getFileName_of_named childNamed
      refine ⟨LastNamed.step entry rest (inName = newName) later, ?_, ?_⟩
      · rw [lastNamed, inLooked, newLooked, lookedLater]
        rfl
      · cases later with
        | some present =>
            obtain ⟨split, same⟩ := spec
            exact ⟨by rw [List.cons_append, ← split], same⟩
        | none =>
            by_cases same : inName = newName
            · simp only [same, decide_true, LastNamed.step, if_true]
              exact ⟨rfl, by rw [inPath, newPath, same]⟩
            · simp only [same, decide_false, LastNamed.step]
              refine List.forall_mem_cons.mpr ⟨?_, spec⟩
              rw [inPath, newPath]
              exact fun equal => same (Option.some.inj equal)

/-! ## One directory more -/

/-- What a forest is after another has been merged into it. -/
structure MergedForest (first second merged : List DirectoryEntry) : Prop where
  namesDiffer : NamesDiffer merged
  files : ∀ path, filesAt path merged = filesAt path first ++ filesAt path second
  directories :
    ∀ path,
      path ∈ directoryPathsOf merged ↔
        path ∈ directoryPathsOf first ∨ path ∈ directoryPathsOf second

theorem MergedForest.trans {first second third middle merged :
      List DirectoryEntry}
    (left : MergedForest first second middle)
    (right : MergedForest middle third merged) :
    MergedForest first (second ++ third) merged where
  namesDiffer := right.namesDiffer
  files := by
    intro path
    rw [right.files, left.files, filesAt_append, List.append_assoc]
  directories := by
    intro path
    rw [right.directories, left.directories, directoryPathsOf_append,
      List.mem_append, or_assoc]

/-- The children of a directory can be merged into every forest. -/
def MergesBelow (child : DirectoryEntry) : Prop :=
  ∀ dirChilds, NamesDiffer dirChilds → NamesDiffer child.dirChilds →
    ∃ merged, mergeChildDirectories dirChilds child = .ok merged ∧
      MergedForest dirChilds child.dirChilds merged

theorem namesDiffer_append_singleton {dirChilds : List DirectoryEntry}
    {child : DirectoryEntry}
    (known : NamesDiffer dirChilds)
    (childNamed : child.path.isSome = true)
    (childBelow : NamesDiffer child.dirChilds)
    (absent : ∀ entry ∈ dirChilds, entry.path ≠ child.path) :
    NamesDiffer (dirChilds ++ [child]) := by
  obtain ⟨named, distinct, below⟩ := known
  refine ⟨?_, ?_, ?_⟩
  · intro entry member
    rcases List.mem_append.mp member with old | new
    · exact named entry old
    · rw [List.mem_singleton.mp new]
      exact childNamed
  · rw [List.map_append, List.nodup_append]
    refine ⟨distinct, by simp, ?_⟩
    intro path member other single same
    obtain ⟨entry, listed, own⟩ := List.mem_map.mp member
    rw [List.map_singleton, List.mem_singleton] at single
    exact absent entry listed (by rw [own, same, single])
  · intro entry member
    rcases List.mem_append.mp member with old | new
    · exact below entry old
    · rw [List.mem_singleton.mp new]
      exact childBelow

theorem namesDiffer_replaced {front back : List DirectoryEntry}
    {found changed : DirectoryEntry}
    (known : NamesDiffer (front ++ found :: back))
    (samePath : changed.path = found.path)
    (changedBelow : NamesDiffer changed.dirChilds) :
    NamesDiffer (front ++ changed :: back) := by
  obtain ⟨named, distinct, below⟩ := known
  refine ⟨?_, ?_, ?_⟩
  · intro entry member
    rcases List.mem_append.mp member with before | rest
    · exact named entry (by simp [before])
    · rcases List.mem_cons.mp rest with same | after
      · rw [same, samePath]
        exact named found (by simp)
      · exact named entry (by simp [after])
  · simpa [samePath] using distinct
  · intro entry member
    rcases List.mem_append.mp member with before | rest
    · exact below entry (by simp [before])
    · rcases List.mem_cons.mp rest with same | after
      · rw [same]
        exact changedBelow
      · exact below entry (by simp [after])

theorem filesAt_replaced {name : Option Name} {path : List (Option Name)}
    {front back : List DirectoryEntry} {found changed : DirectoryEntry}
    {added : List FileEntry}
    (lastOfName : ∀ entry ∈ back, entry.path ≠ found.path)
    (samePath : changed.path = found.path)
    (grows :
      found.path = name →
        filesAt (name :: path) [changed] =
          filesAt (name :: path) [found] ++ added)
    (onlyThere : found.path ≠ name → added = []) :
    filesAt (name :: path) (front ++ changed :: back) =
      filesAt (name :: path) (front ++ found :: back) ++ added := by
  rw [filesAt_append, filesAt_append, filesAt_cons _ changed,
    filesAt_cons _ found]
  by_cases here : found.path = name
  · have nothingBehind : filesAt (name :: path) back = [] :=
      filesAt_of_absent (by rwa [← here]) path
    rw [grows here, nothingBehind, List.append_nil, List.append_nil,
      List.append_assoc]
  · rw [filesAt_singleton, filesAt_singleton, if_neg here,
      if_neg (by rwa [samePath]), onlyThere here, List.append_nil]

/-- A directory merged into the one of its name leaves the rest of the forest
alone. -/
theorem mergedForest_replaced {front back below : List DirectoryEntry}
    {found child : DirectoryEntry}
    (known : NamesDiffer (front ++ found :: back))
    (samePath : found.path = child.path)
    (mergedBelow : MergedForest found.dirChilds child.dirChilds below) :
    MergedForest (front ++ found :: back) [child]
      (front ++
        { found with
          filesChilds := found.filesChilds ++ child.filesChilds
          dirChilds := below } ::
        back) where
  namesDiffer := namesDiffer_replaced known rfl mergedBelow.namesDiffer
  files := by
    intro path
    cases path with
    | nil => simp only [filesAt_root, List.append_nil]
    | cons name path =>
        have lastOfName : ∀ entry ∈ back, entry.path ≠ found.path := by
          obtain ⟨_, distinct, _⟩ := known
          rw [List.map_append, List.map_cons, List.nodup_append] at distinct
          have behind := (List.nodup_cons.mp distinct.2.1).1
          intro entry member same
          exact behind (List.mem_map.mpr ⟨entry, member, same⟩)
        refine filesAt_replaced lastOfName rfl ?_ ?_
        · intro here
          have childHere : child.path = name := by rw [← samePath, here]
          rw [filesAt_singleton, filesAt_singleton, filesAt_singleton,
            if_pos here, if_pos here, if_pos childHere, ownFiles_append,
            mergedBelow.files]
          -- Of the two files and the two subtrees, only one is there.
          by_cases last : path = []
          · subst last
            simp [filesAt_root]
          · simp [ownFiles, last]
        · intro elsewhere
          rw [filesAt_singleton, if_neg (by rwa [← samePath])]
  directories := by
    intro path
    simp only [mem_directoryPathsOf, List.mem_append, List.mem_cons,
      or_and_right, exists_or, exists_eq_left, List.not_mem_nil, or_false]
    rw [mem_directoryPaths, mem_directoryPaths found,
      mem_directoryPaths child]
    simp only [mergedBelow.directories, ← samePath]
    grind

theorem mergedForest_pushed {dirChilds : List DirectoryEntry}
    {child : DirectoryEntry}
    (known : NamesDiffer dirChilds)
    (childNamed : child.path.isSome = true)
    (childBelow : NamesDiffer child.dirChilds)
    (absent : ∀ entry ∈ dirChilds, entry.path ≠ child.path) :
    MergedForest dirChilds [child] (dirChilds ++ [child]) where
  namesDiffer := namesDiffer_append_singleton known childNamed childBelow absent
  files := by
    intro path
    rw [filesAt_append]
  directories := by
    intro path
    rw [directoryPathsOf_append, List.mem_append]

theorem mergeOrPush_spec {dirChilds : List DirectoryEntry}
    {child : DirectoryEntry}
    (merges : MergesBelow child)
    (known : NamesDiffer dirChilds)
    (childNamed : child.path.isSome = true)
    (childBelow : NamesDiffer child.dirChilds) :
    ∃ looked merged,
      lastNamed child dirChilds = .ok looked ∧
        mergeOrPush
            (fun found => mergeChildDirectories found.dirChilds child) dirChilds
            child looked = .ok merged ∧
        MergedForest dirChilds [child] merged := by
  obtain ⟨named, distinct, below⟩ := known
  obtain ⟨looked, returned, spec⟩ := lastNamed_spec childNamed named
  cases looked with
  | none =>
      exact ⟨none, dirChilds ++ [child], returned, rfl,
        mergedForest_pushed ⟨named, distinct, below⟩ childNamed childBelow
          spec⟩
  | some present =>
      obtain ⟨split, samePath⟩ := spec
      have foundBelow : NamesDiffer present.found.dirChilds :=
        below present.found (by rw [split]; simp)
      obtain ⟨merged, mergedOk, mergedBelow⟩ :=
        merges present.found.dirChilds foundBelow childBelow
      have known : NamesDiffer (present.front ++ present.found :: present.back) :=
        split ▸ ⟨named, distinct, below⟩
      have replaced := mergedForest_replaced known samePath mergedBelow
      rw [← split] at replaced
      refine ⟨some present, _, returned, ?_, replaced⟩
      rw [mergeOrPush, mergedOk]
      rfl

/-! ## The loop and the recursion -/

theorem mergeChilds_spec {childs dirChilds : List DirectoryEntry}
    (each : ∀ child ∈ childs, MergesBelow child)
    (known : NamesDiffer dirChilds)
    (childsNamed : ∀ child ∈ childs, child.path.isSome = true)
    (childsBelow : ∀ child ∈ childs, NamesDiffer child.dirChilds) :
    ∃ merged, mergeChilds dirChilds childs = .ok merged ∧
      MergedForest dirChilds childs merged := by
  induction childs generalizing dirChilds with
  | nil =>
      refine ⟨dirChilds, rfl, known, ?_, ?_⟩
      · simp
      · simp [directoryPathsOf]
  | cons child childs inductionHypothesis =>
      obtain ⟨looked, next, found, stepped, first⟩ :=
        mergeOrPush_spec (each child (by simp)) known
          (childsNamed child (by simp)) (childsBelow child (by simp))
      obtain ⟨merged, returned, rest⟩ :=
        inductionHypothesis (fun later member => each later (by simp [member]))
          first.namesDiffer
          (fun later member => childsNamed later (by simp [member]))
          (fun later member => childsBelow later (by simp [member]))
      refine ⟨merged, ?_, first.trans rest⟩
      rw [mergeChilds, except_bind_eq_ok]
      exact ⟨looked, found, except_bind_eq_ok.mpr ⟨next, stepped, returned⟩⟩

theorem mergesBelow (child : DirectoryEntry) : MergesBelow child := by
  induction child using DirectoryEntry.induction with
  | step child inductionHypothesis =>
      intro dirChilds known childBelow
      obtain ⟨named, _, below⟩ := childBelow
      cases child
      rw [mergeChildDirectories]
      exact mergeChilds_spec inductionHypothesis known named below

theorem addAndMergeChildsDirectories_spec {dirChilds : List DirectoryEntry}
    {other : DirectoryEntry}
    (known : NamesDiffer dirChilds)
    (otherDiffers : NamesDiffer [other]) :
    ∃ merged, addAndMergeChildsDirectories dirChilds other = .ok merged ∧
      MergedForest dirChilds [other] merged := by
  obtain ⟨named, _, below⟩ := otherDiffers
  obtain ⟨looked, merged, found, stepped, forest⟩ :=
    mergeOrPush_spec (mergesBelow other) known (named other (by simp))
      (below other (by simp))
  refine ⟨merged, ?_, forest⟩
  rw [addAndMergeChildsDirectories, except_bind_eq_ok]
  exact ⟨looked, found, stepped⟩

theorem foldlM_addAndMerge {others dirChilds : List DirectoryEntry}
    (known : NamesDiffer dirChilds)
    (othersDiffer : ∀ other ∈ others, NamesDiffer [other]) :
    ∃ merged,
      others.foldlM addAndMergeChildsDirectories dirChilds = .ok merged ∧
        MergedForest dirChilds others merged := by
  induction others generalizing dirChilds with
  | nil =>
      refine ⟨dirChilds, rfl, known, ?_, ?_⟩
      · simp
      · simp [directoryPathsOf]
  | cons other others inductionHypothesis =>
      obtain ⟨next, added, first⟩ :=
        addAndMergeChildsDirectories_spec known (othersDiffer other (by simp))
      obtain ⟨merged, returned, rest⟩ :=
        inductionHypothesis first.namesDiffer
          (fun later member => othersDiffer later (by simp [member]))
      refine ⟨merged, ?_, first.trans rest⟩
      rw [List.foldlM_cons, except_bind_eq_ok]
      exact ⟨next, added, returned⟩

/-- The merged inputs hold the directories and the files of all inputs, each
file as often as the inputs do and those of one directory in their order. -/
theorem mergedInputs (inputs : List DirectoryEntry)
    (inputsDiffer : ∀ input ∈ inputs, NamesDiffer [input]) :
    ∃ merged,
      inputs.foldlM addAndMergeChildsDirectories [] = .ok merged ∧
        NamesDiffer merged ∧
        (placedFilesOf merged).Perm (inputs.flatMap placedFiles) ∧
        (∀ path,
          path ∈ directoryPathsOf merged ↔
            ∃ input ∈ inputs, path ∈ input.directoryPaths) ∧
        ∀ path,
          filesAt path merged =
            inputs.flatMap fun input => filesAt path [input] := by
  obtain ⟨merged, returned, forest⟩ :=
    foldlM_addAndMerge
      (⟨by simp, by simp, by simp⟩ : NamesDiffer []) inputsDiffer
  have files : ∀ path, filesAt path merged = filesAt path inputs := by
    intro path
    rw [forest.files, filesAt_nil, List.nil_append]
  refine ⟨merged, returned, forest.namesDiffer, ?_, ?_, ?_⟩
  · rw [← placedFilesOf_eq]
    exact perm_of_valuesAt files
  · intro path
    rw [forest.directories, mem_directoryPathsOf inputs]
    simp [directoryPathsOf]
  · intro path
    rw [files, filesAt, placedFilesOf_eq, valuesAt_flatMap]
    simp only [filesAt, placedFilesOf_eq, List.flatMap_singleton]

/-- Two inputs of one name, each with a directory of one name below. -/
def sharedInputs : List DirectoryEntry :=
  [.named (utf8 "usr")
      [.named (utf8 "lib") [] [.newBuffered (utf8 "a")],
        .named (utf8 "bin") [] []]
      [],
    .named (utf8 "usr")
      [.named (utf8 "lib") [] [.newBuffered (utf8 "b")]]
      [.newBuffered (utf8 "c")]]

theorem mergedInputs_sharedInputs :
    ∃ merged,
      sharedInputs.foldlM addAndMergeChildsDirectories [] = .ok merged ∧
        filesAt [some (utf8 "usr"), some (utf8 "lib")] merged =
          [.newBuffered (utf8 "a"), .newBuffered (utf8 "b")] := by
  have leaf : NamesDiffer [] := ⟨by simp, by simp, by simp⟩
  obtain ⟨merged, returned, _, _, _, files⟩ :=
    mergedInputs sharedInputs (by
      intro input member
      rcases List.mem_pair.mp member with same | same
      · subst same
        refine ⟨by simp [DirectoryEntry.named], by decide, ?_⟩
        simp only [List.mem_singleton, forall_eq]
        refine ⟨by simp [DirectoryEntry.named],
          by with_unfolding_all decide, ?_⟩
        simpa [DirectoryEntry.named] using leaf
      · subst same
        refine ⟨by simp [DirectoryEntry.named], by decide, ?_⟩
        simp only [List.mem_singleton, forall_eq]
        refine ⟨by simp [DirectoryEntry.named], by decide, ?_⟩
        simpa [DirectoryEntry.named] using leaf)
  refine ⟨merged, returned, ?_⟩
  rw [files]
  with_unfolding_all decide

end RustKernel.Iso
