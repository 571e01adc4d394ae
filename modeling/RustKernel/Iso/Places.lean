import RustKernel.Iso.ParentRecords
import RustKernel.Iso.PathTable
import RustKernel.Iso.Placement

/-!
# The entries by their places

A place is the list of the indices on the way from the root to an entry.  An
index counts the records of the children, so those of the files come behind
those of the directories.  The traversals of the generator list the same
places in different orders.
-/

namespace RustKernel.Iso

open RustKernel.Foundations

namespace DirectoryEntry

mutual

/-- What is found at the directories of a tree, at every one before those
below it. -/
def gather {α : Type} (own : List Nat → DirectoryEntry → List α)
    (place : List Nat) : DirectoryEntry → List α
  | entry@⟨_, _, _, dirChilds, _, _, _⟩ =>
      own place entry ++ gatherFrom own place 0 dirChilds

def gatherFrom {α : Type} (own : List Nat → DirectoryEntry → List α)
    (place : List Nat) (index : Nat) : List DirectoryEntry → List α
  | [] => []
  | entry :: entries =>
      gather own (place ++ [index]) entry ++
        gatherFrom own place (index + 1) entries

end

/-- An entry with its place. -/
def here (place : List Nat) (entry : DirectoryEntry) :
    List (List Nat × DirectoryEntry) :=
  [(place, entry)]

/-- The directories below the root in the order of the first traversal. -/
def traversed (tree : DirectoryEntry) : List (List Nat × DirectoryEntry) :=
  gatherFrom here [] 0 tree.dirChilds

/-- The child directories of an entry with their places. -/
def locatedChilds (place : List Nat) (entry : DirectoryEntry) :
    List (List Nat × DirectoryEntry) :=
  entry.dirChilds.zipIdx.map fun numbered =>
    (place ++ [numbered.2], numbered.1)

/-- The directories below the root in the order of the path table. -/
def tabled (tree : DirectoryEntry) : List (List Nat × DirectoryEntry) :=
  gather locatedChilds [] tree

/-- The files of an entry with their places. -/
def locatedOwnFiles (place : List Nat) (entry : DirectoryEntry) :
    List (List Nat × FileEntry) :=
  (entry.filesChilds.zipIdx entry.dirChilds.length).map fun numbered =>
    (place ++ [numbered.2], numbered.1)

/-- The files of a tree in the order of the second traversal. -/
def locatedFiles (tree : DirectoryEntry) : List (List Nat × FileEntry) :=
  gather locatedOwnFiles [] tree

section Gather

variable {α β : Type} {own : List Nat → DirectoryEntry → List α}

theorem gather_eq (place : List Nat) (entry : DirectoryEntry) :
    gather own place entry =
      own place entry ++ gatherFrom own place 0 entry.dirChilds := by
  cases entry
  rfl

theorem mem_gatherFrom {place : List Nat} {index : Nat}
    {entries : List DirectoryEntry} {item : α} :
    item ∈ gatherFrom own place index entries ↔
      ∃ offset entry, entries[offset]? = some entry ∧
        item ∈ gather own (place ++ [index + offset]) entry := by
  induction entries generalizing index with
  | nil => simp [gatherFrom]
  | cons entry entries inductionHypothesis =>
      rw [gatherFrom, List.mem_append, inductionHypothesis]
      constructor
      · rintro (first | ⟨offset, later, found, inside⟩)
        · exact ⟨0, entry, rfl, first⟩
        · refine ⟨offset + 1, later, found, ?_⟩
          rw [← Nat.add_assoc, Nat.add_right_comm]
          exact inside
      · rintro ⟨_ | offset, other, found, inside⟩
        · cases found
          exact Or.inl inside
        · refine Or.inr ⟨offset, other, found, ?_⟩
          rw [Nat.add_right_comm, Nat.add_assoc]
          exact inside

/-- An item comes from one of the directories that can be located. -/
theorem mem_gather {item : α} (tree : DirectoryEntry) :
    ∀ (above : Option DirectoryEntry) (place : List Nat),
      item ∈ gather own place tree ↔
        ∃ below parent entry,
          locate above tree below = some (parent, entry) ∧
            item ∈ own (place ++ below) entry := by
  induction tree using DirectoryEntry.induction with
  | step tree inductionHypothesis =>
      intro above place
      rw [gather_eq, List.mem_append, mem_gatherFrom]
      constructor
      · rintro (here | ⟨index, child, found, inside⟩)
        · exact ⟨[], above, tree, rfl, by rwa [List.append_nil]⟩
        · rw [inductionHypothesis child (List.mem_of_getElem? found)
            (some tree)] at inside
          obtain ⟨below, parent, entry, located, inside⟩ := inside
          rw [Nat.zero_add, List.append_assoc] at inside
          exact ⟨index :: below, parent, entry,
            locate_cons.mpr ⟨child, found, located⟩, inside⟩
      · rintro ⟨_ | ⟨index, below⟩, parent, entry, located, inside⟩
        · cases located
          rw [List.append_nil] at inside
          exact Or.inl inside
        · obtain ⟨child, found, located⟩ := locate_cons.mp located
          refine Or.inr ⟨index, child, found, ?_⟩
          rw [inductionHypothesis child (List.mem_of_getElem? found)
            (some tree)]
          refine ⟨below, parent, entry, located, ?_⟩
          rw [Nat.zero_add, List.append_assoc]
          exact inside

theorem gatherFrom_congr {key : α → β} {firsts seconds : List DirectoryEntry}
    (each :
      List.Forall₂
        (fun first second => ∀ place,
          (gather own place first).map key = (gather own place second).map key)
        firsts seconds)
    (place : List Nat) (index : Nat) :
    (gatherFrom own place index firsts).map key =
      (gatherFrom own place index seconds).map key := by
  induction each generalizing index with
  | nil => rfl
  | cons same _ inductionHypothesis =>
      rw [gatherFrom, gatherFrom, List.map_append, List.map_append, same,
        inductionHypothesis]

theorem gatherFrom_map {key : α → β} {keys : DirectoryEntry → List β}
    {entries : List DirectoryEntry}
    (each :
      ∀ entry ∈ entries, ∀ place, (gather own place entry).map key = keys entry)
    (place : List Nat) (index : Nat) :
    (gatherFrom own place index entries).map key = entries.flatMap keys := by
  induction entries generalizing index with
  | nil => rfl
  | cons entry entries inductionHypothesis =>
      rw [gatherFrom, List.map_append, List.flatMap_cons, each entry (by simp),
        inductionHypothesis fun other member => each other (by simp [member])]

/-- Gathering does not look at what the layout changes, where the function at
the directories does not. -/
theorem gather_unplaced {key : α → β}
    (kept :
      ∀ place entry,
        (own place entry.unplaced).map key = (own place entry).map key)
    (tree : DirectoryEntry) :
    ∀ place,
      (gather own place tree.unplaced).map key =
        (gather own place tree).map key := by
  induction tree using DirectoryEntry.induction with
  | step tree inductionHypothesis =>
      intro place
      have childs : tree.unplaced.dirChilds = tree.dirChilds.map unplaced := by
        rw [unplaced_eq]
      have below :
          (gatherFrom own place 0 (tree.dirChilds.map unplaced)).map key =
            (gatherFrom own place 0 tree.dirChilds).map key := by
        apply gatherFrom_congr
        rw [List.forall₂_map_left_iff, List.forall₂_same]
        exact inductionHypothesis
      rw [gather_eq, gather_eq place tree, List.map_append, List.map_append,
        kept, childs, below]

/-- Without the places, the order is the one of the recursion. -/
theorem gather_map {key : α → β} {ownKeys keys : DirectoryEntry → List β}
    (same : ∀ place entry, (own place entry).map key = ownKeys entry)
    (keys_eq :
      ∀ entry, keys entry = ownKeys entry ++ entry.dirChilds.flatMap keys)
    (tree : DirectoryEntry) :
    ∀ place, (gather own place tree).map key = keys tree := by
  induction tree using DirectoryEntry.induction with
  | step tree inductionHypothesis =>
      intro place
      rw [gather_eq, List.map_append, same, keys_eq,
        gatherFrom_map inductionHypothesis]

end Gather

theorem tabled_listed (tree : DirectoryEntry) :
    tree.tabled.map Prod.snd = tree.listed := by
  apply gather_map _ listed_eq
  intro place entry
  unfold locatedChilds
  rw [List.map_map]
  exact List.zipIdx_map_fst 0 entry.dirChilds

theorem locatedFiles_files (tree : DirectoryEntry) :
    tree.locatedFiles.map Prod.snd = tree.files := by
  apply gather_map _ files_eq
  intro place entry
  unfold locatedOwnFiles
  rw [List.map_map]
  exact List.zipIdx_map_fst _ entry.filesChilds

/-- The places in the path table are those of the tree without its layout. -/
theorem tabled_places_unplaced (tree : DirectoryEntry) :
    tree.unplaced.tabled.map Prod.fst = tree.tabled.map Prod.fst := by
  apply gather_unplaced
  intro place entry
  have childs : entry.unplaced.dirChilds = entry.dirChilds.map unplaced := by
    rw [unplaced_eq]
  unfold locatedChilds
  rw [childs, List.zipIdx_map, List.map_map, List.map_map, List.map_map]
  rfl

end DirectoryEntry

/-! ## The record at a place -/

/-- The source of the child record at a place. -/
def RecordAt (tree : DirectoryEntry) (place : List Nat)
    (source : RecordSource) : Prop :=
  ∃ front index above parent,
    place = front ++ [index] ∧
      locate none tree front = some (above, parent) ∧
      (childSources parent)[index]? = some source

theorem RecordAt.unique {tree : DirectoryEntry} {place : List Nat}
    {source other : RecordSource} (here : RecordAt tree place source)
    (there : RecordAt tree place other) : source = other := by
  obtain ⟨front, index, above, parent, rfl, located, found⟩ := here
  obtain ⟨otherFront, otherIndex, _, _, same, locatedAgain, foundAgain⟩ := there
  obtain ⟨rfl, sameIndex⟩ := List.append_inj' same rfl
  cases sameIndex
  rw [located] at locatedAgain
  cases locatedAgain
  rw [found] at foundAgain
  exact Option.some.inj foundAgain

theorem childSources_directory_iff {parent child : DirectoryEntry}
    {index : Nat} :
    (childSources parent)[index]? = some (.directory 0 child) ↔
      parent.dirChilds[index]? = some child := by
  unfold childSources
  by_cases inside : index < parent.dirChilds.length
  · rw [List.getElem?_append_left (by simpa using inside), List.getElem?_map]
    simp
  · rw [List.getElem?_append_right (by simpa using inside), List.getElem?_map,
      List.getElem?_eq_none (Nat.le_of_not_lt inside)]
    simp

theorem childSources_file_iff {parent : DirectoryEntry} {file : FileEntry}
    {index : Nat} :
    (childSources parent)[index]? = some (.file file) ↔
      parent.dirChilds.length ≤ index ∧
        parent.filesChilds[index - parent.dirChilds.length]? = some file := by
  unfold childSources
  by_cases inside : index < parent.dirChilds.length
  · rw [List.getElem?_append_left (by simpa using inside), List.getElem?_map]
    simp
    omega
  · rw [List.getElem?_append_right (by simpa using inside), List.getElem?_map,
      List.length_map]
    simp
    omega

/-- A child record is of a directory or of a file. -/
theorem RecordAt.cases {tree : DirectoryEntry} {place : List Nat}
    {source : RecordSource} (here : RecordAt tree place source) :
    (∃ child, source = .directory 0 child) ∨ ∃ file, source = .file file := by
  obtain ⟨_, _, _, parent, _, _, found⟩ := here
  rcases List.mem_append.mp (List.mem_of_getElem? found) with
    directory | file
  · obtain ⟨child, _, same⟩ := List.mem_map.mp directory
    exact Or.inl ⟨child, same.symm⟩
  · obtain ⟨file, _, same⟩ := List.mem_map.mp file
    exact Or.inr ⟨file, same.symm⟩

theorem recordAt_directory_iff {tree entry : DirectoryEntry}
    {place : List Nat} :
    RecordAt tree place (.directory 0 entry) ↔
      place ≠ [] ∧ ∃ parent, locate none tree place = some (parent, entry) := by
  unfold RecordAt
  simp only [childSources_directory_iff]
  constructor
  · rintro ⟨front, index, above, parent, rfl, located, found⟩
    exact ⟨by simp, some parent,
      locate_concat.mpr ⟨above, parent, located, found, rfl⟩⟩
  · rintro ⟨below, parent, located⟩
    rcases List.eq_nil_or_concat place with none | ⟨front, index, same⟩
    · exact absurd none below
    · rw [List.concat_eq_append] at same
      subst same
      obtain ⟨above, directory, located, found, _⟩ := locate_concat.mp located
      exact ⟨front, index, above, directory, rfl, located, found⟩

theorem mem_traversed {tree entry : DirectoryEntry} {place : List Nat} :
    (place, entry) ∈ tree.traversed ↔
      RecordAt tree place (.directory 0 entry) := by
  rw [recordAt_directory_iff, DirectoryEntry.traversed,
    DirectoryEntry.mem_gatherFrom]
  constructor
  · rintro ⟨index, child, found, inside⟩
    rw [DirectoryEntry.mem_gather child (some tree)] at inside
    obtain ⟨below, parent, other, located, same⟩ := inside
    rw [DirectoryEntry.here, List.mem_singleton] at same
    cases same
    rw [Nat.zero_add]
    exact ⟨by simp, parent, locate_cons.mpr ⟨child, found, located⟩⟩
  · rintro ⟨below, parent, located⟩
    cases place with
    | nil => exact absurd rfl below
    | cons index place =>
        obtain ⟨child, found, located⟩ := locate_cons.mp located
        refine ⟨index, child, found, ?_⟩
        rw [DirectoryEntry.mem_gather child (some tree), Nat.zero_add]
        exact ⟨place, parent, entry, located, List.mem_singleton.mpr rfl⟩

theorem mem_tabled {tree entry : DirectoryEntry} {place : List Nat} :
    (place, entry) ∈ tree.tabled ↔
      RecordAt tree place (.directory 0 entry) := by
  unfold RecordAt DirectoryEntry.tabled DirectoryEntry.locatedChilds
  rw [DirectoryEntry.mem_gather tree none]
  simp only [childSources_directory_iff, List.mem_map, List.nil_append]
  constructor
  · rintro ⟨front, above, parent, located, ⟨child, index⟩, found, same⟩
    cases same
    rw [List.mem_zipIdx_iff_getElem?] at found
    exact ⟨front, index, above, parent, rfl, located, found⟩
  · rintro ⟨front, index, above, parent, rfl, located, found⟩
    refine ⟨front, above, parent, located, (entry, index), ?_, rfl⟩
    rw [List.mem_zipIdx_iff_getElem?]
    exact found

theorem mem_locatedFiles {tree : DirectoryEntry} {file : FileEntry}
    {place : List Nat} :
    (place, file) ∈ tree.locatedFiles ↔ RecordAt tree place (.file file) := by
  unfold RecordAt DirectoryEntry.locatedFiles DirectoryEntry.locatedOwnFiles
  rw [DirectoryEntry.mem_gather tree none]
  simp only [childSources_file_iff, List.mem_map, List.nil_append]
  constructor
  · rintro ⟨front, above, parent, located, ⟨child, index⟩, found, same⟩
    cases same
    rw [List.mk_mem_zipIdx_iff_le_and_getElem?_sub] at found
    exact ⟨front, index, above, parent, rfl, located, found⟩
  · rintro ⟨front, index, above, parent, rfl, located, found⟩
    refine ⟨front, above, parent, located, (file, index), ?_, rfl⟩
    rw [List.mk_mem_zipIdx_iff_le_and_getElem?_sub]
    exact found

/-! ## The second traversal -/

/-- A directory by its place, its block and its number. -/
def layoutKey (item : List Nat × DirectoryEntry) : List Nat × Nat × Nat :=
  (item.1, item.2.lba, item.2.pathTableIndex)

theorem reserveChilds_gathered {entries planned : List DirectoryEntry}
    {before after : Nat}
    (each :
      ∀ entry ∈ entries, ∀ place before after planned,
        (reserveFileSpace entry).run before = .ok planned after →
          (planned.gather DirectoryEntry.here place).map layoutKey =
            (entry.gather DirectoryEntry.here place).map layoutKey)
    (place : List Nat) (index : Nat)
    (returned : (reserveChilds entries).run before = .ok planned after) :
    (DirectoryEntry.gatherFrom DirectoryEntry.here place index planned).map
        layoutKey =
      (DirectoryEntry.gatherFrom DirectoryEntry.here place index entries).map
        layoutKey := by
  induction entries generalizing planned before index with
  | nil =>
      rw [reserveChilds, pure_run_ok] at returned
      rw [← returned.1]
  | cons entry entries inductionHypothesis =>
      obtain ⟨first, rest, middle, rfl, reserved, looped⟩ :=
        reserveChilds_cons_run_ok returned
      rw [DirectoryEntry.gatherFrom, DirectoryEntry.gatherFrom, List.map_append,
        List.map_append, each entry (by simp) _ _ _ _ reserved,
        inductionHypothesis
          (fun later member => each later (by simp [member])) _ looped]

/-- The second traversal leaves the directories where they are, with their
numbers. -/
theorem reserve_gathered (tree : DirectoryEntry) :
    ∀ place before after planned,
      (reserveFileSpace tree).run before = .ok planned after →
        (planned.gather DirectoryEntry.here place).map layoutKey =
          (tree.gather DirectoryEntry.here place).map layoutKey := by
  induction tree using DirectoryEntry.induction with
  | step tree inductionHypothesis =>
      intro place before after planned returned
      obtain ⟨_, fields, _, looped⟩ := reserveFileSpace_run_ok returned
      rw [DirectoryEntry.gather_eq, DirectoryEntry.gather_eq place tree,
        List.map_append, List.map_append,
        reserveChilds_gathered inductionHypothesis place 0 looped]
      congr 1
      simp only [DirectoryEntry.here, layoutKey, List.map_cons, List.map_nil,
        fields.lba, fields.pathTableIndex]

theorem reserve_traversed {tree planned : DirectoryEntry} {before after : Nat}
    (returned : (reserveFileSpace tree).run before = .ok planned after) :
    planned.traversed.map layoutKey = tree.traversed.map layoutKey := by
  obtain ⟨_, _, _, looped⟩ := reserveFileSpace_run_ok returned
  exact reserveChilds_gathered (fun entry _ => reserve_gathered entry) [] 0 looped

/-- The blocks of the directories, by the order of the tree. -/
theorem reserve_lbas {tree planned : DirectoryEntry} {before after : Nat}
    (returned : (reserveFileSpace tree).run before = .ok planned after) :
    planned.directories.map DirectoryEntry.lba =
      tree.directories.map DirectoryEntry.lba := by
  have blocks (entry : DirectoryEntry) :
      ((entry.gather DirectoryEntry.here []).map layoutKey).map
          (fun key => key.2.1) =
        entry.directories.map DirectoryEntry.lba := by
    have own (place : List Nat) (other : DirectoryEntry) :
        (DirectoryEntry.here place other).map
            ((fun key => key.2.1) ∘ layoutKey) =
          [other.lba] :=
      rfl
    have childs (other : DirectoryEntry) :
        other.directories.map DirectoryEntry.lba =
          [other.lba] ++
            other.dirChilds.flatMap fun child =>
              child.directories.map DirectoryEntry.lba := by
      rw [DirectoryEntry.directories_eq, List.map_cons, List.map_flatMap]
      rfl
    rw [List.map_map]
    exact DirectoryEntry.gather_map own childs entry []
  rw [← blocks planned, ← blocks tree, reserve_gathered tree _ _ _ _ returned]

end RustKernel.Iso
