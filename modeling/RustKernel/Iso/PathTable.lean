import RustKernel.Iso.Layout
import RustKernel.Iso.Writers

/-!
# Path tables

`assign_directory_identifiers` numbers all children of a directory before it
goes into the first of them, and `write_path_table_childs` writes their
records in the same order, so that the number of a directory is the position
of its record.
-/

namespace RustKernel.Iso

open RustKernel.Foundations
open RustKernel.Machine

namespace DirectoryEntry

mutual

/-- The directories below an entry in the order of the path table. -/
def listed : DirectoryEntry → List DirectoryEntry
  | ⟨_, _, _, dirChilds, _, _, _⟩ => dirChilds ++ listedBelow dirChilds

def listedBelow : List DirectoryEntry → List DirectoryEntry
  | [] => []
  | entry :: entries => entry.listed ++ listedBelow entries

end

theorem listedBelow_eq (entries : List DirectoryEntry) :
    listedBelow entries = entries.flatMap listed := by
  induction entries with
  | nil => rfl
  | cons entry entries inductionHypothesis =>
      rw [listedBelow, inductionHypothesis, List.flatMap_cons]

theorem listed_eq (entry : DirectoryEntry) :
    entry.listed = entry.dirChilds ++ entry.dirChilds.flatMap listed := by
  rw [← listedBelow_eq]
  cases entry
  rfl

theorem listed_childs_perm {entries : List DirectoryEntry}
    (each :
      ∀ entry ∈ entries, (entry :: entry.listed).Perm entry.directories) :
    (entries ++ entries.flatMap listed).Perm
      (entries.flatMap directories) := by
  induction entries with
  | nil => exact List.Perm.nil
  | cons entry entries inductionHypothesis =>
      rw [List.flatMap_cons, List.flatMap_cons]
      have later :=
        inductionHypothesis fun child member => each child (by simp [member])
      have moved :
          (entry :: entries ++ (entry.listed ++ entries.flatMap listed)).Perm
            ((entry :: entry.listed) ++
              (entries ++ entries.flatMap listed)) := by
        rw [List.cons_append, List.cons_append, ← List.append_assoc,
          ← List.append_assoc]
        apply List.Perm.cons
        exact List.perm_append_comm.append_right _
      exact moved.trans ((each entry (by simp)).append later)

/-- The path table lists every directory once. -/
theorem listed_perm (entry : DirectoryEntry) :
    (entry :: entry.listed).Perm entry.directories := by
  induction entry using DirectoryEntry.induction with
  | step entry inductionHypothesis =>
      rw [listed_eq, directories_eq]
      exact List.Perm.cons _ (listed_childs_perm inductionHypothesis)

theorem exists_parent_of_mem_listed {tree entry : DirectoryEntry}
    (member : entry ∈ tree.listed) :
    ∃ parent ∈ tree.directories, entry ∈ parent.dirChilds := by
  induction tree using DirectoryEntry.induction with
  | step tree inductionHypothesis =>
      rw [listed_eq, List.mem_append] at member
      rcases member with own | below
      · exact ⟨tree, by rw [directories_eq]; simp, own⟩
      · obtain ⟨child, childMember, inside⟩ := List.mem_flatMap.mp below
        obtain ⟨parent, listed, found⟩ :=
          inductionHypothesis child childMember inside
        refine ⟨parent, ?_, found⟩
        rw [directories_eq]
        exact List.mem_cons_of_mem _
          (List.mem_flatMap.mpr ⟨child, childMember, listed⟩)

end DirectoryEntry

/-! ## Numbers -/

/-- Every directory below carries the number of its parent, which is smaller
than its own. -/
def ParentsNumbered (tree : DirectoryEntry) : Prop :=
  ∀ entry ∈ tree.directories, ∀ child ∈ entry.dirChilds,
    child.parentIndex = entry.pathTableIndex ∧
      entry.pathTableIndex < child.pathTableIndex

theorem parentsNumbered_of_childs {tree : DirectoryEntry}
    (own :
      ∀ child ∈ tree.dirChilds,
        child.parentIndex = tree.pathTableIndex ∧
          tree.pathTableIndex < child.pathTableIndex)
    (below : ∀ child ∈ tree.dirChilds, ParentsNumbered child) :
    ParentsNumbered tree := by
  intro entry member
  rw [DirectoryEntry.directories_eq, List.mem_cons] at member
  rcases member with same | member
  · subst same
    exact own
  · obtain ⟨child, listed, inside⟩ := List.mem_flatMap.mp member
    exact below child listed entry inside

/-- The numbers that a traversal gives to the directories below a list of
entries. -/
structure Numbers (before after : Counters)
    (planned : List DirectoryEntry) : Prop where
  advances : before.lastIndex ≤ after.lastIndex
  fits : before.lastLba < 2 ^ 32 → after.lastLba < 2 ^ 32
  below :
    (planned.flatMap DirectoryEntry.listed).map
        DirectoryEntry.pathTableIndex =
      List.range' (before.lastIndex + 1) (after.lastIndex - before.lastIndex)
  parents : ∀ tree ∈ planned, ParentsNumbered tree

/-- What the traversal of one entry does to the numbers. -/
def AssignsNumbers (tree : DirectoryEntry) : Prop :=
  ∀ parentIndex pathTableIndex before after planned,
    before.lastIndex ≠ 0 → pathTableIndex ≤ before.lastIndex →
    (assignDirectoryIdentifiers parentIndex pathTableIndex tree).run before =
      .ok planned after →
    Numbers before after [planned]

theorem Numbers.append {before middle after : Counters}
    {first second : List DirectoryEntry} (begun : Numbers before middle first)
    (ended : Numbers middle after second) :
    Numbers before after (first ++ second) where
  advances := Nat.le_trans begun.advances ended.advances
  fits := fun bounded => ended.fits (begun.fits bounded)
  below := by
    have first := begun.advances
    have second := ended.advances
    rw [List.flatMap_append, List.map_append, begun.below, ended.below]
    have split :
        after.lastIndex - before.lastIndex =
          (middle.lastIndex - before.lastIndex) +
            (after.lastIndex - middle.lastIndex) := by
      omega
    rw [split, ← List.range'_append_1]
    congr 2
    omega
  parents := by
    intro tree member
    rcases List.mem_append.mp member with early | late
    · exact begun.parents tree early
    · exact ended.parents tree late

theorem assignChilds_numbers {parentIndex pathTableIndex : Nat}
    {entries planned : List DirectoryEntry} {before after : Counters}
    (each : ∀ entry ∈ entries, AssignsNumbers entry)
    (below : before.lastIndex ≠ 0)
    (given : pathTableIndex + entries.length ≤ before.lastIndex + 1)
    (returned :
      (assignChilds parentIndex pathTableIndex entries).run before =
        .ok planned after) :
    planned.map DirectoryEntry.pathTableIndex =
        List.range' pathTableIndex entries.length ∧
      (∀ child ∈ planned, child.parentIndex = parentIndex) ∧
      Numbers before after planned := by
  induction entries generalizing pathTableIndex planned before with
  | nil =>
      obtain ⟨rfl, rfl⟩ := assignChilds_nil_run_ok returned
      refine ⟨rfl, by simp, Nat.le_refl _, fun bounded => bounded, ?_, by simp⟩
      rw [Nat.sub_self]
      rfl
  | cons entry entries inductionHypothesis =>
      obtain ⟨first, rest, middle, rfl, assigned, looped⟩ :=
        assignChilds_cons_run_ok returned
      rw [List.length_cons] at given ⊢
      obtain ⟨_, _, _, _, rfl, _, fields, _, _⟩ := assign_run_ok assigned
      rw [if_neg below, if_neg below] at fields
      have begun :=
        each entry (by simp) _ _ _ _ _ below (by omega) assigned
      have advanced := begun.advances
      obtain ⟨numbers, parents, ended⟩ :=
        inductionHypothesis
          (fun later member => each later (by simp [member])) (by omega)
          (by omega) looped
      refine ⟨?_, ?_, begun.append ended⟩
      · rw [List.map_cons, fields.pathTableIndex, numbers, List.range'_succ]
      · exact List.forall_mem_cons.mpr ⟨fields.parentIndex, parents⟩

/-- The numbers of a step, for a number and a counter that are known. -/
theorem numbers_of_childs {tree planned : DirectoryEntry}
    {index last lastLba : Nat} {after : Counters} (positive : last ≠ 0)
    (numbered : planned.pathTableIndex = index) (known : index ≤ last)
    (each : ∀ entry ∈ tree.dirChilds, AssignsNumbers entry)
    (looped :
      (assignChilds index (last + 1) tree.dirChilds).run
        ⟨last + tree.dirChilds.length, lastLba⟩ = .ok planned.dirChilds after) :
    Numbers ⟨last, lastLba⟩ after [planned] := by
  obtain ⟨numbers, parents, below⟩ :=
    assignChilds_numbers each (by simp; omega) (by simp; omega)
      looped
  have advances := below.advances
  have counted := below.below
  simp only at advances counted
  refine ⟨by simp; omega, below.fits, ?_, ?_⟩
  · rw [List.flatMap_singleton, DirectoryEntry.listed_eq, List.map_append,
      numbers, counted]
    have split :
        after.lastIndex - last =
          tree.dirChilds.length +
            (after.lastIndex - (last + tree.dirChilds.length)) := by
      omega
    simp only
    rw [split, ← List.range'_append_1]
    congr 2
    omega
  · intro same member
    rw [List.mem_singleton] at member
    subst member
    apply parentsNumbered_of_childs
    · intro child member
      refine ⟨?_, ?_⟩
      · rw [parents child member, numbered]
      · have inRange :
            child.pathTableIndex ∈
              List.range' (last + 1) tree.dirChilds.length := by
          rw [← numbers]
          exact List.mem_map_of_mem member
        rw [List.mem_range'_1] at inRange
        omega
    · exact below.parents

theorem assign_numbers (tree : DirectoryEntry) : AssignsNumbers tree := by
  induction tree using DirectoryEntry.induction with
  | step tree inductionHypothesis =>
      intro parentIndex pathTableIndex before after planned below known returned
      obtain ⟨extentSize, index, last, _, rfl, rfl, fields, fits, looped⟩ :=
        assign_run_ok returned
      rw [if_neg below, if_neg below] at looped
      rw [if_neg below, if_neg below] at fields
      have numbers :=
        numbers_of_childs below fields.pathTableIndex known
          inductionHypothesis looped
      exact ⟨numbers.advances, fun _ => numbers.fits fits, numbers.below,
        numbers.parents⟩

/-- The directories of a planned tree, as the path table needs them. -/
structure Planned (tree : DirectoryEntry) : Prop where
  numbers :
    (tree :: tree.listed).map DirectoryEntry.pathTableIndex =
      List.range' 1 (tree.listed.length + 1)
  rootParent : tree.parentIndex = 1
  parents : ParentsNumbered tree
  sized : ∀ entry ∈ tree.directories, ∃ count, entry.getExtentSizeInLb = .ok count
  lbaFits : ∀ entry ∈ tree.directories, entry.lba < 2 ^ 32

theorem sized_of_extents {entries : List DirectoryEntry}
    {ranges : List Range} {low high : Nat}
    (listed : extents entries = .ok ranges)
    (ascending : Ascending low high ranges) :
    ∀ entry ∈ entries,
      (∃ count, entry.getExtentSizeInLb = .ok count) ∧ entry.lba ≤ high := by
  induction entries generalizing low ranges with
  | nil => simp
  | cons entry entries inductionHypothesis =>
      obtain ⟨range, rest, first, later, rfl⟩ := mapM_cons_eq_ok.mp listed
      rw [DirectoryEntry.extent, except_bind_eq_ok] at first
      obtain ⟨count, sized, closed⟩ := first
      cases closed
      have below := ascending.bounds ⟨entry.lba, count⟩ (by simp)
      refine List.forall_mem_cons.mpr ⟨⟨⟨count, sized⟩, ?_⟩, ?_⟩
      · exact Nat.le_trans (Nat.le_add_right _ _) below.2
      · exact inductionHypothesis later ascending.2

theorem planned_of_assigned {tree planned : DirectoryEntry}
    {currentLba lastLba : Nat}
    (returned :
      assignDirectories currentLba tree = .ok (planned, lastLba)) :
    Planned planned := by
  obtain ⟨extentSize, ranges, sized, lba, _, _, listed, ascending⟩ :=
    assignDirectories_ascending returned
  rw [assignDirectories, except_bind_eq_ok] at returned
  obtain ⟨⟨assigned, counters⟩, begun, returned⟩ := returned
  rw [outcome_eq_ok] at begun
  cases returned
  obtain ⟨_, _, _, _, rfl, rfl, fields, fits, looped⟩ := assign_run_ok begun
  simp only [if_true] at fields looped
  have numbers :
      Numbers ⟨1, currentLba + areaBlocks tree + _⟩ counters [assigned] :=
    numbers_of_childs Nat.one_ne_zero fields.pathTableIndex (Nat.le_refl 1)
      (fun entry _ => assign_numbers entry) looped
  have bounded := numbers.fits fits
  have below := sized_of_extents listed ascending
  have counted := numbers.below
  rw [List.flatMap_singleton, DirectoryEntry.listed_eq] at counted
  have parents := numbers.parents assigned (by simp)
  constructor
  · have lengths := congrArg List.length counted
    rw [List.length_map, List.length_range'] at lengths
    rw [DirectoryEntry.listed_eq, List.map_cons, List.range'_succ, lengths,
      counted, fields.pathTableIndex]
  · rfl
  · intro entry member
    rw [DirectoryEntry.directories_eq, List.mem_cons] at member
    rcases member with same | member
    · subst same
      exact parents assigned (by rw [DirectoryEntry.directories_eq]; simp)
    · apply parents entry
      rw [DirectoryEntry.directories_eq]
      exact List.mem_cons_of_mem _ member
  · intro entry member
    rw [DirectoryEntry.directories_eq, List.mem_cons] at member
    rcases member with same | member
    · exact ⟨extentSize, same ▸ sized⟩
    · exact (below entry member).1
  · intro entry member
    rw [DirectoryEntry.directories_eq, List.mem_cons] at member
    rcases member with same | member
    · subst same
      change currentLba < 2 ^ 32
      simp only at fits
      omega
    · have le := (below entry member).2
      omega

theorem assignChilds_count {parentIndex pathTableIndex : Nat}
    {entries planned : List DirectoryEntry} {before after : Counters}
    (each :
      ∀ entry ∈ entries, ∀ parentIndex pathTableIndex before after planned,
        (assignDirectoryIdentifiers parentIndex pathTableIndex entry).run
            before = .ok planned after →
          planned.directories.length = entry.directories.length)
    (returned :
      (assignChilds parentIndex pathTableIndex entries).run before =
        .ok planned after) :
    (planned.flatMap DirectoryEntry.directories).length =
      (entries.flatMap DirectoryEntry.directories).length := by
  induction entries generalizing pathTableIndex planned before with
  | nil => rw [(assignChilds_nil_run_ok returned).1]
  | cons entry entries inductionHypothesis =>
      obtain ⟨first, rest, middle, rfl, assigned, looped⟩ :=
        assignChilds_cons_run_ok returned
      rw [List.flatMap_cons, List.flatMap_cons, List.length_append,
        List.length_append, each entry (by simp) _ _ _ _ _ assigned,
        inductionHypothesis
          (fun later member => each later (by simp [member])) looped]

/-- The first traversal keeps the number of directories. -/
theorem assign_count (tree : DirectoryEntry) :
    ∀ parentIndex pathTableIndex before after planned,
      (assignDirectoryIdentifiers parentIndex pathTableIndex tree).run
          before = .ok planned after →
        planned.directories.length = tree.directories.length := by
  induction tree using DirectoryEntry.induction with
  | step tree inductionHypothesis =>
      intro parentIndex pathTableIndex before after planned returned
      obtain ⟨_, _, _, _, _, _, _, _, looped⟩ := assign_run_ok returned
      rw [DirectoryEntry.directories_eq, DirectoryEntry.directories_eq,
        List.length_cons, List.length_cons,
        assignChilds_count inductionHypothesis looped]

theorem assignDirectories_count {tree planned : DirectoryEntry}
    {currentLba lastLba : Nat}
    (returned :
      assignDirectories currentLba tree = .ok (planned, lastLba)) :
    planned.directories.length = tree.directories.length := by
  rw [assignDirectories, except_bind_eq_ok] at returned
  obtain ⟨⟨assigned, counters⟩, begun, returned⟩ := returned
  rw [outcome_eq_ok] at begun
  cases returned
  have count := assign_count tree _ _ _ _ _ begun
  rw [DirectoryEntry.directories_eq, List.length_cons] at count ⊢
  exact count

namespace Planned

variable {tree : DirectoryEntry}

theorem index_ne_one (planned : Planned tree) {entry : DirectoryEntry}
    (member : entry ∈ tree.listed) : entry.pathTableIndex ≠ 1 := by
  have numbers := planned.numbers
  rw [List.map_cons, List.range'_succ, List.cons.injEq] at numbers
  have inRange :
      entry.pathTableIndex ∈ List.range' (1 + 1) tree.listed.length := by
    rw [← numbers.2]
    exact List.mem_map_of_mem member
  rw [List.mem_range'_1] at inRange
  omega

theorem index_eq (planned : Planned tree) {k : Nat} {entry : DirectoryEntry}
    (found : (tree :: tree.listed)[k]? = some entry) :
    entry.pathTableIndex = k + 1 := by
  have numbered :
      ((tree :: tree.listed).map DirectoryEntry.pathTableIndex)[k]? =
        some entry.pathTableIndex := by
    rw [List.getElem?_map, found]
    rfl
  have within : k < tree.listed.length + 1 := by
    simpa using (List.getElem?_eq_some_iff.mp found).1
  rw [planned.numbers, List.getElem?_range' within, Option.some.injEq]
    at numbered
  omega

/-- The root carries its own number in place of its parent's, every other
directory the one of its parent. -/
theorem parent_cases (planned : Planned tree) {entry : DirectoryEntry}
    (member : entry ∈ tree :: tree.listed) :
    (entry = tree ∧ entry.parentIndex = 1) ∨
      ∃ parent ∈ tree.directories,
        entry ∈ parent.dirChilds ∧
          entry.parentIndex = parent.pathTableIndex ∧
          parent.pathTableIndex < entry.pathTableIndex := by
  rcases List.mem_cons.mp member with same | below
  · subst same
    exact Or.inl ⟨rfl, planned.rootParent⟩
  · obtain ⟨parent, listed, inside⟩ :=
      DirectoryEntry.exists_parent_of_mem_listed below
    obtain ⟨same, lower⟩ := planned.parents parent listed entry inside
    exact Or.inr ⟨parent, listed, inside, same, lower⟩

theorem parentIndex_le (planned : Planned tree) {k : Nat}
    {entry : DirectoryEntry}
    (found : (tree :: tree.listed)[k]? = some entry) :
    entry.parentIndex ≤ k + 1 := by
  have index := planned.index_eq found
  rcases planned.parent_cases (List.mem_of_getElem? found) with
    ⟨_, root⟩ | ⟨parent, _, _, same, lower⟩
  · omega
  · omega

end Planned

/-! ## Sizes -/

/-- A directory whose extent has a size has a name that is accepted. -/
theorem name_of_sized {entry : DirectoryEntry} {count : Nat}
    (sized : entry.getExtentSizeInLb = .ok count) :
    ∃ fileName fixed,
      entry.getFileName = .ok fileName ∧ fileName.length ≤ 251 ∧
        convertName fileName = .ok fixed := by
  rw [DirectoryEntry.getExtentSizeInLb, except_bind_eq_ok] at sized
  obtain ⟨current, measured, _⟩ := sized
  rw [DirectoryEntry.getEntrySize, except_bind_eq_ok] at measured
  obtain ⟨fileName, named, measured⟩ := measured
  obtain ⟨short, fixed, converted, _⟩ := getEntrySize_eq_ok.mp measured
  exact ⟨fileName, fixed, named, short, converted⟩

/-- The identifier of a directory in the path table. -/
def pathIdentifier (entry : DirectoryEntry) : Except Fault (List UInt8) := do
  let fileName ← entry.getFileName
  let fixed ← convertName fileName
  return if entry.pathTableIndex = 1 then [0] else fixed

/-- The size of a record of the path table. -/
def pathRecordSize (identifier : List UInt8) : Nat :=
  8 + identifier.length + identifier.length % 2

theorem pathEntrySize_eq (entry : DirectoryEntry) {fileName fixed : Name}
    (short : fileName.length ≤ 251)
    (converted : convertName fileName = .ok fixed) :
    getEntrySize 0x8 fileName (if entry.pathTableIndex = 1 then 5 else 6) 0 =
      .ok (pathRecordSize (if entry.pathTableIndex = 1 then [0] else fixed)) := by
  rw [getEntrySize_eq_ok]
  refine ⟨short, fixed, converted, ?_⟩
  by_cases root : entry.pathTableIndex = 1
  · rw [if_pos root, if_pos root]
    rfl
  · rw [if_neg root, if_neg root]
    simp only [pathRecordSize, entrySize, measuredIdentifier]
    split <;> simp <;> omega

/-- The sum of the sizes of the records of a list of directories. -/
def pathTableSum (identifiers : List (List UInt8)) : Nat :=
  (identifiers.map pathRecordSize).sum

theorem pathTableSum_append (first second : List (List UInt8)) :
    pathTableSum (first ++ second) =
      pathTableSum first + pathTableSum second := by
  rw [pathTableSum, List.map_append, List.sum_append]
  rfl

/-- `get_path_table_size` is the sum of the sizes of the records, if the sum
is a `u32`. -/
def SumsPathTable (tree : DirectoryEntry) : Prop :=
  (∀ entry ∈ tree.directories, ∃ count, entry.getExtentSizeInLb = .ok count) →
    ∀ identifiers,
      tree.directories.mapM pathIdentifier = .ok identifiers →
      pathTableSum identifiers < 2 ^ 32 →
      tree.getPathTableSize = .ok (pathTableSum identifiers)

theorem pathTableSizes_eq {entries : List DirectoryEntry} {res : Nat}
    {identifiers : List (List UInt8)}
    (each : ∀ entry ∈ entries, SumsPathTable entry)
    (sized :
      ∀ entry ∈ entries.flatMap DirectoryEntry.directories,
        ∃ count, entry.getExtentSizeInLb = .ok count)
    (named :
      (entries.flatMap DirectoryEntry.directories).mapM pathIdentifier =
        .ok identifiers)
    (fits : res + pathTableSum identifiers < 2 ^ 32) :
    DirectoryEntry.pathTableSizes res entries =
      .ok (res + pathTableSum identifiers) := by
  induction entries generalizing res identifiers with
  | nil =>
      cases named
      rfl
  | cons entry entries inductionHypothesis =>
      rw [List.flatMap_cons] at named sized
      obtain ⟨first, second, begun, ended, rfl⟩ := mapM_append_eq_ok.mp named
      rw [pathTableSum_append] at fits ⊢
      have own :=
        each entry (by simp) (fun other member => sized other (by simp [member]))
          first begun (by omega)
      have added :
          addU32 res (pathTableSum first) = .ok (res + pathTableSum first) :=
        addU32_eq_ok.mpr ⟨by omega, rfl⟩
      rw [DirectoryEntry.pathTableSizes, own]
      change (addU32 res (pathTableSum first) >>= _) = _
      rw [added]
      change
        DirectoryEntry.pathTableSizes (res + pathTableSum first) entries = _
      rw [inductionHypothesis
          (fun later member => each later (by simp [member]))
          (fun other member =>
            sized other (List.mem_append_right _ member))
          ended (by omega),
        Nat.add_assoc]

theorem getPathTableSize_eq (tree : DirectoryEntry) : SumsPathTable tree := by
  induction tree using DirectoryEntry.induction with
  | step tree inductionHypothesis =>
      intro sized identifiers named fits
      rw [DirectoryEntry.directories_eq] at named sized
      obtain ⟨own, below, first, later, rfl⟩ := mapM_cons_eq_ok.mp named
      obtain ⟨count, measured⟩ := sized tree (by simp)
      obtain ⟨fileName, fixed, found, short, converted⟩ :=
        name_of_sized measured
      have identifier :
          own = if tree.pathTableIndex = 1 then [0] else fixed := by
        rw [pathIdentifier, found] at first
        change (convertName fileName >>= _) = _ at first
        rw [converted] at first
        cases first
        rfl
      have entry := pathEntrySize_eq tree short converted
      rw [← identifier] at entry
      have sum : pathTableSum (own :: below) =
          pathRecordSize own + pathTableSum below := by
        rw [pathTableSum, List.map_cons, List.sum_cons]
        rfl
      rw [sum] at fits ⊢
      have rest :=
        pathTableSizes_eq inductionHypothesis
          (fun other member => sized other (List.mem_cons_of_mem _ member))
          later fits
      cases tree with
      | mk index parent path dirChilds filesChilds area lba =>
          rw [DirectoryEntry.getFileName] at found
          simp only at found entry rest
          rw [DirectoryEntry.getPathTableSize, found]
          change (getEntrySize 0x8 fileName (if index = 1 then 5 else 6) 0 >>= _) = _
          rw [entry]
          exact rest

/-! ## Records -/

theorem pathRecordBytes_length (order : ByteOrder) (lba parentIndex : Nat)
    (identifier : List UInt8) :
    (pathRecordBytes order lba parentIndex identifier).length =
      pathRecordSize identifier := by
  simp [pathRecordBytes, pathRecordSize]
  omega

/-- The record of a directory, read back from its bytes. -/
structure IsPathRecord (order : ByteOrder) (entry : DirectoryEntry)
    (record : List UInt8) : Prop where
  lba : order.value (bytesAt record 2 4) = entry.lba
  parent : order.value (bytesAt record 6 2) = entry.parentIndex
  identifier :
    pathIdentifier entry = .ok (bytesAt record 8 (record.headD 0).toNat)

theorem isPathRecord_of_fits {order : ByteOrder} {entry : DirectoryEntry}
    {identifier : List UInt8}
    (named : pathIdentifier entry = .ok identifier)
    (short : identifier.length ≤ 12) (lbaFits : entry.lba < 2 ^ 32)
    (parentFits : entry.parentIndex < 2 ^ 16) :
    IsPathRecord order entry
      (pathRecordBytes order entry.lba entry.parentIndex identifier) := by
  have front :
      ([UInt8.ofNat identifier.length, 0] : List UInt8).length = 2 := rfl
  have lbaLength := order.bytes_length 4 entry.lba
  have parentLength := order.bytes_length 2 entry.parentIndex
  have head : (UInt8.ofNat identifier.length).toNat = identifier.length := by
    rw [UInt8.toNat_ofNat']
    omega
  unfold pathRecordBytes
  rw [List.append_assoc, List.append_assoc, List.append_assoc]
  constructor
  · rw [show 2 = 2 + 0 by rfl, bytesAt_behind front, bytesAt_front lbaLength]
    exact order.value_bytes_of_lt lbaFits
  · rw [show 6 = 2 + (4 + 0) by rfl, bytesAt_behind front,
      bytesAt_behind lbaLength, bytesAt_front parentLength]
    exact order.value_bytes_of_lt parentFits
  · rw [List.cons_append, List.headD_cons, head, ← List.cons_append,
      show 8 = 2 + (4 + (2 + 0)) by rfl, bytesAt_behind front,
      bytesAt_behind lbaLength, bytesAt_behind parentLength,
      bytesAt_front rfl]
    exact named

/-- The record of a directory, as the path table has it. -/
def tableRecord (order : ByteOrder) (entry : DirectoryEntry) :
    Except Fault (List UInt8) := do
  let identifier ← pathIdentifier entry
  return pathRecordBytes order entry.lba entry.parentIndex identifier

theorem pathTableRecord_eq (order : ByteOrder) {directoryType : Nat}
    {entry : DirectoryEntry}
    (agrees : directoryType = 1 ↔ entry.pathTableIndex = 1) :
    pathTableRecord order directoryType entry = tableRecord order entry := by
  unfold pathTableRecord tableRecord pathIdentifier
  simp only [bind_assoc, agrees, pure_bind]

theorem tableRecord_eq_ok {order : ByteOrder} {entry : DirectoryEntry}
    {record : List UInt8} :
    tableRecord order entry = .ok record ↔
      ∃ identifier,
        pathIdentifier entry = .ok identifier ∧
          record =
            pathRecordBytes order entry.lba entry.parentIndex identifier := by
  rw [tableRecord, except_bind_eq_ok]
  constructor
  · intro built
    obtain ⟨identifier, named, closed⟩ := built
    cases closed
    exact ⟨identifier, named, rfl⟩
  · intro built
    obtain ⟨identifier, named, rfl⟩ := built
    exact ⟨identifier, named, rfl⟩

theorem pathIdentifier_length {entry : DirectoryEntry}
    {identifier : List UInt8}
    (named : pathIdentifier entry = .ok identifier) :
    identifier.length ≤ 12 := by
  rw [pathIdentifier, except_bind_eq_ok] at named
  obtain ⟨fileName, _, named⟩ := named
  rw [except_bind_eq_ok] at named
  obtain ⟨fixed, converted, closed⟩ := named
  cases closed
  have short := convertName_length converted
  split
  · rw [List.length_singleton]
    omega
  · exact short

theorem exists_pathIdentifier {entry : DirectoryEntry} {count : Nat}
    (sized : entry.getExtentSizeInLb = .ok count) :
    ∃ identifier, pathIdentifier entry = .ok identifier := by
  obtain ⟨fileName, fixed, named, _, converted⟩ := name_of_sized sized
  exact ⟨_, except_bind_eq_ok.mpr
    ⟨fileName, named, except_bind_eq_ok.mpr ⟨fixed, converted, rfl⟩⟩⟩

/-- The lengths of the records are those that `get_path_table_size` adds. -/
theorem tableRecords_length {order : ByteOrder}
    {entries : List DirectoryEntry} {records identifiers : List (List UInt8)}
    (built : entries.mapM (tableRecord order) = .ok records)
    (named : entries.mapM pathIdentifier = .ok identifiers) :
    records.flatten.length = pathTableSum identifiers := by
  induction entries generalizing records identifiers with
  | nil =>
      cases built
      cases named
      rfl
  | cons entry entries inductionHypothesis =>
      obtain ⟨record, rest, first, later, rfl⟩ := mapM_cons_eq_ok.mp built
      obtain ⟨identifier, others, own, below, rfl⟩ := mapM_cons_eq_ok.mp named
      obtain ⟨same, named, rfl⟩ := tableRecord_eq_ok.mp first
      rw [own] at named
      cases named
      rw [List.flatten_cons, List.length_append, pathRecordBytes_length,
        inductionHypothesis later below]
      rfl

/-! ## The writers -/

theorem assertPathTableSize_run_ok {writtenSize pathTableSize : Nat}
    {output final : Output Origin} {result : Unit} :
    (assertPathTableSize writtenSize pathTableSize).run output =
        .ok result final ↔
      writtenSize = pathTableSize ∧ output = final := by
  by_cases same : writtenSize = pathTableSize
  · rw [assertPathTableSize, if_pos same, pure_run_ok]
    simp [same]
  · rw [assertPathTableSize, if_neg same]
    constructor
    · intro absent
      cases absent
    · intro both
      exact absurd both.1 same

theorem puts_entry {order : ByteOrder} {directoryType : Nat}
    (entry : DirectoryEntry) (record : List UInt8)
    (built : pathTableRecord order directoryType entry = .ok record) :
    Puts (.pathTable order) record
      (writePathTableEntry order directoryType entry) := by
  intro output
  obtain ⟨final, returned, emitted⟩ := puts_writeAll record output
  refine ⟨final, ?_, emitted⟩
  rw [writePathTableEntry,
    bind_run_of_ok _ (ofExcept_run_ok.mpr ⟨built, rfl⟩), returned]

/-- `write_path_table_childs` writes the records of the directories below an
entry. -/
def PutsListed (order : ByteOrder) (tree : DirectoryEntry) : Prop :=
  ∀ records,
    tree.listed.mapM (pathTableRecord order 0) = .ok records →
      Puts (.pathTable order) records.flatten (writePathTableChilds order tree)

theorem puts_below {order : ByteOrder} {entries : List DirectoryEntry}
    {records : List (List UInt8)}
    (each : ∀ entry ∈ entries, PutsListed order entry)
    (built :
      (entries.flatMap DirectoryEntry.listed).mapM (pathTableRecord order 0) =
        .ok records) :
    Puts (.pathTable order) records.flatten
      (writePathTableBelow order entries) := by
  induction entries generalizing records with
  | nil =>
      cases built
      exact puts_return
  | cons entry entries inductionHypothesis =>
      rw [List.flatMap_cons] at built
      obtain ⟨first, second, begun, ended, rfl⟩ := mapM_append_eq_ok.mp built
      rw [List.flatten_append, writePathTableBelow]
      exact (each entry (by simp) first begun).seq
        (inductionHypothesis
          (fun later member => each later (by simp [member])) ended)

theorem puts_listed (order : ByteOrder) (tree : DirectoryEntry) :
    PutsListed order tree := by
  induction tree using DirectoryEntry.induction with
  | step tree inductionHypothesis =>
      intro records built
      rw [DirectoryEntry.listed_eq] at built
      obtain ⟨first, second, begun, ended, rfl⟩ := mapM_append_eq_ok.mp built
      have own := Puts.forM puts_entry begun
      have below := puts_below inductionHypothesis ended
      rw [List.flatten_append]
      cases tree
      rw [writePathTableChilds]
      exact own.seq below

/-! ## The path table of a planned tree -/

theorem pathTableSum_le {identifiers : List (List UInt8)}
    (short : ∀ identifier ∈ identifiers, identifier.length ≤ 12) :
    pathTableSum identifiers ≤ 20 * identifiers.length := by
  induction identifiers with
  | nil => exact Nat.le_refl 0
  | cons identifier identifiers inductionHypothesis =>
      have later :=
        inductionHypothesis fun other member => short other (by simp [member])
      have own := short identifier (by simp)
      change
        pathRecordSize identifier + pathTableSum identifiers ≤
          20 * (identifiers.length + 1)
      unfold pathRecordSize
      omega

/-- The records of a planned tree, and their total size. -/
theorem Planned.exists_records {tree : DirectoryEntry}
    (planned : Planned tree) (few : tree.directories.length ≤ 65535)
    (order : ByteOrder) :
    ∃ records,
      (tree :: tree.listed).mapM (tableRecord order) = .ok records ∧
        tree.getPathTableSize = .ok records.flatten.length := by
  have reordered := DirectoryEntry.listed_perm tree
  have each :
      ∀ entry ∈ tree.directories,
        ∃ identifier, pathIdentifier entry = .ok identifier := by
    intro entry member
    obtain ⟨count, sized⟩ := planned.sized entry member
    exact exists_pathIdentifier sized
  obtain ⟨identifiers, named⟩ := exists_mapM_eq_ok each
  obtain ⟨ordered, orderedNamed⟩ :=
    exists_mapM_eq_ok fun entry member =>
      each entry (reordered.mem_iff.mp member)
  have built :
      ∀ entry ∈ tree :: tree.listed,
        ∃ record, tableRecord order entry = .ok record := by
    intro entry member
    obtain ⟨identifier, own⟩ := each entry (reordered.mem_iff.mp member)
    exact ⟨_, tableRecord_eq_ok.mpr ⟨identifier, own, rfl⟩⟩
  obtain ⟨records, recorded⟩ := exists_mapM_eq_ok built
  have sums : pathTableSum ordered = pathTableSum identifiers :=
    ((perm_of_mapM_eq_ok reordered orderedNamed named).map
      pathRecordSize).sum_nat
  have short : ∀ identifier ∈ identifiers, identifier.length ≤ 12 := by
    intro identifier member
    have listed : Except.ok identifier ∈ tree.directories.map pathIdentifier := by
      rw [map_eq_of_mapM_eq_ok named]
      exact List.mem_map_of_mem member
    obtain ⟨entry, _, own⟩ := List.mem_map.mp listed
    exact pathIdentifier_length own
  have count : identifiers.length = tree.directories.length :=
    (forall₂_of_mapM_eq_ok named).length_eq.symm
  have bounded := pathTableSum_le short
  refine ⟨records, recorded, ?_⟩
  rw [tableRecords_length recorded orderedNamed, sums]
  exact getPathTableSize_eq tree planned.sized identifiers named (by omega)

theorem Planned.puts_table {tree : DirectoryEntry} (planned : Planned tree)
    {order : ByteOrder} {records : List (List UInt8)}
    (built : (tree :: tree.listed).mapM (tableRecord order) = .ok records) :
    Puts (.pathTable order) records.flatten
      (writePathTableEntry order 1 tree >>= fun _ =>
        writePathTableChilds order tree) := by
  obtain ⟨record, rest, first, later, rfl⟩ := mapM_cons_eq_ok.mp built
  have root : tree.pathTableIndex = 0 + 1 := planned.index_eq rfl
  have agrees : 1 = 1 ↔ tree.pathTableIndex = 1 := by
    rw [root]
  rw [← pathTableRecord_eq order agrees] at first
  have below :
      tree.listed.mapM (pathTableRecord order 0) = .ok rest := by
    rw [← later]
    apply mapM_congr
    intro entry member
    apply pathTableRecord_eq
    have other := planned.index_ne_one member
    omega
  rw [List.flatten_cons]
  exact (puts_entry tree record first).seq (puts_listed order tree rest below)

theorem Planned.writePathTable_run {tree : DirectoryEntry}
    (planned : Planned tree) {order : ByteOrder} {pathTablePos : Nat}
    {records : List (List UInt8)}
    (built : (tree :: tree.listed).mapM (tableRecord order) = .ok records)
    (sized : tree.getPathTableSize = .ok records.flatten.length)
    (addressable : pathTablePos * logicSize < 2 ^ 32)
    (output : Output Origin) :
    ∃ count ended,
      (writePathTable order tree pathTablePos).run output =
          .ok () (ended.seeked output.position) ∧
        Emits (.pathTable order)
          (records.flatten ++ List.replicate count 0)
          (output.seeked (pathTablePos * logicSize)) ended := by
  have started :
      mulU32 pathTablePos logicSize = .ok (pathTablePos * logicSize) :=
    mulU32_eq_ok.mpr ⟨addressable, rfl⟩
  obtain ⟨tabled, returned, emitted⟩ :=
    planned.puts_table built
      (output.seeked (pathTablePos * logicSize))
  have behind :
      tabled.position =
        pathTablePos * logicSize + records.flatten.length :=
    emitted.position
  have asserted :
      tabled.position - pathTablePos * logicSize = records.flatten.length := by
    rw [behind, Nat.add_sub_cancel_left]
  have padded :
      Emits (.pathTable order) (List.replicate (room tabled.position) 0)
        tabled _ :=
    emits_written List.length_replicate tabled
  refine ⟨room tabled.position, _, ?_, emitted.append padded⟩
  rw [writePathTable, bind_run_of_ok _ (ofExcept_run_ok.mpr ⟨started, rfl⟩),
    Output.writeAt_run_ok]
  refine ⟨_, ?_, rfl⟩
  rw [← bind_assoc, bind_run_of_ok _ returned,
    bind_run_of_ok _ (Output.streamPosition_run tabled),
    bind_run_of_ok _ (ofExcept_run_ok.mpr ⟨sized, rfl⟩), assertPathTableSize,
    if_pos asserted]
  rfl

/-- The path table of a planned tree.  Its records are those of the
directories, one of each, in the order of their numbers. -/
theorem writePathTable_records {tree planned : DirectoryEntry}
    {currentLba lastLba pathTablePos : Nat}
    (few : tree.directories.length ≤ 65535)
    (numbered : assignDirectories currentLba tree = .ok (planned, lastLba))
    (addressable : pathTablePos * logicSize < 2 ^ 32)
    (order : ByteOrder) (output : Output Origin) :
    ∃ (ordered : List DirectoryEntry) (records : List (List UInt8))
        (count : Nat) (ended : Output Origin),
      ordered.Perm planned.directories ∧
        (writePathTable order planned pathTablePos).run output =
          .ok () (ended.seeked output.position) ∧
        Emits (.pathTable order)
          (records.flatten ++ List.replicate count 0)
          (output.seeked (pathTablePos * logicSize)) ended ∧
        planned.getPathTableSize = .ok records.flatten.length ∧
        records.length = planned.directories.length ∧
        ∀ k record, records[k]? = some record →
          ∃ entry,
            ordered[k]? = some entry ∧
              entry.pathTableIndex = k + 1 ∧
              IsPathRecord order entry record ∧
              entry.parentIndex ≤ k + 1 ∧
              ((entry = planned ∧ entry.parentIndex = 1) ∨
                ∃ parent ∈ planned.directories,
                  entry ∈ parent.dirChilds ∧
                    entry.parentIndex = parent.pathTableIndex) := by
  have facts := planned_of_assigned numbered
  have count := assignDirectories_count numbered
  have reordered := DirectoryEntry.listed_perm planned
  obtain ⟨records, built, sized⟩ := facts.exists_records (by omega) order
  obtain ⟨padding, ended, returned, emitted⟩ :=
    facts.writePathTable_run built sized addressable output
  have lengths := congrArg List.length (map_eq_of_mapM_eq_ok built)
  rw [List.length_map, List.length_map] at lengths
  have total := reordered.length_eq
  refine ⟨planned :: planned.listed, records, padding, ended, reordered,
    returned, emitted, sized, by omega, ?_⟩
  intro k record found
  obtain ⟨entry, listed, own⟩ := exists_of_mapM_eq_ok built found
  obtain ⟨identifier, named, rfl⟩ := tableRecord_eq_ok.mp own
  have member := List.mem_of_getElem? listed
  have inTree := reordered.mem_iff.mp member
  have within := (List.getElem?_eq_some_iff.mp listed).1
  have parent := facts.parentIndex_le listed
  refine ⟨entry, listed, facts.index_eq listed, ?_, parent, ?_⟩
  · exact isPathRecord_of_fits named (pathIdentifier_length named)
      (facts.lbaFits entry inTree) (by omega)
  · rcases facts.parent_cases member with root | below
    · exact Or.inl root
    · obtain ⟨parent, listed, inside, same, _⟩ := below
      exact Or.inr ⟨parent, listed, inside, same⟩

theorem writePathTable_records_bootTree :
    ∃ planned lastLba,
      assignDirectories 24 bootTree = .ok (planned, lastLba) ∧
        ∃ ended : Output Origin,
          (writePathTable .bigEndian planned 20).run Output.empty =
            .ok () (ended.seeked 0) := by
  obtain ⟨⟨planned, lastLba⟩, numbered⟩ :=
    except_eq_ok_of_isOk
      (by with_unfolding_all decide :
        (assignDirectories 24 bootTree).isOk = true)
  obtain ⟨_, _, _, ended, _, returned, _⟩ :=
    writePathTable_records (by decide) numbered
      (by decide : 20 * logicSize < 2 ^ 32) .bigEndian Output.empty
  exact ⟨planned, lastLba, numbered, ended, returned⟩

end RustKernel.Iso
