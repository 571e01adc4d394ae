import RustKernel.Iso.PathTable

/-!
# The order of a path table

The records of the children of a directory stand before all records of the
directories below them, and the children are gone into one after another.
That is the order of the levels only as long as nothing deep stands in front
of something shallow.
-/

namespace RustKernel.Iso

open RustKernel.Foundations
open RustKernel.Machine

namespace DirectoryEntry

mutual

/-- The directories below an entry in the order of the path table, each with
its level. -/
def levelled (level : Nat) : DirectoryEntry → List (Nat × DirectoryEntry)
  | ⟨_, _, _, dirChilds, _, _, _⟩ =>
      dirChilds.map (fun child => (level + 1, child)) ++
        levelledBelow (level + 1) dirChilds

def levelledBelow (level : Nat) :
    List DirectoryEntry → List (Nat × DirectoryEntry)
  | [] => []
  | entry :: entries => entry.levelled level ++ levelledBelow level entries

end

/-- The directories of a tree in the order of the path table. -/
def levels (tree : DirectoryEntry) : List (Nat × DirectoryEntry) :=
  (0, tree) :: tree.levelled 0

/-- No child with directories two levels below it stands before a sibling with
a directory below it, at any directory. -/
inductive LevelOrdered : DirectoryEntry → Prop where
  | intro {entry : DirectoryEntry}
      (siblings :
        entry.dirChilds.Pairwise fun earlier later =>
          later.dirChilds = [] ∨
            ∀ child ∈ earlier.dirChilds, child.dirChilds = [])
      (below : ∀ child ∈ entry.dirChilds, LevelOrdered child) :
      LevelOrdered entry

theorem levelledBelow_eq (level : Nat) (entries : List DirectoryEntry) :
    levelledBelow level entries = entries.flatMap (levelled level) := by
  induction entries with
  | nil => rfl
  | cons entry entries inductionHypothesis =>
      rw [levelledBelow, inductionHypothesis, List.flatMap_cons]

theorem levelled_eq (level : Nat) (entry : DirectoryEntry) :
    entry.levelled level =
      entry.dirChilds.map (fun child => (level + 1, child)) ++
        entry.dirChilds.flatMap (levelled (level + 1)) := by
  rw [← levelledBelow_eq]
  cases entry
  rfl

theorem levelled_map_snd (entry : DirectoryEntry) :
    ∀ level, (entry.levelled level).map Prod.snd = entry.listed := by
  induction entry using DirectoryEntry.induction with
  | step entry inductionHypothesis =>
      intro level
      rw [levelled_eq, listed_eq, List.map_append, List.map_map,
        List.map_flatMap]
      congr 1
      · simp
      · exact List.flatMap_congr fun child member =>
          inductionHypothesis child member (level + 1)

theorem mem_levelled {level : Nat} {entry : DirectoryEntry}
    {placed : Nat × DirectoryEntry} :
    placed ∈ entry.levelled level ↔
      (∃ child ∈ entry.dirChilds, (level + 1, child) = placed) ∨
        ∃ child ∈ entry.dirChilds, placed ∈ child.levelled (level + 1) := by
  rw [levelled_eq, List.mem_append, List.mem_map, List.mem_flatMap]

theorem mem_levelled_of_child {level : Nat} {entry child : DirectoryEntry}
    (member : child ∈ entry.dirChilds) :
    (level + 1, child) ∈ entry.levelled level :=
  mem_levelled.mpr (Or.inl ⟨child, member, rfl⟩)

/-- Every directory below an entry has a parent one level up, which is the
entry itself or one of those below it. -/
theorem levelled_parent (entry : DirectoryEntry) :
    ∀ level, ∀ placed ∈ entry.levelled level,
      ∃ parent ∈ (level, entry) :: entry.levelled level,
        placed.1 = parent.1 + 1 ∧ placed.2 ∈ parent.2.dirChilds := by
  induction entry using DirectoryEntry.induction with
  | step entry inductionHypothesis =>
      intro level placed member
      rcases mem_levelled.mp member with own | below
      · obtain ⟨child, listed, same⟩ := own
        subst same
        exact ⟨(level, entry), by simp, rfl, listed⟩
      · obtain ⟨child, listed, inside⟩ := below
        obtain ⟨parent, found, one, holds⟩ :=
          inductionHypothesis child listed (level + 1) placed inside
        refine ⟨parent, List.mem_cons_of_mem _ ?_, one, holds⟩
        rcases List.mem_cons.mp found with same | deeper
        · rw [same]
          exact mem_levelled_of_child listed
        · exact mem_levelled.mpr (Or.inr ⟨child, listed, deeper⟩)

theorem levelled_childs (entry : DirectoryEntry) :
    ∀ level, ∀ parent ∈ (level, entry) :: entry.levelled level,
      ∀ child ∈ parent.2.dirChilds,
        (parent.1 + 1, child) ∈ entry.levelled level := by
  induction entry using DirectoryEntry.induction with
  | step entry inductionHypothesis =>
      intro level parent member child below
      rcases List.mem_cons.mp member with same | member
      · subst same
        exact mem_levelled_of_child below
      · rcases mem_levelled.mp member with own | deeper
        · obtain ⟨head, listed, same⟩ := own
          subst same
          exact mem_levelled.mpr
            (Or.inr ⟨head, listed, mem_levelled_of_child below⟩)
        · obtain ⟨head, listed, inside⟩ := deeper
          exact mem_levelled.mpr
            (Or.inr ⟨head, listed,
              inductionHypothesis head listed (level + 1) parent
                (List.mem_cons_of_mem _ inside) child below⟩)

theorem level_lt (entry : DirectoryEntry) :
    ∀ level, ∀ placed ∈ entry.levelled level, level < placed.1 := by
  induction entry using DirectoryEntry.induction with
  | step entry inductionHypothesis =>
      intro level placed member
      rcases mem_levelled.mp member with own | below
      · obtain ⟨child, _, same⟩ := own
        subst same
        exact Nat.lt_succ_self level
      · obtain ⟨child, listed, inside⟩ := below
        have deeper :=
          inductionHypothesis child listed (level + 1) placed inside
        omega

/-! ## When the levels ascend -/

/-- The directories below two siblings are in order if there are none below
the second, or only children below the first. -/
theorem siblings_ascend_iff {level : Nat} {earlier later : DirectoryEntry} :
    (∀ left ∈ earlier.levelled level, ∀ right ∈ later.levelled level,
        left.1 ≤ right.1) ↔
      later.dirChilds = [] ∨
        ∀ child ∈ earlier.dirChilds, child.dirChilds = [] := by
  constructor
  · intro ascends
    by_cases empty : later.dirChilds = []
    · exact Or.inl empty
    · refine Or.inr fun child member => ?_
      obtain ⟨other, listed⟩ := List.exists_mem_of_ne_nil _ empty
      by_contra deep
      obtain ⟨deeper, inside⟩ := List.exists_mem_of_ne_nil _ deep
      have low :=
        ascends (level + 1 + 1, deeper)
          (mem_levelled.mpr
            (Or.inr ⟨child, member, mem_levelled_of_child inside⟩))
          (level + 1, other) (mem_levelled_of_child listed)
      simp at low
  · intro shallow left leftMember right rightMember
    have behind := level_lt later level right rightMember
    rcases mem_levelled.mp leftMember with own | below
    · obtain ⟨child, _, same⟩ := own
      subst same
      exact behind
    · obtain ⟨child, listed, inside⟩ := below
      rcases shallow with empty | flat
      · rw [levelled_eq, empty] at rightMember
        cases rightMember
      · rw [levelled_eq, flat child listed] at inside
        cases inside

theorem levels_ascend_iff (entry : DirectoryEntry) :
    ∀ level,
      (entry.levelled level).Pairwise (fun left right => left.1 ≤ right.1) ↔
        LevelOrdered entry := by
  induction entry using DirectoryEntry.induction with
  | step entry inductionHypothesis =>
      intro level
      rw [levelled_eq, List.pairwise_append, List.pairwise_flatMap]
      simp only [siblings_ascend_iff]
      constructor
      · intro ascends
        obtain ⟨_, ⟨each, siblings⟩, _⟩ := ascends
        exact ⟨siblings, fun child member =>
          (inductionHypothesis child member (level + 1)).mp
            (each child member)⟩
      · intro ordered
        obtain ⟨siblings, below⟩ := ordered
        refine ⟨?_, ⟨?_, siblings⟩, ?_⟩
        · exact List.pairwise_map.mpr
            (List.pairwise_of_forall fun _ _ => Nat.le_refl _)
        · exact fun child member =>
            (inductionHypothesis child member (level + 1)).mpr
              (below child member)
        · intro left leftMember right rightMember
          obtain ⟨child, _, same⟩ := List.mem_map.mp leftMember
          subst same
          obtain ⟨other, _, inside⟩ := List.mem_flatMap.mp rightMember
          exact Nat.le_of_lt (level_lt other (level + 1) right inside)

theorem mem_directories_of_levels {tree : DirectoryEntry}
    {placed : Nat × DirectoryEntry} (member : placed ∈ tree.levels) :
    placed.2 ∈ tree.directories := by
  apply (listed_perm tree).mem_iff.mp
  rcases List.mem_cons.mp member with same | below
  · subst same
    simp
  · rw [← levelled_map_snd tree 0]
    exact List.mem_cons_of_mem _ (List.mem_map_of_mem below)

end DirectoryEntry

open DirectoryEntry

/-! ## When the parents ascend -/

/-- The numbers below an entry ascend in the order of the table. -/
def NumbersAscend (entries : List DirectoryEntry) : Prop :=
  entries.Pairwise fun left right =>
    left.pathTableIndex < right.pathTableIndex

/-- The parents of two directories of one level, below two siblings, are in
the order of the siblings. -/
theorem parents_ascend_across {level : Nat}
    {earlier later : DirectoryEntry}
    (siblings : earlier.pathTableIndex < later.pathTableIndex)
    (below :
      ∀ left ∈ earlier.listed, ∀ right ∈ later.listed,
        left.pathTableIndex < right.pathTableIndex)
    (earlierNumbered : ParentsNumbered earlier)
    (laterNumbered : ParentsNumbered later)
    {left right : Nat × DirectoryEntry}
    (leftMember : left ∈ earlier.levelled level)
    (rightMember : right ∈ later.levelled level)
    (sameLevel : left.1 = right.1) :
    left.2.parentIndex ≤ right.2.parentIndex := by
  obtain ⟨leftParent, leftFound, leftOne, leftChild⟩ :=
    levelled_parent earlier level left leftMember
  obtain ⟨rightParent, rightFound, rightOne, rightChild⟩ :=
    levelled_parent later level right rightMember
  have parentOf :
      ∀ {entry : DirectoryEntry} {parent placed : Nat × DirectoryEntry},
        ParentsNumbered entry →
          parent ∈ (level, entry) :: entry.levelled level →
          placed.2 ∈ parent.2.dirChilds →
          placed.2.parentIndex = parent.2.pathTableIndex := by
    intro entry parent placed numbered found child
    refine (numbered parent.2 ?_ placed.2 child).1
    apply (listed_perm entry).mem_iff.mp
    rcases List.mem_cons.mp found with same | deeper
    · simp [same]
    · rw [← levelled_map_snd entry level]
      exact List.mem_cons_of_mem _ (List.mem_map_of_mem deeper)
  rw [parentOf earlierNumbered leftFound leftChild,
    parentOf laterNumbered rightFound rightChild]
  rcases List.mem_cons.mp leftFound with leftSame | leftDeeper
  · rcases List.mem_cons.mp rightFound with rightSame | rightDeeper
    · rw [leftSame, rightSame]
      exact Nat.le_of_lt siblings
    · have deep := level_lt later level rightParent rightDeeper
      rw [leftSame] at leftOne
      simp only at leftOne
      omega
  · rcases List.mem_cons.mp rightFound with rightSame | rightDeeper
    · have deep := level_lt earlier level leftParent leftDeeper
      rw [rightSame] at rightOne
      simp only at rightOne
      omega
    · refine Nat.le_of_lt (below leftParent.2 ?_ rightParent.2 ?_)
      · rw [← levelled_map_snd earlier level]
        exact List.mem_map_of_mem leftDeeper
      · rw [← levelled_map_snd later level]
        exact List.mem_map_of_mem rightDeeper

/-- Within one level the table has the parents in ascending order, whatever
the order of the levels is. -/
theorem parents_ascend (entry : DirectoryEntry) :
    ParentsNumbered entry → NumbersAscend entry.listed →
      ∀ level,
        (entry.levelled level).Pairwise fun left right =>
          left.1 = right.1 → left.2.parentIndex ≤ right.2.parentIndex := by
  induction entry using DirectoryEntry.induction with
  | step entry inductionHypothesis =>
      intro numbered ascending level
      rw [NumbersAscend, listed_eq, List.pairwise_append,
        List.pairwise_flatMap] at ascending
      obtain ⟨siblings, ⟨each, across⟩, _⟩ := ascending
      have numberedBelow :
          ∀ child ∈ entry.dirChilds, ParentsNumbered child := by
        intro child member parent found
        refine numbered parent ?_
        rw [directories_eq]
        exact List.mem_cons_of_mem _
          (List.mem_flatMap.mpr ⟨child, member, found⟩)
      rw [levelled_eq, List.pairwise_append, List.pairwise_flatMap]
      refine ⟨?_, ⟨?_, ?_⟩, ?_⟩
      · apply List.pairwise_map.mpr
        apply List.pairwise_of_forall_mem_list
        intro left leftMember right rightMember _
        have own : entry ∈ entry.directories := by
          rw [directories_eq]
          simp
        simp only
        rw [(numbered entry own left leftMember).1,
          (numbered entry own right rightMember).1]
      · exact fun child member =>
          inductionHypothesis child member (numberedBelow child member)
            (each child member) (level + 1)
      · refine (siblings.and across).imp_of_mem ?_
        intro earlier later earlierMember laterMember both left leftMember
          right rightMember sameLevel
        exact parents_ascend_across both.1 both.2
          (numberedBelow earlier earlierMember)
          (numberedBelow later laterMember) leftMember rightMember sameLevel
      · intro left leftMember right rightMember sameLevel
        obtain ⟨child, _, same⟩ := List.mem_map.mp leftMember
        subst same
        obtain ⟨other, _, inside⟩ := List.mem_flatMap.mp rightMember
        have deeper := level_lt other (level + 1) right inside
        simp only at sameLevel
        omega

/-- The numbers of the directories of one level that have children keep their
order when they are cut to 16 bits. -/
def NumbersKeepOrder (tree : DirectoryEntry) : Prop :=
  ∀ left ∈ tree.levels, ∀ right ∈ tree.levels,
    left.1 = right.1 → left.2.pathTableIndex ≤ right.2.pathTableIndex →
      left.2.dirChilds ≠ [] → right.2.dirChilds ≠ [] →
        left.2.pathTableIndex % 2 ^ 16 ≤ right.2.pathTableIndex % 2 ^ 16

/-- In a list whose keys ascend, what stands behind an item is what has a
greater key. -/
theorem pairwise_iff_of_ascending {α : Type} {items : List α} {key : α → Nat}
    {R : α → α → Prop}
    (ascending : items.Pairwise fun left right => key left < key right) :
    items.Pairwise R ↔
      ∀ left ∈ items, ∀ right ∈ items, key left < key right → R left right := by
  induction items with
  | nil => simp
  | cons item items inductionHypothesis =>
      rw [List.pairwise_cons] at ascending ⊢
      obtain ⟨first, rest⟩ := ascending
      rw [inductionHypothesis rest]
      constructor
      · intro holds left leftMember right rightMember lower
        rcases List.mem_cons.mp leftMember with leftSame | leftMember
        · rcases List.mem_cons.mp rightMember with rightSame | rightMember
          · rw [leftSame, rightSame] at lower
            exact absurd lower (Nat.lt_irrefl _)
          · rw [leftSame]
            exact holds.1 right rightMember
        · rcases List.mem_cons.mp rightMember with rightSame | rightMember
          · rw [rightSame] at lower
            exact absurd (first left leftMember) (Nat.lt_asymm lower)
          · exact holds.2 left leftMember right rightMember lower
      · intro holds
        refine ⟨fun right member => ?_, fun left leftMember right member => ?_⟩
        · exact holds item (by simp) right (by simp [member])
            (first right member)
        · exact holds left (by simp [leftMember]) right (by simp [member])

namespace Planned

variable {tree : DirectoryEntry}

theorem numbersAscend (planned : Planned tree) :
    NumbersAscend (tree :: tree.listed) := by
  have ascending :=
    List.pairwise_lt_range' (s := 1) (n := tree.listed.length + 1) 1
  rw [← planned.numbers] at ascending
  exact List.pairwise_map.mp ascending

theorem levels_numbers (planned : Planned tree) :
    tree.levels.Pairwise fun left right =>
      left.2.pathTableIndex < right.2.pathTableIndex := by
  have ascending : NumbersAscend (tree.levels.map Prod.snd) := by
    rw [levels, List.map_cons, levelled_map_snd]
    exact planned.numbersAscend
  rw [NumbersAscend, List.pairwise_map] at ascending
  exact ascending

theorem eq_of_number (planned : Planned tree)
    {left right : Nat × DirectoryEntry} (leftMember : left ∈ tree.levels)
    (rightMember : right ∈ tree.levels)
    (same : left.2.pathTableIndex = right.2.pathTableIndex) :
    left = right := by
  have distinct :
      (tree.levels.map fun placed => placed.2.pathTableIndex).Nodup :=
    List.pairwise_map.mpr (planned.levels_numbers.imp Nat.ne_of_lt)
  exact List.inj_on_of_nodup_map distinct leftMember rightMember same

theorem levels_parents (planned : Planned tree) :
    tree.levels.Pairwise fun left right =>
      left.1 = right.1 → left.2.parentIndex ≤ right.2.parentIndex := by
  refine List.pairwise_cons.mpr ⟨?_, ?_⟩
  · intro placed member sameLevel
    have deep := level_lt tree 0 placed member
    simp only at sameLevel
    omega
  · exact parents_ascend tree planned.parents
      (List.pairwise_cons.mp planned.numbersAscend).2 0

/-- A parent in the table, of a directory one level below it. -/
theorem exists_parent (planned : Planned tree) {placed : Nat × DirectoryEntry}
    (member : placed ∈ tree.levels) (below : placed.1 ≠ 0) :
    ∃ parent ∈ tree.levels,
      placed.1 = parent.1 + 1 ∧ parent.2.dirChilds ≠ [] ∧
        placed.2.parentIndex = parent.2.pathTableIndex := by
  rcases List.mem_cons.mp member with same | member
  · rw [same] at below
    exact absurd rfl below
  · obtain ⟨parent, found, one, child⟩ := levelled_parent tree 0 placed member
    exact ⟨parent, found, one, List.ne_nil_of_mem child,
      (planned.parents parent.2 (mem_directories_of_levels found) placed.2
        child).1⟩

/-- A child in the table, of a directory one level above it. -/
theorem exists_child (planned : Planned tree) {placed : Nat × DirectoryEntry}
    (member : placed ∈ tree.levels) (inner : placed.2.dirChilds ≠ []) :
    ∃ child ∈ tree.levels,
      child.1 = placed.1 + 1 ∧
        child.2.parentIndex = placed.2.pathTableIndex := by
  obtain ⟨child, below⟩ := List.exists_mem_of_ne_nil _ inner
  exact ⟨(placed.1 + 1, child),
    List.mem_cons_of_mem _ (levelled_childs tree 0 placed member child below),
    rfl,
    (planned.parents placed.2 (mem_directories_of_levels member) child
      below).1⟩

/-- Cut to 16 bits, the parents of each level ascend exactly if the numbers of
those parents keep their order. -/
theorem cutParents_ascend_iff (planned : Planned tree) :
    (tree.levels.Pairwise fun left right =>
        left.1 = right.1 →
          left.2.parentIndex % 2 ^ 16 ≤ right.2.parentIndex % 2 ^ 16) ↔
      NumbersKeepOrder tree := by
  rw [pairwise_iff_of_ascending planned.levels_numbers]
  have ascend :=
    (pairwise_iff_of_ascending planned.levels_numbers).mp
      planned.levels_parents
  constructor
  · intro cut left leftMember right rightMember sameLevel le leftInner
      rightInner
    obtain ⟨leftChild, leftFound, leftLevel, leftParent⟩ :=
      planned.exists_child leftMember leftInner
    obtain ⟨rightChild, rightFound, rightLevel, rightParent⟩ :=
      planned.exists_child rightMember rightInner
    rcases Nat.lt_trichotomy leftChild.2.pathTableIndex
        rightChild.2.pathTableIndex with lower | same | greater
    · rw [← leftParent, ← rightParent]
      exact cut leftChild leftFound rightChild rightFound lower (by omega)
    · have equal := planned.eq_of_number leftFound rightFound same
      rw [← leftParent, ← rightParent, equal]
    · have back :=
        ascend rightChild rightFound leftChild leftFound greater (by omega)
      have equal :
          left.2.pathTableIndex = right.2.pathTableIndex := by omega
      rw [equal]
  · intro keeps left leftMember right rightMember lower sameLevel
    by_cases root : left.1 = 0
    · have atRoot :
          ∀ placed ∈ tree.levels, placed.1 = 0 → placed = (0, tree) := by
        intro placed member zero
        rcases List.mem_cons.mp member with same | below
        · exact same
        · exact absurd (level_lt tree 0 placed below) (by omega)
      rw [atRoot left leftMember root,
        atRoot right rightMember (by omega)] at lower
      exact absurd lower (Nat.lt_irrefl _)
    · obtain ⟨leftParent, leftFound, leftOne, leftInner, leftSame⟩ :=
        planned.exists_parent leftMember root
      obtain ⟨rightParent, rightFound, rightOne, rightInner, rightSame⟩ :=
        planned.exists_parent rightMember (by omega)
      have le := ascend left leftMember right rightMember lower sameLevel
      rw [leftSame, rightSame] at le ⊢
      exact keeps leftParent leftFound rightParent rightFound (by omega) le
        leftInner rightInner

end Planned

/-! ## The records -/

/-- The parent number of a record. -/
def parentNumber (order : ByteOrder) (record : List UInt8) : Nat :=
  order.value (bytesAt record 6 2)

/-- Records with their levels: the levels do not descend, and within a level
the parent numbers do not. -/
def TableOrdered (order : ByteOrder) (table : List (Nat × List UInt8)) :
    Prop :=
  table.Pairwise fun earlier later =>
    earlier.1 ≤ later.1 ∧
      (earlier.1 = later.1 →
        parentNumber order earlier.2 ≤ parentNumber order later.2)

def levelledRecord (order : ByteOrder) (placed : Nat × DirectoryEntry) :
    Except Fault (Nat × List UInt8) := do
  let record ← tableRecord order placed.2
  return (placed.1, record)

theorem parentNumber_tableRecord {order : ByteOrder} {entry : DirectoryEntry}
    {record : List UInt8} (built : tableRecord order entry = .ok record) :
    parentNumber order record = entry.parentIndex % 2 ^ 16 := by
  obtain ⟨identifier, _, rfl⟩ := tableRecord_eq_ok.mp built
  have front :
      ([UInt8.ofNat identifier.length, 0] : List UInt8).length = 2 := rfl
  have lbaLength := order.bytes_length 4 entry.lba
  have parentLength := order.bytes_length 2 entry.parentIndex
  unfold pathRecordBytes parentNumber
  rw [List.append_assoc, List.append_assoc, List.append_assoc,
    show 6 = 2 + (4 + 0) by rfl, bytesAt_behind front,
    bytesAt_behind lbaLength, bytesAt_front parentLength, order.value_bytes]
  rfl

theorem levelledRecords {order : ByteOrder}
    {entries : List (Nat × DirectoryEntry)} {table : List (Nat × List UInt8)}
    (built : entries.mapM (levelledRecord order) = .ok table) :
    (entries.map Prod.snd).mapM (tableRecord order) =
        .ok (table.map Prod.snd) ∧
      table.map (fun row => (row.1, parentNumber order row.2)) =
        entries.map fun placed =>
          (placed.1, placed.2.parentIndex % 2 ^ 16) := by
  induction entries generalizing table with
  | nil =>
      cases built
      exact ⟨rfl, rfl⟩
  | cons placed entries inductionHypothesis =>
      obtain ⟨row, rest, first, later, rfl⟩ := mapM_cons_eq_ok.mp built
      rw [levelledRecord, except_bind_eq_ok] at first
      obtain ⟨record, recorded, closed⟩ := first
      cases closed
      obtain ⟨records, keys⟩ := inductionHypothesis later
      refine ⟨mapM_cons_eq_ok.mpr ⟨record, _, recorded, records, rfl⟩, ?_⟩
      rw [List.map_cons, List.map_cons, keys,
        parentNumber_tableRecord recorded]

namespace Planned

variable {tree : DirectoryEntry}

theorem exists_table (planned : Planned tree) (order : ByteOrder) :
    ∃ table, tree.levels.mapM (levelledRecord order) = .ok table := by
  apply exists_mapM_eq_ok
  intro placed member
  obtain ⟨count, sized⟩ :=
    planned.sized placed.2 (mem_directories_of_levels member)
  obtain ⟨identifier, named⟩ := exists_pathIdentifier sized
  have built :
      tableRecord order placed.2 =
        .ok (pathRecordBytes order placed.2.lba placed.2.parentIndex
          identifier) :=
    tableRecord_eq_ok.mpr ⟨identifier, named, rfl⟩
  exact ⟨_, except_bind_eq_ok.mpr ⟨_, built, rfl⟩⟩

theorem tableOrdered_iff (planned : Planned tree) {order : ByteOrder}
    {table : List (Nat × List UInt8)}
    (built : tree.levels.mapM (levelledRecord order) = .ok table) :
    TableOrdered order table ↔ LevelOrdered tree ∧ NumbersKeepOrder tree := by
  have keys := (levelledRecords built).2
  have compared :
      TableOrdered order table ↔
        (table.map fun row => (row.1, parentNumber order row.2)).Pairwise
          fun earlier later =>
            earlier.1 ≤ later.1 ∧
              (earlier.1 = later.1 → earlier.2 ≤ later.2) := by
    rw [List.pairwise_map]
    rfl
  rw [compared, keys, List.pairwise_map, List.pairwise_and_iff,
    planned.cutParents_ascend_iff, ← levels_ascend_iff tree 0, levels,
    List.pairwise_cons]
  constructor
  · intro both
    exact ⟨both.1.2, both.2⟩
  · intro both
    exact ⟨⟨fun placed _ => Nat.zero_le _, both.1⟩, both.2⟩

/-- A run of `write_path_table` that returns has written the records, and then
zeros. -/
theorem writePathTable_run_ok (planned : Planned tree) {order : ByteOrder}
    {pathTablePos : Nat} {records : List (List UInt8)}
    {output final : Output Origin}
    (built : (tree :: tree.listed).mapM (tableRecord order) = .ok records)
    (returned :
      (writePathTable order tree pathTablePos).run output = .ok () final) :
    ∃ count ended,
      final = ended.seeked output.position ∧
        Emits (.pathTable order)
          (records.flatten ++ List.replicate count 0)
          (output.seeked (pathTablePos * logicSize)) ended := by
  rw [writePathTable, bind_run_ok] at returned
  obtain ⟨start, _, computed, returned⟩ := returned
  obtain ⟨started, rfl⟩ := ofExcept_run_ok.mp computed
  obtain ⟨_, rfl⟩ := mulU32_eq_ok.mp started
  rw [Output.writeAt_run_ok] at returned
  obtain ⟨ended, performed, rfl⟩ := returned
  obtain ⟨tabled, written, emitted⟩ :=
    planned.puts_table built (output.seeked (pathTablePos * logicSize))
  rw [← bind_assoc, bind_run_of_ok _ written,
    bind_run_of_ok _ (Output.streamPosition_run tabled), bind_run_ok]
    at performed
  obtain ⟨size, _, sized, compared⟩ := performed
  obtain ⟨_, rfl⟩ := ofExcept_run_ok.mp sized
  rw [bind_run_ok] at compared
  obtain ⟨_, asserted, checked, filled⟩ := compared
  obtain ⟨_, rfl⟩ := assertPathTableSize_run_ok.mp checked
  have padded :
      Emits (.pathTable order) (List.replicate (room tabled.position) 0)
        tabled ended := by
    cases filled
    exact emits_written List.length_replicate tabled
  exact ⟨room tabled.position, ended, rfl, emitted.append padded⟩

end Planned

/-- What `write_path_table` writes for a planned tree is in the order of the
levels, and within them in the order of the parents, exactly if the tree is
level-ordered and its large numbers keep their order. -/
theorem writePathTable_ordered_iff {tree planned : DirectoryEntry}
    {currentLba lastLba : Nat}
    (numbered : assignDirectories currentLba tree = .ok (planned, lastLba))
    (order : ByteOrder) :
    ∃ table,
      planned.levels.mapM (levelledRecord order) = .ok table ∧
        (∀ pathTablePos output final,
          (writePathTable order planned pathTablePos).run output =
              .ok () final →
            ∃ count ended,
              final = ended.seeked output.position ∧
                Emits (.pathTable order)
                  ((table.map Prod.snd).flatten ++ List.replicate count 0)
                  (output.seeked (pathTablePos * logicSize)) ended) ∧
        (TableOrdered order table ↔
          LevelOrdered planned ∧ NumbersKeepOrder planned) := by
  have facts := planned_of_assigned numbered
  obtain ⟨table, built⟩ := facts.exists_table order
  refine ⟨table, built, ?_, facts.tableOrdered_iff built⟩
  intro pathTablePos output final returned
  have records := (levelledRecords built).1
  rw [levels, List.map_cons, levelled_map_snd] at records
  exact facts.writePathTable_run_ok records returned

theorem writePathTable_ordered_iff_bootTree :
    ∃ planned lastLba table,
      assignDirectories 24 bootTree = .ok (planned, lastLba) ∧
        planned.levels.mapM (levelledRecord .bigEndian) = .ok table ∧
        (TableOrdered .bigEndian table ↔
          LevelOrdered planned ∧ NumbersKeepOrder planned) := by
  obtain ⟨⟨planned, lastLba⟩, numbered⟩ :=
    except_eq_ok_of_isOk
      (by with_unfolding_all decide :
        (assignDirectories 24 bootTree).isOk = true)
  obtain ⟨table, built, _, ordered⟩ :=
    writePathTable_ordered_iff numbered .bigEndian
  exact ⟨planned, lastLba, table, numbered, built, ordered⟩

/-- The directories `a/x/y` and `b/z`. -/
def deepTree : DirectoryEntry :=
  .named (utf8 "root")
    [.named (utf8 "a") [.named (utf8 "x") [.named (utf8 "y") [] []] []] [],
      .named (utf8 "b") [.named (utf8 "z") [] []] []]
    []

/-- The record of `a/x/y` stands before that of `b/z`. -/
theorem deepTree_unordered :
    ∃ planned lastLba table final,
      assignDirectories 24 deepTree = .ok (planned, lastLba) ∧
        planned.levels.mapM (levelledRecord .littleEndian) = .ok table ∧
        (writePathTable .littleEndian planned 20).run Output.empty =
          .ok () final ∧
        ¬ TableOrdered .littleEndian table := by
  have levels :
      (assignDirectories 24 deepTree).map
          (fun assigned => assigned.1.levels.map Prod.fst) =
        .ok [0, 1, 1, 2, 3, 2] := by
    decide +kernel
  obtain ⟨⟨planned, lastLba⟩, numbered⟩ :=
    except_eq_ok_of_isOk
      (by decide +kernel : (assignDirectories 24 deepTree).isOk = true)
  have facts := planned_of_assigned numbered
  have few : planned.directories.length ≤ 65535 := by
    rw [assignDirectories_count numbered]
    decide
  obtain ⟨table, built⟩ := facts.exists_table .littleEndian
  obtain ⟨records, recorded, sized⟩ := facts.exists_records few .littleEndian
  obtain ⟨_, ended, returned, _⟩ :=
    facts.writePathTable_run recorded sized
      (by decide : 20 * logicSize < 2 ^ 32) Output.empty
  refine ⟨planned, lastLba, table, _, numbered, built, returned, ?_⟩
  intro ordered
  rw [facts.tableOrdered_iff built, ← levels_ascend_iff planned 0] at ordered
  rw [numbered] at levels
  have ascending :
      (planned.levels.map Prod.fst).Pairwise fun left right => left ≤ right :=
    List.pairwise_map.mpr
      (List.pairwise_cons.mpr ⟨fun _ _ => Nat.zero_le _, ordered.1⟩)
  have computed : planned.levels.map Prod.fst = [0, 1, 1, 2, 3, 2] :=
    Except.ok.inj levels
  rw [computed] at ascending
  revert ascending
  decide

end RustKernel.Iso
