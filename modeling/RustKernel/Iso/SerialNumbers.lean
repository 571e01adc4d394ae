import RustKernel.Iso.BlockArithmetic

/-!
# Serial numbers

The serial number of a directory is the sum of its block and its number in the
path table, that of a file is its block.  Blocks and numbers are handed out in
different orders, so a directory with a small block and a large number can meet
a later one, or a file.
-/

namespace RustKernel.Iso

open RustKernel.Foundations
open RustKernel.Machine

/-! ## The serial number of a record -/

/-- The system use fields of a record. -/
def systemUse (record : List UInt8) : List UInt8 :=
  let length := ((bytesAt record 32 1).headD 0).toNat
  record.drop (33 + length + (1 - length % 2))

/-- Walks over the entries of the system use fields to `PX`, and takes its last
field. -/
def findSerial : Nat → List UInt8 → Option Nat
  | fuel + 1, first :: second :: length :: rest =>
      if [first, second] = utf8 "PX" then
        some (leValue (bytesAt (first :: second :: length :: rest) 36 4))
      else
        findSerial fuel
          ((first :: second :: length :: rest).drop length.toNat)
  | _, _ => none

/-- The "File Serial number" of a record. -/
def serialNumber (record : List UInt8) : Option Nat :=
  findSerial (systemUse record).length (systemUse record)

theorem findSerial_px (fuel fileMode serial : Nat) (behind : List UInt8) :
    findSerial (fuel + 1) (rockRidgePx fileMode serial ++ behind) =
      some (serial % 2 ^ 32) := by
  have shape :
      rockRidgePx fileMode serial ++ behind =
        0x50 :: 0x58 :: 0x2c ::
          (0x1 :: (bothEndian 4 fileMode ++ bothEndian 4 1 ++ bothEndian 4 0 ++
            bothEndian 4 0 ++ bothEndian 4 serial) ++ behind) := by
    rw [rockRidgePx, utf8_px]
    rfl
  have field :
      bytesAt (rockRidgePx fileMode serial ++ behind) 36 4 =
        leBytes 4 serial := by
    have front :
        (utf8 "PX" ++ [0x2c, 0x1] ++ bothEndian 4 fileMode ++
          bothEndian 4 1 ++ bothEndian 4 0 ++ bothEndian 4 0).length = 36 := by
      simp [utf8_px]
    rw [rockRidgePx, List.append_assoc, show 36 = 36 + 0 by rfl,
      bytesAt_behind front, bothEndian, List.append_assoc,
      bytesAt_front (leBytes_length 4 serial)]
  rw [shape] at field ⊢
  rw [findSerial, if_pos utf8_px.symm, field, leValue_leBytes]
  rfl

theorem serialNumber_record {size lba extentSize : Nat} {now : DateTime}
    {flags : UInt8} {identifier : List UInt8} (short : identifier.length ≤ 255)
    (fileMode serial : Nat) (behind : List UInt8) :
    serialNumber
        (recordHeader size lba extentSize now flags identifier ++
          (rockRidgePx fileMode serial ++ behind)) =
      some (serial % 2 ^ 32) := by
  have used :
      systemUse
          (recordHeader size lba extentSize now flags identifier ++
            (rockRidgePx fileMode serial ++ behind)) =
        rockRidgePx fileMode serial ++ behind := by
    unfold systemUse
    simp only
    rw [recordHeader_identifierLength short]
    exact List.drop_left' (recordHeader_length size lba extentSize now flags _)
  have enough :
      (rockRidgePx fileMode serial ++ behind).length =
        43 + behind.length + 1 := by
    rw [List.length_append, rockRidgePx_length]
    omega
  rw [serialNumber, used, enough, findSerial_px]

/-- The serial number that the generator writes for a child. -/
def RecordSource.serial : RecordSource → Nat
  | .directory _ entry => entry.lba + entry.pathTableIndex
  | .file child => child.lba

theorem serialNumber_directory {child : DirectoryEntry} {record : List UInt8}
    (built : (RecordSource.directory 0 child).Built record) :
    serialNumber record = some (child.lba + child.pathTableIndex) := by
  obtain ⟨_, now, recorded⟩ := built
  obtain ⟨size, fileName, fixed, extentSize, fields, _, _, converted, _, _, used,
    rfl⟩ := directoryRecord_eq_ok recorded
  have identifier : (recordIdentifier 0 fixed).length ≤ 255 := by
    have length := convertName_length converted
    change fixed.length ≤ 255
    omega
  rw [directorySystemUse, except_bind_eq_ok] at used
  obtain ⟨susp, first, used⟩ := used
  rw [recordSusp, if_neg (by decide)] at first
  cases first
  rw [except_bind_eq_ok] at used
  obtain ⟨px, second, used⟩ := used
  rw [recordPx, if_pos (by decide), map_eq_pure_bind, except_bind_eq_ok]
    at second
  obtain ⟨serial, added, closed⟩ := second
  cases closed
  rw [addU32_eq_ok] at added
  obtain ⟨fits, rfl⟩ := added
  rw [except_bind_eq_ok] at used
  obtain ⟨nm, _, closed⟩ := used
  cases closed
  rw [List.nil_append, serialNumber_record identifier, Nat.mod_eq_of_lt fits]

theorem serialNumber_file {file : FileEntry} {record : List UInt8}
    (built : (RecordSource.file file).Built record)
    (fits : file.lba < 2 ^ 32) : serialNumber record = some file.lba := by
  obtain ⟨_, now, recorded⟩ := built
  obtain ⟨size, fileName, fixed, nm, _, _, converted, _, rfl⟩ :=
    fileRecord_eq_ok recorded
  have identifier : (fixed ++ utf8 ";1").length ≤ 255 := by
    have length := convertName_length converted
    rw [List.length_append, version_length]
    omega
  rw [List.append_assoc, serialNumber_record identifier, Nat.mod_eq_of_lt fits]

/-! ## The child records of an image -/

/-- The records of the children come behind those of `'.'` and `'..'`. -/
def ChildRecord (tree : DirectoryEntry)
    (recordsOf : List Nat → List (List UInt8)) (place : List Nat)
    (record : List UInt8) : Prop :=
  ∃ front index above parent,
    place = front ++ [index] ∧
      locate none tree front = some (above, parent) ∧
      (recordsOf front)[index + 2]? = some record

/-- Two child records carry the same serial number only if they are of the
same child. -/
def SerialsUnique (tree : DirectoryEntry)
    (recordsOf : List Nat → List (List UInt8)) : Prop :=
  ∀ place other record otherRecord,
    ChildRecord tree recordsOf place record →
    ChildRecord tree recordsOf other otherRecord →
    serialNumber record = serialNumber otherRecord → place = other

/-- The same for the numbers that the generator computes. -/
def SourcesApart (tree : DirectoryEntry) : Prop :=
  ∀ place other source otherSource,
    RecordAt tree place source → RecordAt tree other otherSource →
    source.serial = otherSource.serial → place = other

theorem exists_of_forall₂ {α β : Type} {R : α → β → Prop} {items : List α}
    {others : List β} (related : List.Forall₂ R items others) {index : Nat}
    {other : β} (found : others[index]? = some other) :
    ∃ item, items[index]? = some item ∧ R item other := by
  induction related generalizing index with
  | nil => cases found
  | cons first _ inductionHypothesis =>
      cases index with
      | zero =>
          cases found
          exact ⟨_, rfl, first⟩
      | succ index => exact inductionHypothesis found

theorem built_of_childRecord {tree : DirectoryEntry}
    {added : List (Store Origin)} {recordsOf : List Nat → List (List UInt8)}
    (records : RecordsOf tree added recordsOf) {place : List Nat}
    {record : List UInt8} (here : ChildRecord tree recordsOf place record) :
    ∃ source, RecordAt tree place source ∧ source.Built record := by
  obtain ⟨front, index, above, parent, rfl, located, found⟩ := here
  obtain ⟨source, listed, built⟩ :=
    exists_of_forall₂ (records front above parent located).1 found
  exact ⟨source, ⟨front, index, above, parent, rfl, located, listed⟩, built⟩

theorem childRecord_of_recordAt {tree : DirectoryEntry}
    {added : List (Store Origin)} {recordsOf : List Nat → List (List UInt8)}
    (records : RecordsOf tree added recordsOf) {place : List Nat}
    {source : RecordSource} (here : RecordAt tree place source) :
    ∃ record, ChildRecord tree recordsOf place record ∧ source.Built record := by
  obtain ⟨front, index, above, parent, rfl, located, found⟩ := here
  have listed : (ownSources above parent)[index + 2]? = some source := found
  obtain ⟨record, stored, built⟩ :=
    exists_of_forall₂ (records front above parent located).1.flip listed
  exact ⟨record, ⟨front, index, above, parent, rfl, located, stored⟩, built⟩

theorem serialNumber_of_built {tree : DirectoryEntry}
    (fits : ∀ file ∈ tree.files, file.lba < 2 ^ 32) {place : List Nat}
    {source : RecordSource} {record : List UInt8}
    (here : RecordAt tree place source) (built : source.Built record) :
    serialNumber record = some source.serial := by
  rcases here.cases with ⟨child, rfl⟩ | ⟨file, rfl⟩
  · exact serialNumber_directory built
  · apply serialNumber_file built
    apply fits
    rw [← DirectoryEntry.locatedFiles_files]
    exact List.mem_map_of_mem (mem_locatedFiles.mpr here)

/-- The image carries what the generator computes. -/
theorem serialsUnique_iff_sources {tree : DirectoryEntry}
    {added : List (Store Origin)} {recordsOf : List Nat → List (List UInt8)}
    (records : RecordsOf tree added recordsOf)
    (fits : ∀ file ∈ tree.files, file.lba < 2 ^ 32) :
    SerialsUnique tree recordsOf ↔ SourcesApart tree := by
  constructor
  · intro unique place other source otherSource here there same
    obtain ⟨record, own, built⟩ := childRecord_of_recordAt records here
    obtain ⟨otherRecord, otherOwn, otherBuilt⟩ :=
      childRecord_of_recordAt records there
    apply unique place other record otherRecord own otherOwn
    rw [serialNumber_of_built fits here built,
      serialNumber_of_built fits there otherBuilt, same]
  · intro apart place other record otherRecord own otherOwn same
    obtain ⟨source, here, built⟩ := built_of_childRecord records own
    obtain ⟨otherSource, there, otherBuilt⟩ :=
      built_of_childRecord records otherOwn
    rw [serialNumber_of_built fits here built,
      serialNumber_of_built fits there otherBuilt, Option.some.injEq] at same
    exact apart place other source otherSource here there same

/-! ## The blocks of the directories -/

/-- The blocks of the extent of a directory that has a size. -/
def extentBlocks (entry : DirectoryEntry) : Nat :=
  match entry.getExtentSizeInLb with
  | .ok count => count
  | .error _ => 0

/-- The blocks that the first traversal passes over for the directories: those
of their continuation areas and those of their extents. -/
def spanBlocks (entries : List (List Nat × DirectoryEntry)) : Nat :=
  (entries.map fun item => areaBlocks item.2 + extentBlocks item.2).sum

theorem spanBlocks_cons (place : List Nat) (entry : DirectoryEntry)
    (items : List (List Nat × DirectoryEntry)) :
    spanBlocks ((place, entry) :: items) =
      areaBlocks entry + extentBlocks entry + spanBlocks items := by
  unfold spanBlocks
  rw [List.map_cons, List.sum_cons]

theorem spanBlocks_append (first second : List (List Nat × DirectoryEntry)) :
    spanBlocks (first ++ second) = spanBlocks first + spanBlocks second := by
  unfold spanBlocks
  rw [List.map_append, List.sum_append]

/-- From a value of the block counter on, the directories of the tree have been
placed one after the other. -/
inductive Handed :
    Nat → Nat → List (List Nat × DirectoryEntry) →
      List (List Nat × DirectoryEntry) → Prop where
  | nil {low : Nat} : Handed low low [] []
  | cons {low high : Nat} {place : List Nat} {old new : DirectoryEntry}
      {olds news : List (List Nat × DirectoryEntry)}
      (begins : new.lba = low + areaBlocks old)
      (rest : Handed (low + (areaBlocks old + extentBlocks old)) high olds news) :
      Handed low high ((place, old) :: olds) ((place, new) :: news)

namespace Handed

variable {low middle high : Nat}
  {olds news laterOlds laterNews : List (List Nat × DirectoryEntry)}

theorem append (begun : Handed low middle olds news)
    (ended : Handed middle high laterOlds laterNews) :
    Handed low high (olds ++ laterOlds) (news ++ laterNews) := by
  induction begun with
  | nil => exact ended
  | cons begins _ inductionHypothesis =>
      exact Handed.cons begins (inductionHypothesis ended)

theorem high_eq (handed : Handed low high olds news) :
    high = low + spanBlocks olds := by
  induction handed with
  | nil => rfl
  | cons _ _ inductionHypothesis =>
      rw [inductionHypothesis, spanBlocks_cons, Nat.add_assoc]

theorem exists_new (handed : Handed low high olds news)
    {front back : List (List Nat × DirectoryEntry)} {place : List Nat}
    {old : DirectoryEntry} (split : olds = front ++ (place, old) :: back) :
    ∃ new, (place, new) ∈ news ∧
      new.lba = low + spanBlocks front + areaBlocks old := by
  induction handed generalizing front with
  | nil => simp at split
  | @cons low high otherPlace other new olds news begins _ inductionHypothesis =>
      cases front with
      | nil =>
          rw [List.nil_append, List.cons.injEq] at split
          obtain ⟨same, _⟩ := split
          cases same
          exact ⟨new, by simp, begins⟩
      | cons head front =>
          rw [List.cons_append, List.cons.injEq] at split
          obtain ⟨rfl, split⟩ := split
          obtain ⟨found, member, placed⟩ := inductionHypothesis split
          refine ⟨found, by simp [member], ?_⟩
          rw [placed, spanBlocks_cons]
          omega

theorem exists_split (handed : Handed low high olds news) {place : List Nat}
    {new : DirectoryEntry} (member : (place, new) ∈ news) :
    ∃ front old back,
      olds = front ++ (place, old) :: back ∧
        new.lba = low + spanBlocks front + areaBlocks old := by
  induction handed with
  | nil => cases member
  | @cons low high otherPlace other first olds news begins _ inductionHypothesis =>
      rcases List.mem_cons.mp member with same | member
      · cases same
        exact ⟨[], other, olds, rfl, begins⟩
      · obtain ⟨front, old, back, rfl, placed⟩ := inductionHypothesis member
        refine ⟨(otherPlace, other) :: front, old, back, rfl, ?_⟩
        rw [placed, spanBlocks_cons]
        omega

end Handed

/-- What the first traversal does to the blocks of a tree, at any place. -/
def AssignsHanded (tree : DirectoryEntry) : Prop :=
  ∀ place parentIndex pathTableIndex before after planned,
    before.lastIndex ≠ 0 →
    (assignDirectoryIdentifiers parentIndex pathTableIndex tree).run before =
      .ok planned after →
    after.lastIndex ≠ 0 ∧ after.lastLba < 2 ^ 32 ∧
      Handed before.lastLba after.lastLba (tree.gather DirectoryEntry.here place)
        (planned.gather DirectoryEntry.here place)

theorem assignChilds_handed {parentIndex pathTableIndex : Nat}
    {entries planned : List DirectoryEntry} {before after : Counters}
    (each : ∀ entry ∈ entries, AssignsHanded entry)
    (below : before.lastIndex ≠ 0) (word : before.lastLba < 2 ^ 32)
    (place : List Nat) (index : Nat)
    (returned :
      (assignChilds parentIndex pathTableIndex entries).run before =
        .ok planned after) :
    after.lastIndex ≠ 0 ∧ after.lastLba < 2 ^ 32 ∧
      Handed before.lastLba after.lastLba
        (DirectoryEntry.gatherFrom DirectoryEntry.here place index entries)
        (DirectoryEntry.gatherFrom DirectoryEntry.here place index planned) := by
  induction entries generalizing pathTableIndex planned before index with
  | nil =>
      obtain ⟨rfl, rfl⟩ := assignChilds_nil_run_ok returned
      exact ⟨below, word, Handed.nil⟩
  | cons entry entries inductionHypothesis =>
      obtain ⟨first, rest, middle, rfl, assigned, looped⟩ :=
        assignChilds_cons_run_ok returned
      obtain ⟨belowMiddle, middleWord, begun⟩ :=
        each entry (by simp) (place ++ [index]) _ _ _ _ _ below assigned
      obtain ⟨belowAfter, afterWord, ended⟩ :=
        inductionHypothesis
          (fun later member => each later (by simp [member])) belowMiddle
          middleWord (index + 1) looped
      exact ⟨belowAfter, afterWord, begun.append ended⟩

theorem assign_handed (tree : DirectoryEntry) : AssignsHanded tree := by
  induction tree using DirectoryEntry.induction with
  | step tree inductionHypothesis =>
      intro place parentIndex pathTableIndex before after planned below returned
      obtain ⟨extentSize, index, last, sized, _, rfl, fields, fits, looped⟩ :=
        assign_run_ok returned
      rw [if_neg below] at looped
      rw [if_neg below, if_neg below] at fields
      obtain ⟨belowAfter, word, childs⟩ :=
        assignChilds_handed inductionHypothesis (by simp; omega) fits place 0
          looped
      refine ⟨belowAfter, word, ?_⟩
      have blocks : extentBlocks tree = extentSize := by
        rw [extentBlocks, sized]
      rw [DirectoryEntry.gather_eq, DirectoryEntry.gather_eq place planned]
      apply Handed.cons fields.lba
      rw [blocks, ← Nat.add_assoc]
      exact childs

/-- The directories below the root are placed behind the root, one after the
other. -/
theorem assignDirectories_handed {tree assigned : DirectoryEntry}
    {currentLba lastLba : Nat}
    (returned :
      assignDirectories currentLba tree = .ok (assigned, lastLba)) :
    ∃ base,
      lastLba < 2 ^ 32 ∧
        Handed base lastLba tree.traversed assigned.traversed := by
  rw [assignDirectories, except_bind_eq_ok] at returned
  obtain ⟨⟨planned, counters⟩, begun, returned⟩ := returned
  rw [outcome_eq_ok] at begun
  cases returned
  obtain ⟨extentSize, index, last, _, rfl, rfl, _, fits, looped⟩ :=
    assign_run_ok begun
  obtain ⟨_, word, handed⟩ :=
    assignChilds_handed (fun entry _ => assign_handed entry) (by simp) fits [] 0
      looped
  exact ⟨_, word, handed⟩

/-! ## Two splits of one list -/

theorem split_cases {α : Type} {items front back otherFront otherBack : List α}
    {item other : α} (split : items = front ++ item :: back)
    (otherSplit : items = otherFront ++ other :: otherBack) :
    (front = otherFront ∧ item = other) ∨
      (∃ between, otherFront = front ++ item :: between) ∨
        ∃ between, front = otherFront ++ other :: between := by
  rw [split, List.append_eq_append_iff] at otherSplit
  rcases otherSplit with ⟨between, rfl, behind⟩ | ⟨between, rfl, behind⟩
  · cases between with
    | nil =>
        cases behind
        exact Or.inl ⟨(List.append_nil _).symm, rfl⟩
    | cons first between =>
        cases behind
        exact Or.inr (Or.inl ⟨between, rfl⟩)
  · cases between with
    | nil =>
        cases behind
        exact Or.inl ⟨List.append_nil _, rfl⟩
    | cons first between =>
        cases behind
        exact Or.inr (Or.inr ⟨between, rfl⟩)

/-! ## The layout of a tree -/

/-- Blocks and numbers of the records of a planned tree, by the orders of the
tree in front of the layout. -/
structure LaidOut (base lastLba finalLba : Nat) (tree planned : DirectoryEntry) :
    Prop where
  last : lastLba = base + spanBlocks tree.traversed
  directory :
    ∀ front place old back,
      tree.traversed = front ++ (place, old) :: back →
      ∃ new, RecordAt planned place (.directory 0 new) ∧
        new.lba = base + spanBlocks front + areaBlocks old
  split :
    ∀ place new, RecordAt planned place (.directory 0 new) →
      ∃ front old back,
        tree.traversed = front ++ (place, old) :: back ∧
          new.lba = base + spanBlocks front + areaBlocks old
  listed :
    ∀ place new, RecordAt planned place (.directory 0 new) →
      ∃ before behind, tree.tabled.map Prod.fst = before ++ place :: behind
  number :
    ∀ place new before behind, RecordAt planned place (.directory 0 new) →
      tree.tabled.map Prod.fst = before ++ place :: behind →
      new.pathTableIndex = before.length + 2
  files : PlacedFiles lastLba finalLba tree.files planned.files

theorem exists_of_layoutKeys {items others : List (List Nat × DirectoryEntry)}
    (same : items.map layoutKey = others.map layoutKey) {place : List Nat}
    {entry : DirectoryEntry} (member : (place, entry) ∈ items) :
    ∃ other, (place, other) ∈ others ∧ other.lba = entry.lba ∧
      other.pathTableIndex = entry.pathTableIndex := by
  have listed : layoutKey (place, entry) ∈ others.map layoutKey := by
    rw [← same]
    exact List.mem_map_of_mem member
  obtain ⟨⟨otherPlace, other⟩, otherMember, keys⟩ := List.mem_map.mp listed
  simp only [layoutKey, Prod.mk.injEq] at keys
  obtain ⟨rfl, sameLba, sameIndex⟩ := keys
  exact ⟨other, otherMember, sameLba, sameIndex⟩

/-- The number of a directory is its position in the order of the path
table, behind the root. -/
theorem Planned.number_of_split {tree entry : DirectoryEntry}
    (planned : Planned tree) {place : List Nat} {before behind : List (List Nat)}
    (recorded : RecordAt tree place (.directory 0 entry))
    (split : tree.tabled.map Prod.fst = before ++ place :: behind) :
    entry.pathTableIndex = before.length + 2 := by
  obtain ⟨front, rest, tabled, sameFront, sameRest⟩ :=
    List.map_eq_append_iff.mp split
  obtain ⟨⟨otherPlace, other⟩, back, rfl, samePlace, _⟩ :=
    List.map_eq_cons_iff.mp sameRest
  change otherPlace = place at samePlace
  subst samePlace
  have otherRecorded : RecordAt tree otherPlace (.directory 0 other) := by
    apply mem_tabled.mp
    rw [tabled]
    simp
  have same := recorded.unique otherRecorded
  cases same
  apply planned.index_eq
  rw [List.getElem?_cons_succ, ← DirectoryEntry.tabled_listed, tabled,
    ← sameFront, List.length_map, List.map_append, List.map_cons,
    ← List.length_map (f := Prod.snd), List.getElem?_append_right (Nat.le_refl _)]
  simp

theorem laidOut_of_runs {tree assigned planned : DirectoryEntry}
    {start lastLba finalLba : Nat}
    (numbered : assignDirectories start tree = .ok (assigned, lastLba))
    (placed :
      (reserveFileSpace assigned).run lastLba = .ok planned finalLba) :
    ∃ base, LaidOut base lastLba finalLba tree planned := by
  obtain ⟨base, word, handed⟩ := assignDirectories_handed numbered
  have keys := reserve_traversed placed
  have places :
      assigned.tabled.map Prod.fst = tree.tabled.map Prod.fst := by
    rw [← DirectoryEntry.tabled_places_unplaced, assignDirectories_unplaced numbered,
      DirectoryEntry.tabled_places_unplaced]
  have earlier (place : List Nat) (new : DirectoryEntry)
      (recorded : RecordAt planned place (.directory 0 new)) :
      ∃ middle, RecordAt assigned place (.directory 0 middle) ∧
        middle.lba = new.lba ∧ middle.pathTableIndex = new.pathTableIndex := by
    obtain ⟨middle, member, same⟩ :=
      exists_of_layoutKeys keys (mem_traversed.mpr recorded)
    exact ⟨middle, mem_traversed.mp member, same⟩
  refine ⟨base, handed.high_eq, ?_, ?_, ?_, ?_, ?_⟩
  · intro front place old back split
    obtain ⟨middle, member, middleLba⟩ := handed.exists_new split
    obtain ⟨new, newMember, sameLba, _⟩ := exists_of_layoutKeys keys.symm member
    exact ⟨new, mem_traversed.mp newMember, by rw [sameLba, middleLba]⟩
  · intro place new recorded
    obtain ⟨middle, middleRecorded, sameLba, _⟩ := earlier place new recorded
    rw [← sameLba]
    exact handed.exists_split (mem_traversed.mpr middleRecorded)
  · intro place new recorded
    obtain ⟨middle, middleRecorded, _⟩ := earlier place new recorded
    rw [← places]
    exact List.append_of_mem
      (List.mem_map_of_mem (f := Prod.fst) (mem_tabled.mpr middleRecorded))
  · intro place new before behind recorded split
    obtain ⟨middle, middleRecorded, _, sameIndex⟩ := earlier place new recorded
    rw [← sameIndex]
    rw [← places] at split
    exact (planned_of_assigned numbered).number_of_split middleRecorded split
  · obtain ⟨_, _, _, _, _, keptFiles, _⟩ := assignDirectories_ascending numbered
    rw [← keptFiles]
    exact placedFiles_of_run word placed

namespace LaidOut

variable {base lastLba finalLba : Nat} {tree planned : DirectoryEntry}

theorem file (laid : LaidOut base lastLba finalLba tree planned)
    {front back : List FileEntry} {file : FileEntry}
    (split : tree.files = front ++ file :: back) :
    ∃ place new, RecordAt planned place (.file new) ∧
      new.lba = lastLba + reservedTotal front := by
  obtain ⟨placedFront, there, placedBack, placedSplit, sameFront, _⟩ :=
    split_of_unplaced laid.files.unplaced split
  have member : there ∈ planned.locatedFiles.map Prod.snd := by
    rw [DirectoryEntry.locatedFiles_files, placedSplit]
    simp
  obtain ⟨⟨place, new⟩, located, rfl⟩ := List.mem_map.mp member
  refine ⟨place, new, mem_locatedFiles.mp located, ?_⟩
  rw [← reservedTotal_of_unplaced sameFront]
  exact laid.files.start placedSplit

theorem located_start (laid : LaidOut base lastLba finalLba tree planned)
    {front back : List (List Nat × FileEntry)} {place : List Nat}
    {new : FileEntry}
    (located : planned.locatedFiles = front ++ (place, new) :: back) :
    new.lba = lastLba + reservedTotal (front.map Prod.snd) ∧
      planned.files = front.map Prod.snd ++ new :: back.map Prod.snd := by
  have split : planned.files = front.map Prod.snd ++ new :: back.map Prod.snd := by
    rw [← DirectoryEntry.locatedFiles_files, located, List.map_append,
      List.map_cons]
  exact ⟨laid.files.start split, split⟩

theorem fileSplit (laid : LaidOut base lastLba finalLba tree planned)
    {place : List Nat} {new : FileEntry}
    (recorded : RecordAt planned place (.file new)) :
    ∃ front file back,
      tree.files = front ++ file :: back ∧
        new.lba = lastLba + reservedTotal front := by
  obtain ⟨front, back, located⟩ :=
    List.append_of_mem (mem_locatedFiles.mpr recorded)
  obtain ⟨start, split⟩ := laid.located_start located
  obtain ⟨treeFront, file, treeBack, treeSplit, sameFront, _⟩ :=
    split_of_unplaced laid.files.unplaced.symm split
  refine ⟨treeFront, file, treeBack, treeSplit, ?_⟩
  rw [reservedTotal_of_unplaced sameFront]
  exact start

/-- Every file has a block at least, so a later one begins behind. -/
theorem reservedTotal_between (front between : List (List Nat × FileEntry))
    (place : List Nat) (file : FileEntry) :
    reservedTotal (front.map Prod.snd) <
      reservedTotal ((front ++ (place, file) :: between).map Prod.snd) := by
  have positive : 0 < file.reserved.count := by
    change 0 < (file.size % 2 ^ 32 + logicSize) / logicSize
    unfold logicSize
    omega
  have behind :
      reservedTotal (((place, file) :: between).map Prod.snd) =
        file.reserved.count + reservedTotal (between.map Prod.snd) :=
    reservedTotal_cons _ _
  rw [List.map_append, reservedTotal_append, behind]
  omega

/-- No two files begin in the same block. -/
theorem filesApart (laid : LaidOut base lastLba finalLba tree planned)
    {place other : List Nat} {new otherNew : FileEntry}
    (recorded : RecordAt planned place (.file new))
    (otherRecorded : RecordAt planned other (.file otherNew))
    (same : new.lba = otherNew.lba) : place = other := by
  obtain ⟨front, back, located⟩ :=
    List.append_of_mem (mem_locatedFiles.mpr recorded)
  obtain ⟨otherFront, otherBack, otherLocated⟩ :=
    List.append_of_mem (mem_locatedFiles.mpr otherRecorded)
  have start := (laid.located_start located).1
  have otherStart := (laid.located_start otherLocated).1
  rcases split_cases located otherLocated with
    ⟨_, equal⟩ | ⟨between, rfl⟩ | ⟨between, rfl⟩
  · exact congrArg Prod.fst equal
  · have later := reservedTotal_between front between place new
    omega
  · have later := reservedTotal_between otherFront between other otherNew
    omega

end LaidOut

/-! ## When the numbers differ -/

/-- Where two directories come in one order in the traversal and in the other
order in the path table, the blocks and the numbers that lie between them
differ; and so do the number of a directory and the blocks that lie between it
and a file. -/
structure SerialsApart (tree : DirectoryEntry) : Prop where
  directories :
    ∀ front place first between other second back before middle behind,
      tree.traversed =
        front ++ (place, first) :: (between ++ (other, second) :: back) →
      tree.tabled.map Prod.fst =
        before ++ other :: (middle ++ place :: behind) →
      spanBlocks ((place, first) :: between) + areaBlocks second ≠
        middle.length + 1 + areaBlocks first
  files :
    ∀ front place directory back before behind filesFront file filesBack,
      tree.traversed = front ++ (place, directory) :: back →
      tree.tabled.map Prod.fst = before ++ place :: behind →
      tree.files = filesFront ++ file :: filesBack →
      spanBlocks ((place, directory) :: back) + reservedTotal filesFront ≠
        before.length + 2 + areaBlocks directory

namespace LaidOut

variable {base lastLba finalLba : Nat} {tree planned : DirectoryEntry}

/-- A directory and a later one of the traversal have different numbers. -/
theorem laterApart (laid : LaidOut base lastLba finalLba tree planned)
    (apart : SerialsApart tree) {place other : List Nat}
    {new otherNew old otherOld : DirectoryEntry}
    {front between back : List (List Nat × DirectoryEntry)}
    (recorded : RecordAt planned place (.directory 0 new))
    (otherRecorded : RecordAt planned other (.directory 0 otherNew))
    (split :
      tree.traversed =
        front ++ (place, old) :: (between ++ (other, otherOld) :: back))
    (lba : new.lba = base + spanBlocks front + areaBlocks old)
    (otherLba :
      otherNew.lba =
        base + spanBlocks (front ++ (place, old) :: between) +
          areaBlocks otherOld)
    (same :
      new.lba + new.pathTableIndex =
        otherNew.lba + otherNew.pathTableIndex) : place = other := by
  obtain ⟨before, behind, listed⟩ := laid.listed place new recorded
  obtain ⟨otherBefore, otherBehind, otherListed⟩ :=
    laid.listed other otherNew otherRecorded
  have number := laid.number place new before behind recorded listed
  have otherNumber :=
    laid.number other otherNew otherBefore otherBehind otherRecorded otherListed
  rw [spanBlocks_append] at otherLba
  rcases split_cases listed otherListed with
    ⟨_, equal⟩ | ⟨middle, rfl⟩ | ⟨middle, rfl⟩
  · exact equal
  · -- the later one has the greater number as well
    rw [List.length_append, List.length_cons] at otherNumber
    rw [spanBlocks_cons] at otherLba
    omega
  · rw [List.length_append, List.length_cons] at number
    rw [List.append_assoc, List.cons_append] at listed
    have different :=
      apart.directories front place old between other otherOld back otherBefore
        middle behind split listed
    omega

/-- Two directories with the same number are one. -/
theorem directoriesApart (laid : LaidOut base lastLba finalLba tree planned)
    (apart : SerialsApart tree) {place other : List Nat}
    {new otherNew : DirectoryEntry}
    (recorded : RecordAt planned place (.directory 0 new))
    (otherRecorded : RecordAt planned other (.directory 0 otherNew))
    (same :
      new.lba + new.pathTableIndex =
        otherNew.lba + otherNew.pathTableIndex) : place = other := by
  obtain ⟨front, old, back, split, lba⟩ := laid.split place new recorded
  obtain ⟨otherFront, otherOld, otherBack, otherSplit, otherLba⟩ :=
    laid.split other otherNew otherRecorded
  rcases split_cases split otherSplit with
    ⟨_, equal⟩ | ⟨between, rfl⟩ | ⟨between, rfl⟩
  · exact congrArg Prod.fst equal
  · rw [List.append_assoc, List.cons_append] at otherSplit
    exact laid.laterApart apart recorded otherRecorded otherSplit lba otherLba
      same
  · rw [List.append_assoc, List.cons_append] at split
    exact (laid.laterApart apart otherRecorded recorded split otherLba lba
      same.symm).symm

/-- A directory and a file have different numbers. -/
theorem kindsApart (laid : LaidOut base lastLba finalLba tree planned)
    (apart : SerialsApart tree) {place other : List Nat}
    {new : DirectoryEntry} {file : FileEntry}
    (recorded : RecordAt planned place (.directory 0 new))
    (otherRecorded : RecordAt planned other (.file file)) :
    new.lba + new.pathTableIndex ≠ file.lba := by
  intro same
  obtain ⟨front, old, back, split, lba⟩ := laid.split place new recorded
  obtain ⟨before, behind, listed⟩ := laid.listed place new recorded
  obtain ⟨filesFront, original, filesBack, filesSplit, fileLba⟩ :=
    laid.fileSplit otherRecorded
  have number := laid.number place new before behind recorded listed
  have different :=
    apart.files front place old back before behind filesFront original filesBack
      split listed filesSplit
  have last := laid.last
  rw [split, spanBlocks_append] at last
  omega

/-- Different numbers of the directories keep their orders apart. -/
theorem spans_ne (laid : LaidOut base lastLba finalLba tree planned)
    (apart : SourcesApart planned) {place other : List Nat}
    {first second : DirectoryEntry}
    {front between back : List (List Nat × DirectoryEntry)}
    {before middle behind : List (List Nat)}
    (split :
      tree.traversed =
        front ++ (place, first) :: (between ++ (other, second) :: back))
    (listed :
      tree.tabled.map Prod.fst =
        before ++ other :: (middle ++ place :: behind)) :
    spanBlocks ((place, first) :: between) + areaBlocks second ≠
      middle.length + 1 + areaBlocks first := by
  intro meet
  have otherSplit :
      tree.traversed =
        (front ++ (place, first) :: between) ++ (other, second) :: back := by
    rw [split, List.append_assoc, List.cons_append]
  have placeListed :
      tree.tabled.map Prod.fst =
        (before ++ other :: middle) ++ place :: behind := by
    rw [listed, List.append_assoc, List.cons_append]
  obtain ⟨new, recorded, lba⟩ := laid.directory _ _ _ _ split
  obtain ⟨otherNew, otherRecorded, otherLba⟩ :=
    laid.directory _ _ _ _ otherSplit
  have number := laid.number _ _ _ _ recorded placeListed
  have otherNumber := laid.number _ _ _ _ otherRecorded listed
  rw [spanBlocks_append] at otherLba
  rw [List.length_append, List.length_cons] at number
  have same :
      (RecordSource.directory 0 new).serial =
        (RecordSource.directory 0 otherNew).serial := by
    change new.lba + new.pathTableIndex =
      otherNew.lba + otherNew.pathTableIndex
    omega
  have equal := apart _ _ _ _ recorded otherRecorded same
  subst equal
  cases recorded.unique otherRecorded
  omega

/-- Different numbers of a directory and a file keep their orders apart. -/
theorem filesSpan_ne (laid : LaidOut base lastLba finalLba tree planned)
    (apart : SourcesApart planned) {place : List Nat}
    {directory : DirectoryEntry} {file : FileEntry}
    {front back : List (List Nat × DirectoryEntry)}
    {before behind : List (List Nat)} {filesFront filesBack : List FileEntry}
    (split : tree.traversed = front ++ (place, directory) :: back)
    (listed : tree.tabled.map Prod.fst = before ++ place :: behind)
    (filesSplit : tree.files = filesFront ++ file :: filesBack) :
    spanBlocks ((place, directory) :: back) + reservedTotal filesFront ≠
      before.length + 2 + areaBlocks directory := by
  intro meet
  obtain ⟨new, recorded, lba⟩ := laid.directory _ _ _ _ split
  obtain ⟨filePlace, fileNew, fileRecorded, fileLba⟩ := laid.file filesSplit
  have number := laid.number _ _ _ _ recorded listed
  have last := laid.last
  rw [split, spanBlocks_append] at last
  have same :
      (RecordSource.directory 0 new).serial =
        (RecordSource.file fileNew).serial := by
    change new.lba + new.pathTableIndex = fileNew.lba
    omega
  have equal := apart _ _ _ _ recorded fileRecorded same
  subst equal
  cases recorded.unique fileRecorded

/-- The numbers are unique exactly if the orders of the tree keep them apart. -/
theorem sourcesApart_iff (laid : LaidOut base lastLba finalLba tree planned) :
    SourcesApart planned ↔ SerialsApart tree := by
  constructor
  · intro apart
    constructor
    · intro front place first between other second back before middle behind
        split listed
      exact laid.spans_ne apart split listed
    · intro front place directory back before behind filesFront file filesBack
        split listed filesSplit
      exact laid.filesSpan_ne apart split listed filesSplit
  · intro apart place other source otherSource recorded otherRecorded same
    rcases recorded.cases with ⟨child, rfl⟩ | ⟨file, rfl⟩
    · rcases otherRecorded.cases with ⟨otherChild, rfl⟩ | ⟨file, rfl⟩
      · exact laid.directoriesApart apart recorded otherRecorded same
      · exact absurd same (laid.kindsApart apart recorded otherRecorded)
    · rcases otherRecorded.cases with ⟨child, rfl⟩ | ⟨otherFile, rfl⟩
      · exact absurd same.symm (laid.kindsApart apart otherRecorded recorded)
      · exact laid.filesApart recorded otherRecorded same

end LaidOut

theorem serialsUnique_iff_of_records
    {tree assigned planned : DirectoryEntry} {start lastLba finalLba : Nat}
    {added : List (Store Origin)} {recordsOf : List Nat → List (List UInt8)}
    (numbered : assignDirectories start tree = .ok (assigned, lastLba))
    (placed :
      (reserveFileSpace assigned).run lastLba = .ok planned finalLba)
    (records : RecordsOf planned added recordsOf) :
    SerialsUnique planned recordsOf ↔ SerialsApart tree := by
  obtain ⟨base, laid⟩ := laidOut_of_runs numbered placed
  rw [serialsUnique_iff_sources records, laid.sourcesApart_iff]
  intro file member
  have bounds :=
    laid.files.ascending.bounds _ (List.mem_map_of_mem member)
  have inWord := laid.files.inWord
  have start : file.lba ≤ file.reserved.stop := Nat.le_add_right _ _
  omega

/-- For every tree that is laid out and written, the serial numbers of the
image are unique exactly if the orders of the tree keep them apart. -/
theorem writeExtent_serials_iff {clock : Clock}
    {tree assigned planned : DirectoryEntry} {start lastLba finalLba : Nat}
    {output final : Output Origin}
    (numbered : assignDirectories start tree = .ok (assigned, lastLba))
    (placed :
      (reserveFileSpace assigned).run lastLba = .ok planned finalLba)
    (returned :
      (writeExtent clock [] none planned).run output = .ok () final) :
    ∃ added recordsOf,
      final.stores = output.stores ++ added ∧
        RecordsOf planned added recordsOf ∧
        (SerialsUnique planned recordsOf ↔ SerialsApart tree) := by
  obtain ⟨added, recordsOf, logged, records⟩ := exists_recordsOf returned
  exact ⟨added, recordsOf, logged, records,
    serialsUnique_iff_of_records numbered placed records⟩

/-! ## Two small trees -/

/-- A root with its continuation area. -/
def rootOf (dirChilds : List DirectoryEntry) (filesChilds : List FileEntry) :
    DirectoryEntry :=
  { DirectoryEntry.named (utf8 "input") dirChilds filesChilds with
    continuationArea := some rockRidgeArea }

/-- The layout and the extents of a tree. -/
def writeTree (start : Nat) (tree : DirectoryEntry) :
    Except Fault (Unit × Output Origin) := do
  let (assigned, lastLba) ← assignDirectories start tree
  let (planned, _) ← outcome (reserveFileSpace assigned) lastLba
  outcome (writeExtent fixedClock [] none planned) Output.empty

theorem writeTree_eq_ok {start : Nat} {tree : DirectoryEntry}
    (isOk : (writeTree start tree).isOk = true) :
    ∃ assigned lastLba planned finalLba final,
      assignDirectories start tree = .ok (assigned, lastLba) ∧
        (reserveFileSpace assigned).run lastLba = .ok planned finalLba ∧
        (writeExtent fixedClock [] none planned).run Output.empty =
          .ok () final := by
  obtain ⟨⟨_, final⟩, returned⟩ := except_eq_ok_of_isOk isOk
  rw [writeTree, except_bind_eq_ok] at returned
  obtain ⟨⟨assigned, lastLba⟩, numbered, returned⟩ := returned
  rw [except_bind_eq_ok] at returned
  obtain ⟨⟨planned, finalLba⟩, placed, returned⟩ := returned
  rw [outcome_eq_ok] at placed returned
  exact ⟨assigned, lastLba, planned, finalLba, final, numbered, placed,
    returned⟩

def docsDirectory : DirectoryEntry := .named (utf8 "docs") [] []

/-- A directory and a file. -/
def smallRoot : DirectoryEntry :=
  rootOf [docsDirectory] [emptyFile (utf8 "a.txt")]

theorem singleton_split {α : Type} {item other : α} {front back : List α}
    (split : [item] = front ++ other :: back) :
    front = [] ∧ item = other ∧ back = [] := by
  cases front with
  | nil =>
      cases split
      exact ⟨rfl, rfl, rfl⟩
  | cons head front => simp at split

theorem smallRoot_apart : SerialsApart smallRoot := by
  constructor
  · intro front place first between other second back before middle behind split
    have lengths := congrArg List.length split
    have one : smallRoot.traversed.length = 1 := rfl
    rw [one] at lengths
    simp at lengths
    omega
  · intro front place directory back before behind filesFront file filesBack
      split listed files
    obtain ⟨_, same, rfl⟩ := singleton_split split
    obtain ⟨rfl, _, _⟩ := singleton_split listed
    obtain ⟨rfl, _, _⟩ := singleton_split files
    cases same
    with_unfolding_all decide

theorem writeExtent_serials_iff_smallRoot :
    ∃ assigned lastLba planned finalLba final recordsOf,
      assignDirectories 24 smallRoot = .ok (assigned, lastLba) ∧
        (reserveFileSpace assigned).run lastLba = .ok planned finalLba ∧
        (writeExtent fixedClock [] none planned).run Output.empty =
          .ok () final ∧
        RecordsOf planned final.stores recordsOf ∧
        SerialsUnique planned recordsOf := by
  obtain ⟨assigned, lastLba, planned, finalLba, final, numbered, placed,
    returned⟩ :=
    writeTree_eq_ok
      (by decide +kernel : (writeTree 24 smallRoot).isOk = true)
  obtain ⟨added, recordsOf, logged, records, unique⟩ :=
    writeExtent_serials_iff numbered placed returned
  have whole : final.stores = added := logged
  subst whole
  exact ⟨assigned, lastLba, planned, finalLba, final, recordsOf, numbered,
    placed, returned, records, unique.mpr smallRoot_apart⟩

/-- The directories `a/c` and `b`. -/
def nestedRoot : DirectoryEntry :=
  rootOf
    [.named (utf8 "a") [.named (utf8 "c") [] []] [], .named (utf8 "b") [] []]
    []

/-- The directory `c` is placed one block in front of `b`, and has the number
behind that of `b`. -/
theorem nestedRoot_not_apart : ¬ SerialsApart nestedRoot := by
  intro apart
  exact apart.directories
    [([0], .named (utf8 "a") [.named (utf8 "c") [] []] [])] [0, 0]
    (.named (utf8 "c") [] []) [] [1] (.named (utf8 "b") [] []) [] [[0]] [] []
    rfl rfl (by with_unfolding_all decide)

/-- A directory and two files. -/
def crowdedRoot : DirectoryEntry :=
  rootOf [docsDirectory] [emptyFile (utf8 "a.txt"), emptyFile (utf8 "b.txt")]

/-- The second file is placed two blocks behind the directory, which has the
number two. -/
theorem crowdedRoot_not_apart : ¬ SerialsApart crowdedRoot := by
  intro apart
  exact apart.files [] [0] docsDirectory [] [] []
    [emptyFile (utf8 "a.txt")] (emptyFile (utf8 "b.txt")) [] rfl rfl rfl
    (by with_unfolding_all decide)

theorem exists_sharedSerial {start : Nat} {tree : DirectoryEntry}
    (isOk : (writeTree start tree).isOk = true) (meet : ¬ SerialsApart tree) :
    ∃ assigned lastLba planned finalLba final recordsOf,
      assignDirectories start tree = .ok (assigned, lastLba) ∧
        (reserveFileSpace assigned).run lastLba = .ok planned finalLba ∧
        (writeExtent fixedClock [] none planned).run Output.empty =
          .ok () final ∧
        RecordsOf planned final.stores recordsOf ∧
        ¬ SerialsUnique planned recordsOf := by
  obtain ⟨assigned, lastLba, planned, finalLba, final, numbered, placed,
    returned⟩ := writeTree_eq_ok isOk
  obtain ⟨added, recordsOf, logged, records⟩ := exists_recordsOf returned
  have whole : final.stores = added := logged
  subst whole
  refine ⟨assigned, lastLba, planned, finalLba, final, recordsOf, numbered,
    placed, returned, records, ?_⟩
  rw [serialsUnique_iff_of_records numbered placed records]
  exact meet

theorem serials_meet :
    (∃ assigned lastLba planned finalLba final recordsOf,
      assignDirectories 24 crowdedRoot = .ok (assigned, lastLba) ∧
        (reserveFileSpace assigned).run lastLba = .ok planned finalLba ∧
        (writeExtent fixedClock [] none planned).run Output.empty =
          .ok () final ∧
        RecordsOf planned final.stores recordsOf ∧
        ¬ SerialsUnique planned recordsOf) ∧
      ∃ assigned lastLba planned finalLba final recordsOf,
        assignDirectories 24 nestedRoot = .ok (assigned, lastLba) ∧
          (reserveFileSpace assigned).run lastLba = .ok planned finalLba ∧
          (writeExtent fixedClock [] none planned).run Output.empty =
            .ok () final ∧
          RecordsOf planned final.stores recordsOf ∧
          ¬ SerialsUnique planned recordsOf :=
  ⟨exists_sharedSerial
      (by decide +kernel : (writeTree 24 crowdedRoot).isOk = true)
      crowdedRoot_not_apart,
    exists_sharedSerial
      (by decide +kernel : (writeTree 24 nestedRoot).isOk = true)
      nestedRoot_not_apart⟩

end RustKernel.Iso
