import RustKernel.Iso.ExtentDecode

/-!
# The records of parents

The second record of a directory is to say what the first record of its parent
says.  Only for the root it is written from a parent that is made up, and that
has no children.
-/

namespace RustKernel.Iso

open RustKernel.Foundations
open RustKernel.Machine

/-- A directory below is located through the one above it. -/
theorem locate_concat {above parent : Option DirectoryEntry}
    {tree entry : DirectoryEntry} {place : List Nat} {index : Nat} :
    locate above tree (place ++ [index]) = some (parent, entry) ↔
      ∃ grandparent directory,
        locate above tree place = some (grandparent, directory) ∧
          directory.dirChilds[index]? = some entry ∧
          parent = some directory := by
  induction place generalizing above tree with
  | nil =>
      rw [List.nil_append, locate_cons]
      constructor
      · rintro ⟨child, found, here⟩
        cases here
        exact ⟨above, tree, rfl, found, rfl⟩
      · rintro ⟨grandparent, directory, here, found, rfl⟩
        cases here
        exact ⟨entry, found, rfl⟩
  | cons first place inductionHypothesis =>
      rw [List.cons_append, locate_cons]
      simp only [inductionHypothesis, locate_cons]
      constructor
      · rintro ⟨child, first, grandparent, directory, located, found⟩
        exact ⟨grandparent, directory, ⟨child, first, located⟩, found⟩
      · rintro ⟨grandparent, directory, ⟨child, first, located⟩, found⟩
        exact ⟨child, first, grandparent, directory, located, found⟩

/-- The records of the directory at each place of a tree. -/
def RecordsOf (tree : DirectoryEntry) (added : List (Store Origin))
    (recordsOf : List Nat → List (List UInt8)) : Prop :=
  ∀ place above entry,
    locate none tree place = some (above, entry) →
      List.Forall₂ RecordSource.Built (ownSources above entry)
          (recordsOf place) ∧
        Tiles (entry.lba * logicSize)
          (added.filter fun store => store.origin = .extent place)
          (ownBytes entry.lba (recordsOf place))

theorem exists_recordsOf {clock : Clock} {tree : DirectoryEntry}
    {output final : Output Origin}
    (returned :
      (writeExtent clock [] none tree).run output = .ok () final) :
    ∃ added recordsOf,
      final.stores = output.stores ++ added ∧
        RecordsOf tree added recordsOf := by
  obtain ⟨added, logged, _, _, each⟩ :=
    runsExtents clock tree _ _ _ _ _ returned
  have written :
      ∀ place, ∃ records, ∀ above entry,
        locate none tree place = some (above, entry) →
          List.Forall₂ RecordSource.Built (ownSources above entry) records ∧
            Tiles (entry.lba * logicSize)
              (added.filter fun store => store.origin = .extent place)
              (ownBytes entry.lba records) := by
    intro place
    cases located : locate none tree place with
    | none => exact ⟨[], by simp⟩
    | some found =>
        obtain ⟨above, entry⟩ := found
        have own := each place above entry located
        rw [List.nil_append] at own
        obtain ⟨records, built, tiles⟩ := own
        refine ⟨records, ?_⟩
        intro otherAbove otherEntry same
        cases same
        exact ⟨built, tiles⟩
  choose recordsOf spec using written
  exact ⟨added, recordsOf, logged, spec⟩

/-- The second record of a directory carries the location and the size that
the first record of its parent carries. -/
def ParentAgrees (own parent : List (List UInt8)) : Prop :=
  ∃ dotDot dot,
    own[1]? = some dotDot ∧ parent[0]? = some dot ∧
      (decodeRecord dotDot).lba = (decodeRecord dot).lba ∧
      (decodeRecord dotDot).extentSize = (decodeRecord dot).extentSize

/-- The parent of the root is the root. -/
def ParentsAgree (tree : DirectoryEntry)
    (recordsOf : List Nat → List (List UInt8)) : Prop :=
  ∀ place above entry,
    locate none tree place = some (above, entry) →
      ParentAgrees (recordsOf place) (recordsOf place.dropLast)

/-- What the record of a directory says of its extent. -/
theorem decoded_directory {directoryType : Nat} {entry : DirectoryEntry}
    {record : List UInt8}
    (built : (RecordSource.directory directoryType entry).Built record) :
    ∃ extentSize,
      entry.getExtentSizeInLb = .ok extentSize ∧
        (decodeRecord record).lba = entry.lba % 2 ^ 32 ∧
        (decodeRecord record).extentSize = extentSize * logicSize := by
  have read := built.decodes
  rw [RecordSource.expected, except_bind_eq_ok] at read
  obtain ⟨fileName, _, read⟩ := read
  rw [except_bind_eq_ok] at read
  obtain ⟨fixed, _, read⟩ := read
  rw [except_bind_eq_ok] at read
  obtain ⟨extentSize, measured, read⟩ := read
  rw [← Except.ok.inj read]
  exact ⟨extentSize, measured, rfl, rfl⟩

/-- The first two records of a directory. -/
theorem first_records {above : Option DirectoryEntry} {entry : DirectoryEntry}
    {records : List (List UInt8)}
    (built : List.Forall₂ RecordSource.Built (ownSources above entry) records) :
    ∃ dot dotDot,
      records[0]? = some dot ∧ records[1]? = some dotDot ∧
        (RecordSource.directory (if above.isNone then 3 else 1) entry).Built
          dot ∧
        (RecordSource.directory 2 (above.getD (emptyParent entry.lba))).Built
          dotDot := by
  cases built with
  | cons first rest =>
      cases rest with
      | cons second _ => exact ⟨_, _, rfl, rfl, first, second⟩

theorem emptyParent_extent (lba : Nat) :
    (emptyParent lba).getExtentSizeInLb = .ok 1 := by
  have known : extentSizeOfNames (some (utf8 "dummy")) [] [] = .ok 1 := by
    with_unfolding_all decide
  exact (getExtentSizeInLb_eq (emptyParent lba)).trans known

/-- Below the root, both records are made from the same directory. -/
theorem parentAgrees_below {tree : DirectoryEntry}
    {added : List (Store Origin)} {recordsOf : List Nat → List (List UInt8)}
    (records : RecordsOf tree added recordsOf)
    {place : List Nat} {index : Nat} {above : Option DirectoryEntry}
    {entry : DirectoryEntry}
    (located : locate none tree (place ++ [index]) = some (above, entry)) :
    ParentAgrees (recordsOf (place ++ [index])) (recordsOf place) := by
  obtain ⟨grandparent, directory, locatedParent, _, rfl⟩ :=
    locate_concat.mp located
  obtain ⟨_, dotDot, _, second, _, builtSecond⟩ :=
    first_records (records _ _ _ located).1
  obtain ⟨dot, _, first, _, builtFirst, _⟩ :=
    first_records (records _ _ _ locatedParent).1
  obtain ⟨ownSize, ownMeasured, ownLba, ownExtent⟩ :=
    decoded_directory builtSecond
  obtain ⟨size, measured, lba, extent⟩ := decoded_directory builtFirst
  rw [Option.getD_some] at ownMeasured ownLba
  rw [ownMeasured] at measured
  cases measured
  exact ⟨dotDot, dot, second, first, by rw [ownLba, lba],
    by rw [ownExtent, extent]⟩

/-- At the root they agree if the root takes the one block of a directory
without children. -/
theorem parentAgrees_root {tree : DirectoryEntry}
    {added : List (Store Origin)} {recordsOf : List Nat → List (List UInt8)}
    (records : RecordsOf tree added recordsOf) :
    ParentAgrees (recordsOf []) (recordsOf []) ↔
      tree.getExtentSizeInLb = .ok 1 := by
  obtain ⟨dot, dotDot, first, second, builtFirst, builtSecond⟩ :=
    first_records (records [] none tree rfl).1
  obtain ⟨madeUp, madeUpMeasured, madeUpLba, madeUpExtent⟩ :=
    decoded_directory builtSecond
  obtain ⟨size, measured, lba, extent⟩ := decoded_directory builtFirst
  rw [Option.getD_none, emptyParent_extent] at madeUpMeasured
  cases madeUpMeasured
  rw [measured, Except.ok.injEq]
  have block : logicSize = 2048 := rfl
  constructor
  · intro agrees
    obtain ⟨_, _, secondAgain, firstAgain, _, same⟩ := agrees
    rw [second] at secondAgain
    rw [first] at firstAgain
    cases secondAgain
    cases firstAgain
    rw [madeUpExtent, extent, block] at same
    omega
  · intro one
    subst one
    exact ⟨dotDot, dot, second, first, by rw [madeUpLba, lba]; rfl,
      by rw [madeUpExtent, extent]⟩

theorem parentsAgree_iff_of_records {tree : DirectoryEntry}
    {added : List (Store Origin)} {recordsOf : List Nat → List (List UInt8)}
    (records : RecordsOf tree added recordsOf) :
    ParentsAgree tree recordsOf ↔ tree.getExtentSizeInLb = .ok 1 := by
  rw [← parentAgrees_root records]
  constructor
  · intro agree
    exact agree [] none tree rfl
  · intro root place above entry located
    rcases List.eq_nil_or_concat place with empty | ⟨front, index, split⟩
    · rw [empty]
      exact root
    · rw [List.concat_eq_append] at split
      subst split
      rw [List.dropLast_concat]
      exact parentAgrees_below records located

/-- When `write_extent` returns, the records of all parents are right exactly
if the root takes one block. -/
theorem writeExtent_parentsAgree_iff {clock : Clock} {tree : DirectoryEntry}
    {output final : Output Origin}
    (returned :
      (writeExtent clock [] none tree).run output = .ok () final) :
    ∃ added recordsOf,
      final.stores = output.stores ++ added ∧
        RecordsOf tree added recordsOf ∧
        (ParentsAgree tree recordsOf ↔ tree.getExtentSizeInLb = .ok 1) := by
  obtain ⟨added, recordsOf, logged, records⟩ := exists_recordsOf returned
  exact ⟨added, recordsOf, logged, records,
    parentsAgree_iff_of_records records⟩

theorem writeExtent_parentsAgree_placedTree :
    ∃ final recordsOf,
      (writeExtent fixedClock [] none placedTree).run Output.empty =
          .ok () final ∧
        RecordsOf placedTree final.stores recordsOf ∧
        ParentsAgree placedTree recordsOf := by
  obtain ⟨⟨_, final⟩, returned⟩ := except_eq_ok_of_isOk placedTree_isOk
  rw [outcome_eq_ok] at returned
  obtain ⟨added, recordsOf, logged, records, agree⟩ :=
    writeExtent_parentsAgree_iff returned
  have whole : final.stores = added := logged
  subst whole
  exact ⟨final, recordsOf, returned, records,
    agree.mpr (by with_unfolding_all decide)⟩

/-- A root of 22 files, whose records take two blocks. -/
def wideRoot : DirectoryEntry :=
  { DirectoryEntry.new with
    path := some (utf8 "input")
    continuationArea := some rockRidgeArea
    filesChilds := List.replicate 22 (emptyFile (longName 1))
    lba := 24 }

theorem wideRoot_parent_wrong :
    ∃ final recordsOf,
      (writeExtent fixedClock [] none wideRoot).run Output.empty =
          .ok () final ∧
        RecordsOf wideRoot final.stores recordsOf ∧
        ¬ ParentsAgree wideRoot recordsOf := by
  obtain ⟨⟨_, final⟩, returned⟩ :=
    except_eq_ok_of_isOk
      (by decide +kernel :
        (outcome (writeExtent fixedClock [] none wideRoot)
          Output.empty).isOk = true)
  rw [outcome_eq_ok] at returned
  obtain ⟨added, recordsOf, logged, records⟩ := exists_recordsOf returned
  have whole : final.stores = added := logged
  subst whole
  refine ⟨final, recordsOf, returned, records, ?_⟩
  rw [parentsAgree_iff_of_records records]
  with_unfolding_all decide

end RustKernel.Iso
