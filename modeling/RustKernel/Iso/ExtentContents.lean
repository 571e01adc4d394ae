import Mathlib.Data.List.Pairwise
import RustKernel.Iso.ContinuationAreas
import RustKernel.Iso.ExtentStores
import RustKernel.Iso.ImageFront

/-!
# The extents of directories in the image

In a plan the blocks of the directories, the continuation area and the files
are disjoint.  So when the records of every directory fit into its blocks, what
`write_extent` stores for it is found there at the end, with zeros behind.
-/

namespace RustKernel.Iso

open RustKernel.Foundations
open DirectoryEntry

/-! ## Blocks -/

/-- The byte at the target is in one of the blocks. -/
def InBlocks (range : Range) (target : Nat) : Prop :=
  range.start * logicSize ≤ target ∧ target < range.stop * logicSize

theorem not_inBlocks_of_disjoint {first second : Range} {target : Nat}
    (disjoint : Range.Disjoint first second) (own : InBlocks first target) :
    ¬ InBlocks second target := by
  intro other
  unfold InBlocks logicSize at own other
  unfold Range.Disjoint at disjoint
  omega

theorem FileEntry.region_iff {file : FileEntry} {target : Nat} :
    file.Region target ↔ InBlocks file.blocks target := by
  rw [FileEntry.Region, InBlocks, Nat.mul_comm logicSize,
    Nat.mul_comm logicSize]

theorem DirectoryEntry.extent_eq_ok {entry : DirectoryEntry} {extentSize : Nat}
    (measured : entry.getExtentSizeInLb = .ok extentSize) :
    entry.extent = .ok ⟨entry.lba, extentSize⟩ := by
  rw [DirectoryEntry.extent, measured]
  rfl

/-! ## Disjoint extents -/

theorem located_here {tree entry : DirectoryEntry}
    {top above : Option DirectoryEntry} {place : List Nat}
    (located : locate top tree place = some (above, entry)) :
    (place, entry) ∈ gather here [] tree := by
  rw [mem_gather tree top]
  exact ⟨place, above, entry, located, by simp [here]⟩

theorem gather_here_directories (tree : DirectoryEntry) :
    (gather here [] tree).map Prod.snd = tree.directories := by
  have split :
      ∀ entry : DirectoryEntry,
        entry.directories =
          [entry] ++ entry.dirChilds.flatMap directories :=
    directories_eq
  apply gather_map _ split
  intro place entry
  rfl

theorem mem_directories_of_located {tree entry : DirectoryEntry}
    {top above : Option DirectoryEntry} {place : List Nat}
    (located : locate top tree place = some (above, entry)) :
    entry ∈ tree.directories := by
  rw [← gather_here_directories]
  exact List.mem_map_of_mem (located_here located)

/-- The extents of two directories have no block in common. -/
def ExtentsApart (first second : List Nat × DirectoryEntry) : Prop :=
  ∀ left right, first.2.extent = .ok left → second.2.extent = .ok right →
    Range.Disjoint left right

instance : Std.Symm ExtentsApart where
  symm _ _ apart left right first second :=
    (apart right left second first).symm

section Layout

variable {start finalLba extentSize lastLba : Nat} {ranges : List Range}
variable {tree entry other : DirectoryEntry}
variable {above otherAbove : Option DirectoryEntry} {place otherPlace : List Nat}
variable {range otherRange : Range}

theorem Layout.extents
    (layout : Layout start finalLba extentSize lastLba ranges tree) :
    Iso.extents tree.directories = .ok (⟨tree.lba, extentSize⟩ :: ranges) := by
  rw [directories_eq]
  exact extents_cons layout.sized layout.below

theorem Layout.ascending
    (layout : Layout start finalLba extentSize lastLba ranges tree) :
    Ascending start finalLba
      (⟨tree.lba, extentSize⟩ :: ⟨tree.lba + extentSize, 1⟩ ::
        (ranges ++ tree.files.map FileEntry.blocks)) := by
  have directories := layout.directories
  rw [← layout.lba] at directories
  exact ⟨by rw [layout.lba], Nat.le_refl _,
    directories.append layout.files⟩

theorem Layout.mem_extents
    (layout : Layout start finalLba extentSize lastLba ranges tree)
    (located : locate none tree place = some (above, entry))
    (own : entry.extent = .ok range) :
    range ∈ (⟨tree.lba, extentSize⟩ :: ranges : List Range) := by
  have listed :
      entry.extent ∈ tree.directories.map DirectoryEntry.extent :=
    List.mem_map_of_mem (mem_directories_of_located located)
  rw [map_eq_of_mapM_eq_ok layout.extents, own] at listed
  obtain ⟨same, member, closed⟩ := List.mem_map.mp listed
  cases closed
  exact member

theorem Layout.le_extent_start
    (layout : Layout start finalLba extentSize lastLba ranges tree)
    (located : locate none tree place = some (above, entry))
    (own : entry.extent = .ok range) : start ≤ range.start := by
  apply (layout.ascending.bounds range _).1
  rcases List.mem_cons.mp (layout.mem_extents located own) with root | below
  · rw [root]
    exact List.mem_cons_self
  · simp [below]

/-- Directories at different places have no block in common. -/
theorem Layout.extents_disjoint
    (layout : Layout start finalLba extentSize lastLba ranges tree)
    (located : locate none tree place = some (above, entry))
    (otherLocated : locate none tree otherPlace = some (otherAbove, other))
    (different : place ≠ otherPlace) (own : entry.extent = .ok range)
    (others : other.extent = .ok otherRange) :
    Range.Disjoint range otherRange := by
  have ascending := layout.ascending
  have kept :
      (⟨tree.lba, extentSize⟩ :: ranges : List Range).Sublist
        (⟨tree.lba, extentSize⟩ :: ⟨tree.lba + extentSize, 1⟩ ::
          (ranges ++ tree.files.map FileEntry.blocks)) :=
    ((List.sublist_append_left _ _).cons _).cons_cons _
  have ordered := List.Pairwise.sublist kept ascending.pairwise_disjoint
  have mapped :
      ((gather here [] tree).map fun item => item.2.extent) =
        (⟨tree.lba, extentSize⟩ :: ranges).map .ok := by
    rw [← map_eq_of_mapM_eq_ok layout.extents, ← gather_here_directories,
      List.map_map]
    rfl
  have apart :
      ((⟨tree.lba, extentSize⟩ :: ranges).map
        (Except.ok : Range → Except Fault Range)).Pairwise
          fun first second =>
            ∀ left right, first = .ok left → second = .ok right →
              Range.Disjoint left right := by
    rw [List.pairwise_map]
    apply ordered.imp
    intro first second disjoint left right sameLeft sameRight
    cases sameLeft
    cases sameRight
    exact disjoint
  rw [← mapped, List.pairwise_map] at apart
  have pairs : (gather here [] tree).Pairwise ExtentsApart := apart
  exact pairs.forall (located_here located) (located_here otherLocated)
    (by simp [different]) _ _ own others

/-- No directory has the block of the continuation area. -/
theorem Layout.area_disjoint
    (layout : Layout start finalLba extentSize lastLba ranges tree)
    (located : locate none tree place = some (above, entry))
    (own : entry.extent = .ok range) :
    Range.Disjoint range ⟨tree.lba + extentSize, 1⟩ := by
  have ascending := layout.ascending
  rcases List.mem_cons.mp (layout.mem_extents located own) with root | below
  · rw [root]
    exact Or.inl (Nat.le_refl _)
  · have bounds := ascending.2.2.bounds range (by simp [below])
    exact Or.inr bounds.1

/-- No directory has a block of a file. -/
theorem Layout.files_disjoint
    (layout : Layout start finalLba extentSize lastLba ranges tree)
    (located : locate none tree place = some (above, entry))
    (own : entry.extent = .ok range) :
    ∀ file ∈ tree.files, Range.Disjoint range file.blocks := by
  intro file member
  have behind :=
    (layout.files.bounds file.blocks (List.mem_map_of_mem member)).1
  have directories := layout.directories
  have order := directories.le
  rcases List.mem_cons.mp (layout.mem_extents located own) with root | below
  · rw [root]
    refine Or.inl ?_
    have lba := layout.lba
    unfold Range.stop
    simp only
    omega
  · exact Or.inl
      (Nat.le_trans (directories.bounds range below).2 behind)

end Layout

/-! ## What a run of `write_extent` leaves -/

/-- The continuation area of the root stays in its block. -/
theorem writeContinuationArea_inBlock {tree : DirectoryEntry}
    {output final : Output Origin} {result : Unit} {data : List UInt8}
    {extentSize : Nat} (area : tree.continuationArea = some data)
    (short : data.length ≤ logicSize)
    (measured : tree.getExtentSizeInLb = .ok extentSize)
    (returned :
      (writeContinuationArea tree).run output = .ok result final) :
    Logs
      (fun store => ∀ target, store.Covers target →
        InBlocks ⟨tree.lba + extentSize, 1⟩ target)
      output final := by
  unfold writeContinuationArea at returned
  rw [area] at returned
  simp only at returned
  rw [bind_run_of_ok _ (ofExcept_run_ok.mpr ⟨measured, rfl⟩), bind_run_ok]
    at returned
  obtain ⟨block, _, summed, returned⟩ := returned
  rw [ofExcept_run_ok, addU32_eq_ok] at summed
  obtain ⟨⟨_, rfl⟩, rfl⟩ := summed
  rw [bind_run_ok] at returned
  obtain ⟨start, _, multiplied, returned⟩ := returned
  rw [ofExcept_run_ok, mulU32_eq_ok] at multiplied
  obtain ⟨⟨_, rfl⟩, rfl⟩ := multiplied
  rw [Output.writeAt_run_ok] at returned
  obtain ⟨ended, returned, rfl⟩ := returned
  cases returned
  have copied :
      WritesIn (InBlocks ⟨tree.lba + extentSize, 1⟩)
        (output.seeked ((tree.lba + extentSize) * logicSize))
        ((output.seeked ((tree.lba + extentSize) * logicSize)).written
          .continuationArea data data.length) := by
    apply writesIn_written
    intro target above below
    simp only [Output.seeked, logicSize] at above below short
    simp only [InBlocks, Range.stop, logicSize]
    omega
  refine (RunRelation.trans copied (writesIn_written ?_)).logged
  intro target above below
  rw [Output.written_position] at above below
  rw [List.length_replicate] at below
  simp only [Output.seeked, room, logicSize] at above below short
  simp only [InBlocks, Range.stop, logicSize]
  omega

theorem rockRidgeArea_length : rockRidgeArea.length ≤ logicSize := by
  decide +kernel

/-- The records of a directory fit into its blocks. -/
def RecordsFit (root : Bool) (directory : DirectoryEntry) : Prop :=
  ∀ sizes, childSizes directory = .ok sizes → ExtentFits root sizes

instance (root : Bool) (sizes : List Nat) :
    Decidable (ExtentFits root sizes) := by
  unfold ExtentFits
  infer_instance

instance (root : Bool) (directory : DirectoryEntry) :
    Decidable (RecordsFit root directory) :=
  match sized : childSizes directory with
  | .error _ => isTrue fun _ other => nomatch sized.symm.trans other
  | .ok sizes =>
      decidable_of_iff (ExtentFits root sizes)
        ⟨fun fits _ other => Except.ok.inj (sized.symm.trans other) ▸ fits,
          fun fits => fits sizes sized⟩

/-- The records of every directory of the tree fit into its blocks. -/
def AllFit (tree : DirectoryEntry) : Prop :=
  RecordsFit true tree ∧
    ∀ directory ∈ tree.dirChilds.flatMap directories,
      RecordsFit false directory

instance (tree : DirectoryEntry) : Decidable (AllFit tree) :=
  inferInstanceAs (Decidable (_ ∧ _))

theorem locate_isNone {parent tree entry : DirectoryEntry}
    {above : Option DirectoryEntry} {place : List Nat}
    (located : locate (some parent) tree place = some (above, entry)) :
    above.isNone = false := by
  induction place generalizing parent tree with
  | nil =>
      cases located
      rfl
  | cons index place inductionHypothesis =>
      obtain ⟨child, _, below⟩ := locate_cons.mp located
      exact inductionHypothesis below

theorem AllFit.of_located {tree entry : DirectoryEntry}
    {above : Option DirectoryEntry} {place : List Nat} (fits : AllFit tree)
    (located : locate none tree place = some (above, entry)) :
    RecordsFit above.isNone entry := by
  cases place with
  | nil =>
      cases located
      exact fits.1
  | cons index place =>
      obtain ⟨child, found, below⟩ := locate_cons.mp located
      rw [locate_isNone below]
      exact fits.2 entry (List.mem_flatMap.mpr
        ⟨child, List.mem_of_getElem? found,
          mem_directories_of_located below⟩)

/-- The records of a directory are at its place, in front of bytes that the run
has left as they were. -/
structure WroteExtent (above : Option DirectoryEntry) (entry : DirectoryEntry)
    (extentSize : Nat) (records : List (List UInt8))
    (before after : Output Origin) : Prop where
  measured : entry.getExtentSizeInLb = .ok extentSize
  built : List.Forall₂ RecordSource.Built (ownSources above entry) records
  short : (ownBytes entry.lba records).length ≤ extentSize * logicSize
  holds : Holds (entry.lba * logicSize) (ownBytes entry.lba records) after
  rest :
    ∀ target,
      entry.lba * logicSize + (ownBytes entry.lba records).length ≤ target →
        target < (entry.lba + extentSize) * logicSize →
          after.image target = before.image target

/-- A store is noted under the place of a directory of the tree, or in the
block of the continuation area. -/
def NotedIn (tree : DirectoryEntry) (extentSize : Nat) (store : Store Origin) :
    Prop :=
  (∃ place above entry,
    locate none tree place = some (above, entry) ∧
      store.origin = .extent place) ∨
    ∀ target, store.Covers target →
      InBlocks ⟨tree.lba + extentSize, 1⟩ target

section Run

variable {clock : Clock} {start finalLba rootSize lastLba : Nat}
variable {ranges : List Range} {tree : DirectoryEntry}
variable {output final : Output Origin}

theorem logs_notedIn
    (layout : Layout start finalLba rootSize lastLba ranges tree)
    (areaFree : AreaFree tree.dirChilds)
    (returned :
      (writeExtent clock [] none tree).run output = .ok () final) :
    Logs (NotedIn tree rootSize) output final := by
  apply logsExtents clock tree _ _ _ _ _ _ _ _ returned
  · intro below parent entry located store noted
    exact Or.inl ⟨below, parent, entry, located, noted⟩
  · intro directory member before after result written
    rw [directories_eq, List.mem_cons] at member
    rcases member with rfl | below
    · apply Logs.mono (writeContinuationArea_inBlock layout.area
        rockRidgeArea_length layout.sized written)
      intro store inside
      exact Or.inr inside
    · unfold writeContinuationArea at written
      rw [areaFree directory below] at written
      cases written
      exact RunRelation.refl _

/-- No other store of the run lies in the blocks of a directory. -/
theorem not_covers_extent
    (layout : Layout start finalLba rootSize lastLba ranges tree)
    {added : List (Store Origin)} {place : List Nat}
    {above : Option DirectoryEntry} {entry : DirectoryEntry}
    {extentSize : Nat}
    (within :
      ∀ place above entry, locate none tree place = some (above, entry) →
        ∃ extentSize,
          entry.getExtentSizeInLb = .ok extentSize ∧
            StaysWithin place entry.lba extentSize added)
    (located : locate none tree place = some (above, entry))
    (measured : entry.getExtentSizeInLb = .ok extentSize)
    {store : Store Origin} (member : store ∈ added)
    (noted : NotedIn tree rootSize store)
    (other : store.origin ≠ .extent place) {target : Nat}
    (inside : InBlocks ⟨entry.lba, extentSize⟩ target) :
    ¬ store.Covers target := by
  intro covered
  have own := extent_eq_ok measured
  rcases noted with ⟨otherPlace, otherAbove, directory, found, note⟩ | area
  · obtain ⟨otherSize, otherMeasured, stays⟩ := within _ _ _ found
    have different : place ≠ otherPlace := by
      intro same
      rw [same] at other
      exact other note
    have disjoint :=
      layout.extents_disjoint located found different own
        (extent_eq_ok otherMeasured)
    exact not_inBlocks_of_disjoint disjoint inside
      (stays store member note target covered)
  · exact not_inBlocks_of_disjoint (layout.area_disjoint located own) inside
      (area target covered)

theorem writeExtent_wrote
    (layout : Layout start finalLba rootSize lastLba ranges tree)
    (areaFree : AreaFree tree.dirChilds) (fits : AllFit tree)
    (returned :
      (writeExtent clock [] none tree).run output = .ok () final)
    {place : List Nat} {above : Option DirectoryEntry}
    {entry : DirectoryEntry}
    (located : locate none tree place = some (above, entry)) :
    ∃ extentSize records,
      WroteExtent above entry extentSize records output final := by
  obtain ⟨added, logged, _, _, each⟩ :=
    runsExtents clock tree _ _ _ _ _ returned
  obtain ⟨_, loggedSame, noted⟩ := logs_notedIn layout areaFree returned
  rw [logged, List.append_cancel_left_eq] at loggedSame
  subst loggedSame
  have within :
      ∀ place above entry, locate none tree place = some (above, entry) →
        ∃ extentSize,
          entry.getExtentSizeInLb = .ok extentSize ∧
            StaysWithin place entry.lba extentSize added := by
    intro place above entry located
    have written := each place above entry located
    rw [List.nil_append] at written
    obtain ⟨extentSize, measured⟩ := ownWritten_measured written
    obtain ⟨sizes, sized, stays⟩ := ownWritten_within_iff written measured
    exact ⟨extentSize, measured,
      stays.mpr (fits.of_located located sizes sized)⟩
  obtain ⟨extentSize, measured, stays⟩ := within place above entry located
  obtain ⟨records, built, tiles⟩ := each place above entry located
  rw [List.nil_append] at tiles
  have short := (staysWithin_iff_length tiles).mp stays
  have others :
      ∀ store ∈ added, store.origin ≠ .extent place →
        ∀ target, InBlocks ⟨entry.lba, extentSize⟩ target →
          ¬ store.Covers target :=
    fun store member other _ inside =>
      not_covers_extent layout within located measured member
        (noted store member) other inside
  have blocks :
      (entry.lba + extentSize) * logicSize =
        entry.lba * logicSize + extentSize * logicSize :=
    Nat.add_mul _ _ _
  refine ⟨extentSize, records, measured, built, short, ?_, ?_⟩
  · apply tiles.holds logged ((reaches_writeExtent clock tree [] none).of_run_ok
      returned)
    intro store member different target lower upper
    apply others store member (by simpa using different)
    refine ⟨lower, ?_⟩
    unfold Range.stop
    simp only
    omega
  · intro target behind inside
    rw [Output.image, logged, Store.applyAll_append,
      Store.applyAll_of_not_covers]
    · rfl
    · intro store member covered
      by_cases own : store.origin = .extent place
      · have bounds :=
          (tiles.covers_iff target).mp
            ⟨store, List.mem_filter.mpr ⟨member, by simp [own]⟩, covered⟩
        omega
      · exact others store member own target ⟨by simp only; omega, inside⟩
          covered

end Run

/-! ## The end of the run -/

theorem writeFiles_writesIn {tree : DirectoryEntry}
    {output final : Output Origin} {result : Unit}
    (sized : ∀ file ∈ tree.files, file.Sized)
    (returned : (writeFiles tree).run output = .ok result final) :
    WritesIn (fun target => ∃ file ∈ tree.files, InBlocks file.blocks target)
      output final := by
  rw [writeFiles_run] at returned
  have each :
      ∀ file ∈ tree.writtenFiles,
        Preserves
          (WritesIn fun target =>
            ∃ file ∈ tree.files, InBlocks file.blocks target)
          (writeContent file) := by
    intro file member before
    rw [tree.writtenFiles_perm.mem_iff] at member
    apply (writeContent_writesIn (sized file member) before).mono
    intro target inside
    exact ⟨file, member, FileEntry.region_iff.mp inside⟩
  exact (Preserves.forM each).of_run_ok returned

theorem keepsZeros_writeTrailer {output final : Output Origin} {result : Unit}
    (returned : (writeTrailer).run output = .ok result final) :
    KeepsZeros output final := by
  rw [writeTrailer, bind_run_of_ok _ (Output.seekEnd_run output),
    bind_run_ok] at returned
  obtain ⟨_, ended, looped, closed⟩ := returned
  cases closed
  have zeros :
      Preserves KeepsZeros
        ((List.replicate 128 logicSize).forM
          (Output.writeZeros Origin.trailer) : Writer Unit) :=
    Preserves.forM fun count _ => keepsZeros_writeZeros Origin.trailer count
  exact RunRelation.trans (keepsZeros_seeked _ output)
    (RunRelation.trans (zeros.of_run_ok looped) (keepsZeros_seeked _ ended))

/-- The blocks of a directory have its records and then zeros. -/
def ExtentRead (bytes : List UInt8) (above : Option DirectoryEntry)
    (entry : DirectoryEntry) : Prop :=
  ∃ extentSize records count,
    entry.getExtentSizeInLb = .ok extentSize ∧
      List.Forall₂ RecordSource.Built (ownSources above entry) records ∧
      bytesAt bytes (entry.lba * logicSize) (extentSize * logicSize) =
        layOut logicSize (entry.lba * logicSize) records ++
          List.replicate count 0

section Stages

variable {clock : Clock} {opt : Opt} {lbCount finalLba rootSize : Nat}
variable {lastLba size : Nat} {ranges : List Range} {tree : DirectoryEntry}
variable {area described marked tabled extended filed final : Output Origin}

theorem Stages.extentRead
    (stages :
      Stages clock opt tree lbCount Output.empty area described marked tabled
        extended filed final)
    (layout :
      Layout (pathTableStartLba opt + 4) finalLba rootSize lastLba ranges tree)
    (areaFree : AreaFree tree.dirChilds) (fits : AllFit tree)
    (sized : ∀ file ∈ tree.files, file.Sized)
    (tableSize : tree.getPathTableSize = .ok size)
    (tableShort : size ≤ 2 * logicSize) {place : List Nat}
    {above : Option DirectoryEntry} {entry : DirectoryEntry}
    (located : locate none tree place = some (above, entry)) :
    ExtentRead final.bytes above entry := by
  obtain ⟨extentSize, records, wrote⟩ :=
    writeExtent_wrote layout areaFree fits stages.extents located
  have own := extent_eq_ok wrote.measured
  have blocks :
      (entry.lba + extentSize) * logicSize =
        entry.lba * logicSize + extentSize * logicSize :=
    Nat.add_mul _ _ _
  have short := wrote.short
  have inExtent :
      ∀ target, entry.lba * logicSize ≤ target →
        target < entry.lba * logicSize + extentSize * logicSize →
          InBlocks ⟨entry.lba, extentSize⟩ target := by
    intro target lower upper
    refine ⟨lower, ?_⟩
    unfold Range.stop
    simp only
    omega
  have notInFiles :
      ∀ target, InBlocks ⟨entry.lba, extentSize⟩ target →
        ¬ ∃ file ∈ tree.files, InBlocks file.blocks target := by
    rintro target inside ⟨file, member, other⟩
    exact not_inBlocks_of_disjoint
      (layout.files_disjoint located own file member) inside other
  have contents := writeFiles_writesIn sized stages.files
  have filedHolds :
      Holds (entry.lba * logicSize) (ownBytes entry.lba records) filed := by
    refine contents.holds ?_ wrote.holds
    intro target lower upper
    exact notInFiles target (inExtent target lower (by omega))
  have held := (writeTrailer_run_ok stages.trailer).holds_behind filedHolds
  have zeros :
      ∀ target,
        entry.lba * logicSize + (ownBytes entry.lba records).length ≤ target →
          target < entry.lba * logicSize + extentSize * logicSize →
            final.image target = 0 := by
    intro target behind inside
    have within := inExtent target (by omega) inside
    apply keepsZeros_writeTrailer stages.trailer
    rw [contents.image_eq (notInFiles target within),
      wrote.rest target behind (by omega)]
    apply (stages.frontTables rfl tableSize tableShort).image_eq_zero
    have placed := layout.le_extent_start located own
    have behindTables := Nat.mul_le_mul_right logicSize placed
    simp only at behindTables
    omega
  obtain ⟨count, read⟩ := held.bytesAt_zeros short zeros
  rw [ownBytes, List.append_assoc, List.replicate_append_replicate] at read
  exact ⟨extentSize, records, _, wrote.measured, wrote.built, read⟩

end Stages

end RustKernel.Iso
