import RustKernel.Iso.Extents

/-!
# Extents and the space planned for them

`get_extent_size_in_lb` counts a block for every record that does not fit into
what is left of the present one.  It counts none for a record that starts a
block because the records before have filled theirs exactly, and it always
takes the first two records to be those of the root.
-/

namespace RustKernel.Iso

open RustKernel.Foundations
open RustKernel.Machine

/-- The sizes of the records of the children of a directory. -/
def childSizes (tree : DirectoryEntry) : Except Fault (List Nat) :=
  (childSources tree).mapM RecordSource.size

/-- The sizes of `'.'` and `'..'` in the root, and in other directories. -/
def headSize (root : Bool) : Nat := if root then 191 else 156

/-- The records fit into the blocks that are planned for them: in the root, no
record starts behind a block that is filled exactly; elsewhere, the records
that do so in the plan are made up for by the smaller first record. -/
def ExtentFits (root : Bool) (sizes : List Nat) : Prop :=
  if root then
    exactFills logicSize (headSize true) sizes = 0
  else
    exactFills logicSize (headSize true) sizes +
        sectorsTo logicSize (endOf logicSize (headSize false) sizes) ≤
      sectorsTo logicSize (endOf logicSize (headSize true) sizes)

/-! ## The count -/

theorem gap_congr {position other : Nat}
    (same : position % logicSize = other % logicSize) (size : Nat) :
    gap logicSize position size = gap logicSize other size := by
  rw [gap, gap, restOf, restOf, same]

theorem extentStep_eq_ok {counted next : Nat × Nat} {size position : Nat}
    (same : counted.2 % logicSize = position % logicSize)
    (stepped : DirectoryEntry.extentStep counted size = .ok next) :
    next.1 =
        counted.1 + (if gap logicSize position size = 0 then 0 else 1) ∧
      next.2 % logicSize = advance logicSize position size % logicSize := by
  rw [DirectoryEntry.extentStep, except_bind_eq_ok] at stepped
  obtain ⟨aligned, computed, stepped⟩ := stepped
  simp only [alignUp_sub computed] at stepped
  rw [advance, ← gap_congr same, gap, restOf_eq]
  by_cases needed : room counted.2 < size ∧ room counted.2 ≠ 0
  · rw [if_pos (by omega)] at stepped
    cases stepped
    rw [if_pos needed, if_neg needed.2]
    refine ⟨rfl, ?_⟩
    unfold room logicSize at *
    omega
  · rw [if_neg (by omega)] at stepped
    cases stepped
    rw [if_neg needed, if_pos rfl]
    refine ⟨rfl, ?_⟩
    unfold logicSize at *
    omega

theorem extentFold_eq_ok {sources : List RecordSource}
    {counted last : Nat × Nat} {position : Nat}
    (same : counted.2 % logicSize = position % logicSize)
    (folded :
      sources.foldlM
          (fun counted source => do
            let entrySize ← source.size
            DirectoryEntry.extentStep counted entrySize)
          counted = .ok last) :
    ∃ sizes,
      sources.mapM RecordSource.size = .ok sizes ∧
        last.1 = counted.1 + gaps logicSize position sizes := by
  induction sources generalizing counted position with
  | nil =>
      cases folded
      exact ⟨[], rfl, rfl⟩
  | cons source sources inductionHypothesis =>
      rw [List.foldlM_cons, except_bind_eq_ok] at folded
      obtain ⟨next, stepped, folded⟩ := folded
      rw [except_bind_eq_ok] at stepped
      obtain ⟨size, sized, stepped⟩ := stepped
      obtain ⟨count, kept⟩ := extentStep_eq_ok same stepped
      obtain ⟨sizes, mapped, total⟩ := inductionHypothesis kept folded
      refine ⟨size :: sizes, ?_, ?_⟩
      · exact mapM_cons_eq_ok.mpr ⟨size, sizes, sized, mapped, rfl⟩
      · rw [total, count, gaps, Nat.add_assoc]

theorem getExtentSizeInLb_sources (tree : DirectoryEntry) :
    tree.getExtentSizeInLb = (do
      let current ← tree.getEntrySize (some 3)
      let parent ← tree.getEntrySize (some 2)
      let counted ← (childSources tree).foldlM
        (fun counted source => do
          let entrySize ← source.size
          DirectoryEntry.extentStep counted entrySize)
        (1, current + parent)
      return counted.1) := by
  unfold DirectoryEntry.getExtentSizeInLb childSources
  simp only [List.foldlM_append, List.foldlM_map, bind_assoc]
  rfl

theorem headSizes_eq {entry : DirectoryEntry} {directoryType size : Nat}
    (head : 0 < directoryType) (short : directoryType < 4)
    (sized : entry.getEntrySize (some directoryType) = .ok size) :
    size = if directoryType = 3 then 113 else 78 := by
  rw [DirectoryEntry.getEntrySize, except_bind_eq_ok] at sized
  obtain ⟨fileName, _, sized⟩ := sized
  obtain ⟨_, fixed, _, rfl⟩ := getEntrySize_eq_ok.mp sized
  rw [Option.getD_some, entrySize_odd]
  obtain rfl | rfl | rfl :
      directoryType = 1 ∨ directoryType = 2 ∨ directoryType = 3 := by
    omega
  · rfl
  · rfl
  · rfl

/-- The size of an extent counts the gaps in front of the records. -/
theorem extentSize_eq {tree : DirectoryEntry} {extentSize : Nat}
    (measured : tree.getExtentSizeInLb = .ok extentSize) :
    ∃ sizes,
      childSizes tree = .ok sizes ∧
        extentSize = 1 + gaps logicSize (headSize true) sizes := by
  rw [getExtentSizeInLb_sources, except_bind_eq_ok] at measured
  obtain ⟨current, sizedCurrent, measured⟩ := measured
  rw [except_bind_eq_ok] at measured
  obtain ⟨parent, sizedParent, measured⟩ := measured
  rw [except_bind_eq_ok] at measured
  obtain ⟨counted, folded, closed⟩ := measured
  cases closed
  have first := headSizes_eq (by omega) (by omega) sizedCurrent
  have second := headSizes_eq (by omega) (by omega) sizedParent
  rw [first, second] at folded
  exact extentFold_eq_ok rfl folded

/-! ## The bytes -/

theorem restOf_shift (sector count position : Nat) :
    restOf sector (sector * count + position) = restOf sector position := by
  rw [restOf, restOf, Nat.mul_add_mod]

theorem add_restOf (position : Nat) :
    position + restOf logicSize position =
      logicSize * sectorsTo logicSize position := by
  unfold restOf sectorsTo logicSize
  omega

/-- The bytes of a directory fill the sectors that its records take. -/
theorem ownBytes_length (lba : Nat) (records : List (List UInt8)) :
    (ownBytes lba records).length =
      logicSize *
        sectorsTo logicSize
          (endOf logicSize 0 (records.map List.length)) := by
  have total := layOut_length logicSize (lba * logicSize) records
  have shifted :=
    endOf_shift logicSize lba 0 (records.map List.length)
  rw [Nat.add_zero, Nat.mul_comm] at shifted
  rw [ownBytes, List.length_append, List.length_replicate, shifted,
    Nat.mul_comm lba logicSize, restOf_shift]
  rw [shifted, Nat.mul_comm lba logicSize] at total
  rw [← add_restOf]
  omega

theorem built_sizes {sources : List RecordSource}
    {records : List (List UInt8)}
    (built : List.Forall₂ RecordSource.Built sources records) :
    sources.mapM RecordSource.size = .ok (records.map List.length) := by
  induction built with
  | nil => rfl
  | cons own _ inductionHypothesis =>
      exact mapM_cons_eq_ok.mpr ⟨_, _, own.1, inductionHypothesis, rfl⟩

/-- The records of a directory end where those of its children end that start
behind the first two. -/
theorem ownSizes_end {above : Option DirectoryEntry} {entry : DirectoryEntry}
    {sizes : List Nat}
    (sized :
      (ownSources above entry).mapM RecordSource.size = .ok sizes) :
    ∃ childs,
      childSizes entry = .ok childs ∧
        endOf logicSize 0 sizes =
          endOf logicSize (headSize above.isNone) childs := by
  obtain ⟨current, behind, sizedCurrent, mapped, rfl⟩ :=
    mapM_cons_eq_ok.mp sized
  obtain ⟨parent, childs, sizedParent, children, rfl⟩ :=
    mapM_cons_eq_ok.mp mapped
  refine ⟨childs, children, ?_⟩
  have second := headSizes_eq (by omega) (by omega) sizedParent
  rw [second]
  cases above with
  | none =>
      have first : current = if 3 = 3 then 113 else 78 :=
        headSizes_eq (by decide) (by decide) sizedCurrent
      rw [first]
      rfl
  | some directory =>
      have first : current = if 1 = 3 then 113 else 78 :=
        headSizes_eq Nat.one_pos (by decide) sizedCurrent
      rw [first]
      rfl

theorem childSizes_bounded {entry : DirectoryEntry} {sizes : List Nat}
    (sized : childSizes entry = .ok sizes) :
    ∀ size ∈ sizes, 0 < size ∧ size ≤ logicSize := by
  intro size member
  have listed :
      Except.ok size ∈ (childSources entry).map RecordSource.size := by
    rw [map_eq_of_mapM_eq_ok sized]
    exact List.mem_map_of_mem member
  obtain ⟨source, _, own⟩ := List.mem_map.mp listed
  have bounds := source.size_bounds own
  unfold logicSize
  omega

/-! ## Extents that fit -/

/-- The stores of a directory lie in the blocks that are planned for it. -/
def StaysWithin (place : List Nat) (lba extentSize : Nat)
    (stores : List (Store Origin)) : Prop :=
  ∀ store ∈ stores, store.origin = .extent place →
    ∀ target, store.Covers target →
      lba * logicSize ≤ target ∧ target < (lba + extentSize) * logicSize

theorem exists_overrun {place : List Nat} {lba extentSize : Nat}
    {stores : List (Store Origin)} {bytes : List UInt8}
    (tiles :
      Tiles (lba * logicSize)
        (stores.filter fun store => store.origin = .extent place) bytes)
    (long : extentSize * logicSize < bytes.length) :
    ∃ store ∈ stores,
      store.origin = .extent place ∧
        store.Covers ((lba + extentSize) * logicSize) := by
  have covered := tiles.covers_iff ((lba + extentSize) * logicSize)
  simp only [List.mem_filter, decide_eq_true_eq] at covered
  obtain ⟨store, ⟨member, noted⟩, covers⟩ :=
    covered.mpr ⟨by rw [Nat.add_mul]; omega, by rw [Nat.add_mul]; omega⟩
  exact ⟨store, member, noted, covers⟩

theorem staysWithin_iff_length {place : List Nat} {lba extentSize : Nat}
    {stores : List (Store Origin)} {bytes : List UInt8}
    (tiles :
      Tiles (lba * logicSize)
        (stores.filter fun store => store.origin = .extent place) bytes) :
    StaysWithin place lba extentSize stores ↔
      bytes.length ≤ extentSize * logicSize := by
  constructor
  · intro within
    by_contra long
    obtain ⟨store, member, noted, covers⟩ :=
      exists_overrun tiles (Nat.lt_of_not_le long)
    exact Nat.lt_irrefl _ (within store member noted _ covers).2
  · intro short store member noted target covers
    have covered := tiles.covers_iff target
    simp only [List.mem_filter, decide_eq_true_eq] at covered
    obtain ⟨lower, upper⟩ := covered.mp ⟨store, ⟨member, noted⟩, covers⟩
    rw [Nat.add_mul]
    omega

theorem ownWritten_within_iff {place : List Nat}
    {above : Option DirectoryEntry} {entry : DirectoryEntry}
    {added : List (Store Origin)} {extentSize : Nat}
    (written : OwnWritten (.extent place) above entry added)
    (measured : entry.getExtentSizeInLb = .ok extentSize) :
    ∃ sizes,
      childSizes entry = .ok sizes ∧
        (StaysWithin place entry.lba extentSize added ↔
          ExtentFits above.isNone sizes) := by
  obtain ⟨records, built, tiles⟩ := written
  obtain ⟨sizes, sized, reached⟩ := ownSizes_end (built_sizes built)
  obtain ⟨same, sizedAgain, counted⟩ := extentSize_eq measured
  rw [sized] at sizedAgain
  cases sizedAgain
  refine ⟨sizes, sized, ?_⟩
  have planned :=
    sectorsTo_endOf (childSizes_bounded sized) (headSize true)
  have first : sectorsTo logicSize (headSize true) = 1 := rfl
  rw [first] at planned
  rw [staysWithin_iff_length tiles, ownBytes_length, reached, Nat.mul_comm,
    Nat.mul_le_mul_right_iff (by decide), counted, ExtentFits]
  cases above with
  | none =>
      rw [Option.isNone_none, if_pos rfl, planned]
      omega
  | some directory =>
      rw [Option.isNone_some, if_neg (by decide), planned]
      omega

theorem ownWritten_measured {place : List Nat}
    {above : Option DirectoryEntry} {entry : DirectoryEntry}
    {added : List (Store Origin)}
    (written : OwnWritten (.extent place) above entry added) :
    ∃ extentSize, entry.getExtentSizeInLb = .ok extentSize := by
  obtain ⟨records, built, _⟩ := written
  cases built with
  | cons own _ =>
      obtain ⟨_, now, recorded⟩ := own
      obtain ⟨_, _, _, extentSize, _, _, _, _, measured, _⟩ :=
        directoryRecord_eq_ok recorded
      exact ⟨extentSize, measured⟩

/-- When `write_extent` returns, the records of a directory lie in the blocks
that `get_extent_size_in_lb` has counted exactly if they fit. -/
theorem writeExtent_within_iff {clock : Clock} {tree : DirectoryEntry}
    {output final : Output Origin}
    (returned :
      (writeExtent clock [] none tree).run output = .ok () final) :
    ∃ added,
      final.stores = output.stores ++ added ∧
        ∀ place above entry,
          locate none tree place = some (above, entry) →
            ∃ extentSize sizes,
              entry.getExtentSizeInLb = .ok extentSize ∧
                childSizes entry = .ok sizes ∧
                (StaysWithin place entry.lba extentSize added ↔
                  ExtentFits above.isNone sizes) := by
  obtain ⟨added, logged, _, _, each⟩ :=
    runsExtents clock tree _ _ _ _ _ returned
  refine ⟨added, logged, ?_⟩
  intro place above entry located
  have written := each place above entry located
  rw [List.nil_append] at written
  obtain ⟨extentSize, measured⟩ := ownWritten_measured written
  obtain ⟨sizes, sized, fits⟩ := ownWritten_within_iff written measured
  exact ⟨extentSize, sizes, measured, sized, fits⟩

def fixedClock : Clock := fun _ => ⟨2024, 1, 1, 0, 0, 0⟩

/-- A root with a directory below, both placed. -/
def placedTree : DirectoryEntry :=
  { bootTree with
    dirChilds := [{ bootDirectory with pathTableIndex := 2, lba := 26 }]
    continuationArea := some rockRidgeArea
    lba := 24 }

theorem placedTree_isOk :
    (outcome (writeExtent fixedClock [] none placedTree) Output.empty).isOk =
      true := by
  decide +kernel

theorem writeExtent_within_iff_placedTree :
    ∃ final added entry extentSize,
      (writeExtent fixedClock [] none placedTree).run Output.empty =
          .ok () final ∧
        final.stores = added ∧
        locate none placedTree [0] = some (some placedTree, entry) ∧
        StaysWithin [0] entry.lba extentSize added := by
  obtain ⟨⟨_, final⟩, returned⟩ := except_eq_ok_of_isOk placedTree_isOk
  rw [outcome_eq_ok] at returned
  obtain ⟨added, logged, each⟩ := writeExtent_within_iff returned
  obtain ⟨extentSize, sizes, _, sized, fits⟩ := each [0] (some placedTree) _ rfl
  have known :
      childSizes { bootDirectory with pathTableIndex := 2, lba := 26 } =
        .ok [105] := by
    with_unfolding_all decide
  rw [known] at sized
  cases sized
  have enough : ExtentFits false [105] := by
    change _ ≤ _
    decide
  exact ⟨final, added, _, extentSize, returned, logged, rfl, fits.mpr enough⟩

/-! ## A root whose records fill a block -/

def longName (length : Nat) : Name := List.replicate length 0x61

def emptyFile (name : Name) : FileEntry := ⟨.regular (some name) [], 0, 0, 0⟩

/-- Eight files whose records fill the first block of the root, and one more. -/
def fullRoot : DirectoryEntry :=
  { DirectoryEntry.new with
    path := some (utf8 "input")
    continuationArea := some rockRidgeArea
    filesChilds :=
      List.replicate 6 (emptyFile (longName 162)) ++
        [emptyFile (longName 70), emptyFile (longName 71),
          emptyFile (longName 1)]
    lba := 24 }

theorem fullRoot_isOk :
    (outcome (writeExtent fixedClock [] none fullRoot) Output.empty).isOk =
      true := by
  decide +kernel

theorem fullRoot_childSizes :
    childSizes fullRoot =
      .ok [255, 255, 255, 255, 255, 255, 163, 164, 86] := by
  decide +kernel

/-- The ninth record starts a block that the plan has not counted. -/
theorem full_block_overruns :
    ∃ final extentSize store target,
      (writeExtent fixedClock [] none fullRoot).run Output.empty =
          .ok () final ∧
        fullRoot.getExtentSizeInLb = .ok extentSize ∧
        store ∈ final.stores ∧
        store.origin = .extent [] ∧
        store.Covers target ∧
        (fullRoot.lba + extentSize) * logicSize ≤ target := by
  obtain ⟨⟨_, final⟩, returned⟩ := except_eq_ok_of_isOk fullRoot_isOk
  rw [outcome_eq_ok] at returned
  obtain ⟨added, logged, _, _, each⟩ := runsExtents _ _ _ _ _ _ _ returned
  have written := each [] none fullRoot rfl
  obtain ⟨extentSize, measured⟩ := ownWritten_measured written
  obtain ⟨sizes, sized, fits⟩ := ownWritten_within_iff written measured
  rw [fullRoot_childSizes] at sized
  cases sized
  have overruns :
      ¬ ExtentFits true [255, 255, 255, 255, 255, 255, 163, 164, 86] := by
    change ¬ (exactFills logicSize (headSize true) _ = 0)
    decide
  obtain ⟨records, built, tiles⟩ := written
  have long := mt (staysWithin_iff_length tiles).mpr (mt fits.mp overruns)
  obtain ⟨store, member, noted, covers⟩ :=
    exists_overrun tiles (Nat.lt_of_not_le long)
  refine ⟨final, extentSize, store, _, returned, measured, ?_, noted, covers,
    Nat.le_refl _⟩
  rw [logged]
  exact List.mem_append_right _ member

end RustKernel.Iso
