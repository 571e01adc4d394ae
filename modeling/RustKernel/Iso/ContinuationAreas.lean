import RustKernel.Iso.ImageContents

/-!
# Continuation areas

Only the root is given a continuation area.  The directories below it are
scanned without one, and no later pass gives them any.
-/

namespace RustKernel.Iso

open RustKernel.Foundations
open DirectoryEntry

/-- No directory of the trees has a continuation area. -/
def AreaFree (entries : List DirectoryEntry) : Prop :=
  ∀ directory ∈ entries.flatMap directories,
    directory.continuationArea = none

theorem areaFree_append {first second : List DirectoryEntry} :
    AreaFree (first ++ second) ↔ AreaFree first ∧ AreaFree second := by
  unfold AreaFree
  simp only [List.flatMap_append, List.mem_append, or_imp, forall_and]

theorem areaFree_cons {entry : DirectoryEntry}
    {entries : List DirectoryEntry} :
    AreaFree (entry :: entries) ↔
      entry.continuationArea = none ∧ AreaFree entry.dirChilds ∧
        AreaFree entries := by
  unfold AreaFree
  rw [List.flatMap_cons, directories_eq]
  simp only [List.cons_append, List.mem_cons, List.mem_append, or_imp,
    forall_and, forall_eq]

theorem areaFree_nil : AreaFree [] := by
  simp [AreaFree]

/-! ## The scan -/

/-- Merging a directory adds no area. -/
def MergesAreas (child : DirectoryEntry) : Prop :=
  ∀ dirChilds merged,
    mergeChildDirectories dirChilds child = .ok merged →
      AreaFree dirChilds → AreaFree child.dirChilds → AreaFree merged

theorem areaFree_mergeOrPush {dirChilds merged : List DirectoryEntry}
    {child : DirectoryEntry} {present : Option LastNamed}
    (merges : MergesAreas child)
    (looked : lastNamed child dirChilds = .ok present)
    (returned :
      mergeOrPush
          (fun found => mergeChildDirectories found.dirChilds child) dirChilds
          child present = .ok merged)
    (known : AreaFree dirChilds) (added : AreaFree [child]) :
    AreaFree merged := by
  cases present with
  | none =>
      cases returned
      exact areaFree_append.mpr ⟨known, added⟩
  | some present =>
      rw [mergeOrPush, except_bind_eq_ok] at returned
      obtain ⟨below, mergedBelow, closed⟩ := returned
      cases closed
      rw [lastNamed_eq_some looked, areaFree_append, areaFree_cons] at known
      rw [areaFree_cons] at added
      obtain ⟨front, area, dirs, back⟩ := known
      have inside := merges _ _ mergedBelow dirs added.2.1
      exact areaFree_append.mpr
        ⟨front, areaFree_cons.mpr ⟨area, inside, back⟩⟩

theorem areaFree_mergeChilds {childs dirChilds merged : List DirectoryEntry}
    (each : ∀ child ∈ childs, MergesAreas child)
    (returned : mergeChilds dirChilds childs = .ok merged)
    (known : AreaFree dirChilds) (added : AreaFree childs) :
    AreaFree merged := by
  induction childs generalizing dirChilds with
  | nil =>
      cases returned
      exact known
  | cons child childs inductionHypothesis =>
      rw [mergeChilds, except_bind_eq_ok] at returned
      obtain ⟨present, looked, returned⟩ := returned
      rw [except_bind_eq_ok] at returned
      obtain ⟨next, stepped, returned⟩ := returned
      rw [← List.singleton_append, areaFree_append] at added
      exact inductionHypothesis
        (fun later member => each later (by simp [member])) returned
        (areaFree_mergeOrPush (each child (by simp)) looked stepped known
          added.1)
        added.2

theorem mergesAreas (child : DirectoryEntry) : MergesAreas child := by
  induction child using DirectoryEntry.induction with
  | step child inductionHypothesis =>
      intro dirChilds merged returned known added
      cases child
      rw [mergeChildDirectories] at returned
      exact areaFree_mergeChilds inductionHypothesis returned known added

/-- What a turn of a loop adds has no area. -/
def Scanned.AreaFree : Scanned → Prop
  | .directory entry => Iso.AreaFree [entry]
  | .file _ => True
  | .skipped => True

theorem areaFree_collect {turns : List (Except Fault Scanned)}
    {collected : Collected}
    (each : ∀ scanned, Except.ok scanned ∈ turns → scanned.AreaFree)
    (returned : collect turns = .ok collected) :
    AreaFree collected.dirChilds := by
  unfold collect at returned
  have known : AreaFree (⟨[], []⟩ : Collected).dirChilds := areaFree_nil
  generalize (⟨[], []⟩ : Collected) = start at returned known
  induction turns generalizing start with
  | nil =>
      cases returned
      exact known
  | cons turn turns inductionHypothesis =>
      rw [List.foldlM_cons, except_bind_eq_ok] at returned
      obtain ⟨next, stepped, returned⟩ := returned
      rw [except_bind_eq_ok] at stepped
      obtain ⟨scanned, rfl, added⟩ := stepped
      have areaFree := each scanned (by simp)
      apply inductionHypothesis
        (fun later member => each later (by simp [member])) next returned
      cases scanned with
      | directory entry =>
          rw [Collected.add, except_bind_eq_ok] at added
          obtain ⟨merged, merging, closed⟩ := added
          cases closed
          rw [addAndMergeChildsDirectories, except_bind_eq_ok] at merging
          obtain ⟨present, looked, stepped⟩ := merging
          exact areaFree_mergeOrPush (mergesAreas entry) looked stepped known
            areaFree
      | file file =>
          cases added
          exact known
      | skipped =>
          cases added
          exact known

theorem scanEntry_areaFree (entry : HostEntry) :
    ∀ scanned, scanEntry entry = .ok scanned → scanned.AreaFree := by
  induction entry using HostEntry.induction with
  | file name contents =>
      intro scanned returned
      rw [scanEntry, except_bind_eq_ok] at returned
      obtain ⟨alignedSize, _, closed⟩ := returned
      cases closed
      trivial
  | unread name =>
      intro scanned returned
      cases returned
  | directory name entries inductionHypothesis =>
      intro scanned returned
      rw [scanEntry, except_bind_eq_ok] at returned
      obtain ⟨collected, gathered, closed⟩ := returned
      cases closed
      have below : AreaFree collected.dirChilds := by
        apply areaFree_collect _ gathered
        intro scanned member
        obtain ⟨turn, listed, same⟩ := List.mem_map.mp member
        rw [List.mem_insertionSort] at listed
        obtain ⟨entry, entryMember, own⟩ := mem_scanEntries listed
        rw [own] at same
        exact inductionHypothesis entry entryMember scanned same
      exact areaFree_cons.mpr ⟨rfl, below, areaFree_nil⟩
  | other name =>
      intro scanned returned
      cases returned
      trivial
  | inaccessible name text =>
      intro scanned returned
      cases returned

theorem scanInputs_areaFree {opt : Opt} {inputFiles : List HostEntry}
    {tree : DirectoryEntry} (returned : scanInputs opt inputFiles = .ok tree) :
    AreaFree tree.dirChilds := by
  obtain ⟨collected, gathered, dirs, _⟩ := setPathFiles_eq_ok returned
  have scanned : AreaFree collected.dirChilds := by
    apply areaFree_collect _ gathered
    intro scanned member
    obtain ⟨entry, _, same⟩ := List.mem_map.mp member
    exact scanEntry_areaFree entry scanned same
  rw [dirs]
  split
  · exact areaFree_append.mpr ⟨areaFree_nil, scanned⟩
  · exact areaFree_append.mpr ⟨areaFree_nil, scanned⟩

/-! ## The layout -/

theorem areaFree_assignChilds {parentIndex pathTableIndex : Nat}
    {entries planned : List DirectoryEntry} {before after : Counters}
    (each :
      ∀ entry ∈ entries, ∀ parentIndex pathTableIndex before after planned,
        (assignDirectoryIdentifiers parentIndex pathTableIndex entry).run
            before = .ok planned after →
          AreaFree [entry] → AreaFree [planned])
    (known : AreaFree entries)
    (returned :
      (assignChilds parentIndex pathTableIndex entries).run before =
        .ok planned after) :
    AreaFree planned := by
  induction entries generalizing pathTableIndex planned before with
  | nil =>
      rw [(assignChilds_nil_run_ok returned).1]
      exact areaFree_nil
  | cons entry entries inductionHypothesis =>
      obtain ⟨first, rest, middle, rfl, assigned, looped⟩ :=
        assignChilds_cons_run_ok returned
      rw [← List.singleton_append, areaFree_append] at known ⊢
      exact ⟨each entry (by simp) _ _ _ _ _ assigned known.1,
        inductionHypothesis
          (fun later member => each later (by simp [member])) known.2 looped⟩

theorem areaFree_assign (tree : DirectoryEntry) :
    ∀ parentIndex pathTableIndex before after planned,
      (assignDirectoryIdentifiers parentIndex pathTableIndex tree).run
          before = .ok planned after →
        AreaFree [tree] → AreaFree [planned] := by
  induction tree using DirectoryEntry.induction with
  | step tree inductionHypothesis =>
      intro parentIndex pathTableIndex before after planned returned known
      obtain ⟨_, _, _, _, _, _, fields, _, looped⟩ := assign_run_ok returned
      rw [areaFree_cons] at known ⊢
      exact ⟨fields.continuationArea.trans known.1,
        areaFree_assignChilds inductionHypothesis known.2.1 looped,
        areaFree_nil⟩

theorem areaFree_reserveChilds {entries planned : List DirectoryEntry}
    {before after : Nat}
    (each :
      ∀ entry ∈ entries, ∀ before after planned,
        (reserveFileSpace entry).run before = .ok planned after →
          AreaFree [entry] → AreaFree [planned])
    (known : AreaFree entries)
    (returned : (reserveChilds entries).run before = .ok planned after) :
    AreaFree planned := by
  induction entries generalizing planned before with
  | nil =>
      rw [reserveChilds, pure_run_ok] at returned
      rw [← returned.1]
      exact areaFree_nil
  | cons entry entries inductionHypothesis =>
      obtain ⟨first, rest, middle, rfl, reserved, looped⟩ :=
        reserveChilds_cons_run_ok returned
      rw [← List.singleton_append, areaFree_append] at known ⊢
      exact ⟨each entry (by simp) _ _ _ reserved known.1,
        inductionHypothesis
          (fun later member => each later (by simp [member])) known.2 looped⟩

theorem areaFree_reserve (tree : DirectoryEntry) :
    ∀ before after planned,
      (reserveFileSpace tree).run before = .ok planned after →
        AreaFree [tree] → AreaFree [planned] := by
  induction tree using DirectoryEntry.induction with
  | step tree inductionHypothesis =>
      intro before after planned returned known
      obtain ⟨middle, fields, _, looped⟩ := reserveFileSpace_run_ok returned
      rw [areaFree_cons] at known ⊢
      exact ⟨fields.continuationArea.trans known.1,
        areaFree_reserveChilds inductionHypothesis known.2.1 looped,
        areaFree_nil⟩

/-- The directories below the root are planned without areas. -/
theorem planLayout_areaFree {opt : Opt} {pathTableStartLba finalLba : Nat}
    {tree planned : DirectoryEntry} (known : AreaFree tree.dirChilds)
    (returned :
      planLayout opt pathTableStartLba tree = .ok (planned, finalLba)) :
    AreaFree planned.dirChilds := by
  obtain ⟨assigned, lastLba, reserved, numbered, placed, filling⟩ :=
    planLayout_eq_ok returned
  rw [assignDirectories, except_bind_eq_ok] at numbered
  obtain ⟨⟨counted, counters⟩, begun, closed⟩ := numbered
  rw [outcome_eq_ok] at begun
  cases closed
  obtain ⟨_, _, _, _, _, _, _, _, assignedChilds⟩ := assign_run_ok begun
  have assignedFree : AreaFree counted.dirChilds :=
    areaFree_assignChilds (fun entry _ => areaFree_assign entry) known
      assignedChilds
  obtain ⟨_, _, _, reservedChilds⟩ := reserveFileSpace_run_ok placed
  have reservedFree : AreaFree reserved.dirChilds :=
    areaFree_reserveChilds (fun entry _ => areaFree_reserve entry)
      assignedFree reservedChilds
  unfold fillIfBootable at filling
  cases boot : opt.eltoritoBoot with
  | none =>
      rw [boot] at filling
      cases filling
      exact reservedFree
  | some value =>
      rw [boot] at filling
      obtain ⟨_, _, _, _, _, _, rfl⟩ := fillBootCatalog_eq_ok filling
      exact reservedFree

end RustKernel.Iso
