import RustKernel.Iso.Layout
import RustKernel.Iso.Records

/-!
# Extents

`write_extent` writes the records of a directory and goes into its children in
between.  What it writes for one directory is found among its writes by the
place of the directory in the tree, and lies behind the position of the
directory without a hole.
-/

namespace RustKernel.Iso

open RustKernel.Foundations
open RustKernel.Machine

/-- The directory at a place, with its parent. -/
def locate (parentOption : Option DirectoryEntry) (tree : DirectoryEntry) :
    List Nat → Option (Option DirectoryEntry × DirectoryEntry)
  | [] => some (parentOption, tree)
  | index :: place =>
      match tree.dirChilds[index]? with
      | none => none
      | some child => locate (some tree) child place

theorem locate_cons {above parent : Option DirectoryEntry}
    {tree entry : DirectoryEntry} {place : List Nat} {index : Nat} :
    locate above tree (index :: place) = some (parent, entry) ↔
      ∃ child,
        tree.dirChilds[index]? = some child ∧
          locate (some tree) child place = some (parent, entry) := by
  rw [locate]
  cases tree.dirChilds[index]? with
  | none => simp
  | some child => simp

/-- The records of the children of a directory. -/
def childSources (tree : DirectoryEntry) : List RecordSource :=
  tree.dirChilds.map (.directory 0) ++ tree.filesChilds.map .file

/-- The records that `write_extent` writes for a directory. -/
def ownSources (parentOption : Option DirectoryEntry)
    (tree : DirectoryEntry) : List RecordSource :=
  .directory (if parentOption.isNone then 3 else 1) tree ::
    .directory 2 (parentOption.getD (emptyParent tree.lba)) ::
      childSources tree

/-- The bytes of the records of a directory and the padding behind them. -/
def ownBytes (lba : Nat) (records : List (List UInt8)) : List UInt8 :=
  layOut logicSize (lba * logicSize) records ++
    List.replicate
      (restOf logicSize
        (endOf logicSize (lba * logicSize) (records.map List.length)))
      0

/-! ## Records in a row -/

/-- Under the note, a run has written a record of every source in order. -/
def Lays (origin : Origin) (sources : List RecordSource)
    (before after : Output Origin) : Prop :=
  ∃ records,
    List.Forall₂ RecordSource.Built sources records ∧
      Emits origin (layOut logicSize before.position records) before after

theorem lays_nil {origin : Origin} {before after : Output Origin}
    (emitted : Emits origin [] before after) :
    Lays origin [] before after :=
  ⟨[], List.Forall₂.nil, emitted⟩

theorem Lays.append {origin : Origin} {first second : List RecordSource}
    {before middle after : Output Origin}
    (begun : Lays origin first before middle)
    (ended : Lays origin second middle after) :
    Lays origin (first ++ second) before after := by
  obtain ⟨front, built, emitted⟩ := begun
  obtain ⟨back, builtLater, emittedLater⟩ := ended
  refine ⟨front ++ back, List.rel_append built builtLater, ?_⟩
  rw [layOut_append, ← layOut_length, ← emitted.position]
  exact emitted.append emittedLater

theorem lays_of_run {clock : Clock} {origin : Origin}
    {source : RecordSource} {output final : Output Origin} {result : Unit}
    (used : source.Used)
    (returned :
      (writeSource clock origin source).run output = .ok result final) :
    Lays origin [source] output final ∧
      Logs (fun store => store.origin = origin) output final := by
  obtain ⟨bytes, built, emitted, noted⟩ := writeSource_run_ok used returned
  exact ⟨⟨[bytes], List.Forall₂.cons built List.Forall₂.nil, emitted⟩, noted⟩

theorem lays_files {clock : Clock} {origin : Origin}
    {files : List FileEntry} {output final : Output Origin} {result : Unit}
    (returned :
      (files.forM (writeFileEntry clock origin)).run output =
        .ok result final) :
    Lays origin (files.map .file) output final ∧
      Logs (fun store => store.origin = origin) output final := by
  induction files generalizing output with
  | nil =>
      rw [forM_nil_run_ok] at returned
      subst returned
      exact ⟨lays_nil (Emits.refl _), RunRelation.refl _⟩
  | cons file files inductionHypothesis =>
      rw [forM_cons_run_ok] at returned
      obtain ⟨middle, begun, ended⟩ := returned
      have used : (RecordSource.file file).Used := trivial
      obtain ⟨own, noted⟩ := lays_of_run used begun
      obtain ⟨rest, notedLater⟩ := inductionHypothesis ended
      exact ⟨own.append rest, RunRelation.trans noted notedLater⟩

/-! ## One call -/

theorem writeExtent_run_ok {clock : Clock} {place : List Nat}
    {parentOption : Option DirectoryEntry} {tree : DirectoryEntry}
    {output final : Output Origin} {result : Unit}
    (returned :
      (writeExtent clock place parentOption tree).run output =
        .ok result final) :
    ∃ first second third fourth ended,
      tree.lba * logicSize < 2 ^ 32 ∧
        (writeSource clock (.extent place)
            (.directory (if parentOption.isNone then 3 else 1) tree)).run
          (output.seeked (tree.lba * logicSize)) = .ok () first ∧
        (writeSource clock (.extent place)
            (.directory 2 (parentOption.getD (emptyParent tree.lba)))).run
          first = .ok () second ∧
        (writeExtentChilds clock place tree 0 tree.dirChilds).run second =
          .ok () third ∧
        (tree.filesChilds.forM (writeFileEntry clock (.extent place))).run
          third = .ok () fourth ∧
        (writeContinuationArea tree).run
            (fourth.written (.extent place)
              (List.replicate (room fourth.position) 0)
              (room fourth.position)) = .ok () ended ∧
        final = ended.seeked output.position := by
  cases tree with
  | mk index parent path dirChilds filesChilds area lba =>
      rw [writeExtent, bind_run_ok] at returned
      obtain ⟨start, _, started, returned⟩ := returned
      rw [ofExcept_run_ok, mulU32_eq_ok] at started
      obtain ⟨⟨fits, rfl⟩, rfl⟩ := started
      rw [Output.writeAt_run_ok] at returned
      obtain ⟨ended, returned, rfl⟩ := returned
      rw [bind_run_ok] at returned
      obtain ⟨_, first, current, returned⟩ := returned
      rw [bind_run_ok] at returned
      obtain ⟨_, second, above, returned⟩ := returned
      rw [bind_run_ok] at returned
      obtain ⟨_, third, childs, returned⟩ := returned
      rw [bind_run_ok] at returned
      obtain ⟨_, fourth, files, returned⟩ := returned
      rw [bind_run_ok] at returned
      obtain ⟨_, fifth, padded, returned⟩ := returned
      cases padded
      exact ⟨first, second, third, fourth, ended, fits, current, above, childs,
        files, returned, rfl⟩

/-- A store of the continuation area. -/
def OfArea (store : Store Origin) : Prop := store.origin = .continuationArea

theorem writeContinuationArea_logs {tree : DirectoryEntry}
    {output final : Output Origin} {result : Unit}
    (returned :
      (writeContinuationArea tree).run output = .ok result final) :
    Logs OfArea output final ∧ final.position = output.position := by
  unfold writeContinuationArea at returned
  cases area : tree.continuationArea with
  | none =>
      rw [area] at returned
      cases returned
      exact ⟨RunRelation.refl _, rfl⟩
  | some data =>
      rw [area] at returned
      simp only at returned
      rw [bind_run_ok] at returned
      obtain ⟨extentSize, _, measured, returned⟩ := returned
      rw [ofExcept_run_ok] at measured
      obtain ⟨_, rfl⟩ := measured
      rw [bind_run_ok] at returned
      obtain ⟨block, _, summed, returned⟩ := returned
      rw [ofExcept_run_ok] at summed
      obtain ⟨_, rfl⟩ := summed
      rw [bind_run_ok] at returned
      obtain ⟨start, _, multiplied, returned⟩ := returned
      rw [ofExcept_run_ok] at multiplied
      obtain ⟨_, rfl⟩ := multiplied
      rw [Output.writeAt_run_ok] at returned
      obtain ⟨ended, returned, rfl⟩ := returned
      cases returned
      refine ⟨?_, rfl⟩
      have copied :
          Logs OfArea (output.seeked start)
            ((output.seeked start).written .continuationArea data
              data.length) :=
        logs_written rfl
      exact RunRelation.trans copied (logs_written rfl)

/-! ## All calls -/

/-- The notes that a call of `write_extent` at a place may leave. -/
def Inside (place : List Nat) (store : Store Origin) : Prop :=
  OfArea store ∨ ∃ below, store.origin = .extent (place ++ below)

/-- The stores under a note are what `write_extent` writes for a directory. -/
def OwnWritten (origin : Origin) (parentOption : Option DirectoryEntry)
    (entry : DirectoryEntry) (added : List (Store Origin)) : Prop :=
  ∃ records,
    List.Forall₂ RecordSource.Built (ownSources parentOption entry) records ∧
      Tiles (entry.lba * logicSize)
        (added.filter fun store => store.origin = origin)
        (ownBytes entry.lba records)

/-- What a call of `write_extent` leaves in the log: the extents of the
directories of the tree, each under its place. -/
def WritesExtents (place : List Nat) (parentOption : Option DirectoryEntry)
    (tree : DirectoryEntry) (before after : Output Origin) : Prop :=
  ∃ added,
    after.stores = before.stores ++ added ∧
      after.position = before.position ∧
      (∀ store ∈ added, Inside place store) ∧
      ∀ below parent entry,
        locate parentOption tree below = some (parent, entry) →
          OwnWritten (.extent (place ++ below)) parent entry added

theorem OwnWritten.extend {origin : Origin}
    {parentOption : Option DirectoryEntry} {entry : DirectoryEntry}
    {added front back : List (Store Origin)}
    (written : OwnWritten origin parentOption entry added)
    (frontOther : ∀ store ∈ front, store.origin ≠ origin)
    (backOther : ∀ store ∈ back, store.origin ≠ origin) :
    OwnWritten origin parentOption entry (front ++ added ++ back) := by
  obtain ⟨records, built, tiles⟩ := written
  have none :
      ∀ others : List (Store Origin),
        (∀ store ∈ others, store.origin ≠ origin) →
          (others.filter fun store => store.origin = origin) = [] :=
    fun others other => List.filter_eq_nil_iff.mpr (by simpa using other)
  refine ⟨records, built, ?_⟩
  rw [List.filter_append, List.filter_append, none front frontOther,
    none back backOther, List.nil_append, List.append_nil]
  exact tiles

/-- What the loop over the children leaves in the log. -/
structure WritesChilds (place : List Nat) (parent : DirectoryEntry)
    (index : Nat) (childs : List DirectoryEntry)
    (before after : Output Origin) : Prop where
  own :
    Lays (.extent place) (childs.map (.directory 0)) before after
  logged :
    ∃ added,
      after.stores = before.stores ++ added ∧
        (∀ store ∈ added,
          store.origin = .extent place ∨
            ∃ number, index ≤ number ∧ Inside (place ++ [number]) store) ∧
        ∀ offset child, childs[offset]? = some child →
          ∀ below above entry,
            locate (some parent) child below = some (above, entry) →
              OwnWritten (.extent (place ++ (index + offset) :: below))
                above entry added

theorem Inside.of_child {place : List Nat} {number : Nat} {store : Store Origin}
    (inside : Inside (place ++ [number]) store) : Inside place store := by
  rcases inside with area | ⟨deeper, noted⟩
  · exact Or.inl area
  · rw [List.append_assoc, List.singleton_append] at noted
    exact Or.inr ⟨number :: deeper, noted⟩

/-- What a directory writes for itself is under none of the notes below. -/
theorem ne_below {place below : List Nat} {index : Nat} {store : Store Origin}
    (own : store.origin = .extent place ∨ OfArea store) :
    store.origin ≠ .extent (place ++ index :: below) := by
  intro same
  rcases own with noted | area
  · rw [noted, Origin.extent.injEq, List.self_eq_append_right] at same
    cases same
  · rw [OfArea, same] at area
    cases area

/-- Extents of other children are under other notes. -/
theorem Inside.other {place below : List Nat} {number index : Nat}
    {store : Store Origin} (inside : Inside (place ++ [number]) store)
    (different : number ≠ index) :
    store.origin ≠ .extent (place ++ index :: below) := by
  intro same
  rcases inside with area | ⟨deeper, noted⟩
  · rw [OfArea, same] at area
    cases area
  · rw [same, Origin.extent.injEq, List.append_assoc, List.append_cancel_left_eq,
      List.singleton_append, List.cons.injEq] at noted
    exact different noted.1.symm

theorem Inside.not_place {place : List Nat} {number : Nat}
    {store : Store Origin} (inside : Inside (place ++ [number]) store) :
    store.origin ≠ .extent place := by
  intro same
  rcases inside with area | ⟨deeper, noted⟩
  · rw [OfArea, same] at area
    cases area
  · rw [same, Origin.extent.injEq] at noted
    have lengths := congrArg List.length noted
    simp at lengths

/-- What `write_extent` does for one tree, at any place. -/
def RunsExtents (clock : Clock) (tree : DirectoryEntry) : Prop :=
  ∀ place parentOption output final result,
    (writeExtent clock place parentOption tree).run output =
        .ok result final →
      WritesExtents place parentOption tree output final

/-- A child and its extent come in front of those of the later children. -/
theorem WritesChilds.cons {place : List Nat} {parent child : DirectoryEntry}
    {index : Nat} {childs : List DirectoryEntry}
    {output first second final : Output Origin}
    (record : Lays (.extent place) [.directory 0 child] output first)
    (recordLogs :
      Logs (fun store => store.origin = .extent place) output first)
    (nested :
      WritesExtents (place ++ [index]) (some parent) child first second)
    (rest : WritesChilds place parent (index + 1) childs second final) :
    WritesChilds place parent index (child :: childs) output final := by
  obtain ⟨own, logged, noted⟩ := recordLogs
  obtain ⟨inner, loggedInner, restored, inside, below⟩ := nested
  obtain ⟨later, loggedLater, notedLater, belowLater⟩ := rest.logged
  constructor
  · have quiet : Emits (.extent place) [] first second :=
      emits_nil loggedInner
        (fun store member => (inside store member).not_place) restored
    have between : Lays (.extent place) [] first second := lays_nil quiet
    exact (record.append between).append rest.own
  · refine ⟨own ++ inner ++ later, ?_, ?_, ?_⟩
    · rw [loggedLater, loggedInner, logged, List.append_assoc,
        List.append_assoc, List.append_assoc]
    · intro store member
      rw [List.mem_append, List.mem_append] at member
      rcases member with (early | middle) | late
      · exact Or.inl (noted store early)
      · exact Or.inr ⟨index, Nat.le_refl _, inside store middle⟩
      · rcases notedLater store late with same | ⟨number, above, deeper⟩
        · exact Or.inl same
        · exact Or.inr ⟨number, by omega, deeper⟩
    · intro offset chosen found deeper above entry located
      cases offset with
      | zero =>
          rw [List.getElem?_cons_zero, Option.some.injEq] at found
          subst found
          have written := below deeper above entry located
          rw [List.append_assoc, List.singleton_append] at written
          apply written.extend
          · intro store member
            exact ne_below (Or.inl (noted store member))
          · intro store member
            rcases notedLater store member with same | ⟨number, least, inside⟩
            · exact ne_below (Or.inl same)
            · exact inside.other (by omega)
      | succ offset =>
          rw [List.getElem?_cons_succ] at found
          have written := belowLater offset chosen found deeper above entry
            located
          rw [show index + 1 + offset = index + (offset + 1) by omega]
            at written
          have others :
              ∀ store ∈ own ++ inner,
                store.origin ≠
                  .extent (place ++ (index + (offset + 1)) :: deeper) := by
            intro store member
            rcases List.mem_append.mp member with early | middle
            · exact ne_below (Or.inl (noted store early))
            · exact (inside store middle).other (by omega)
          have extended :=
            written.extend others (List.forall_mem_nil _)
          rw [List.append_nil] at extended
          exact extended

theorem writesChilds_of_run {clock : Clock} {place : List Nat}
    {parent : DirectoryEntry} {index : Nat} {childs : List DirectoryEntry}
    {output final : Output Origin} {result : Unit}
    (each : ∀ child ∈ childs, RunsExtents clock child)
    (returned :
      (writeExtentChilds clock place parent index childs).run output =
        .ok result final) :
    WritesChilds place parent index childs output final := by
  induction childs generalizing index output with
  | nil =>
      cases returned
      exact ⟨lays_nil (Emits.refl _), [], by simp, by simp, by simp⟩
  | cons child childs inductionHypothesis =>
      rw [writeExtentChilds, bind_run_ok] at returned
      obtain ⟨_, first, recorded, returned⟩ := returned
      rw [bind_run_ok] at returned
      obtain ⟨_, second, nested, looped⟩ := returned
      have used : (RecordSource.directory 0 child).Used := by
        intro four
        cases four
      obtain ⟨record, recordLogs⟩ := lays_of_run used recorded
      have extents := each child (by simp) _ _ _ _ _ nested
      have rest :=
        inductionHypothesis (fun later member => each later (by simp [member]))
          looped
      exact WritesChilds.cons record recordLogs extents rest

/-- The directories below are those below the children. -/
theorem ownWritten_below {place : List Nat} {tree : DirectoryEntry}
    {added : List (Store Origin)}
    (each :
      ∀ offset child, tree.dirChilds[offset]? = some child →
        ∀ below above entry,
          locate (some tree) child below = some (above, entry) →
            OwnWritten (.extent (place ++ (0 + offset) :: below)) above entry
              added)
    {parentOption above : Option DirectoryEntry} {entry : DirectoryEntry}
    {index : Nat} {below : List Nat}
    (located :
      locate parentOption tree (index :: below) = some (above, entry)) :
    OwnWritten (.extent (place ++ index :: below)) above entry added := by
  obtain ⟨child, found, located⟩ := locate_cons.mp located
  have nested := each index child found below above entry located
  rw [Nat.zero_add] at nested
  exact nested

/-- The records of a directory, the padding and nothing else are under its
note. -/
theorem ownWritten_of_lays {place : List Nat}
    {parentOption : Option DirectoryEntry} {tree : DirectoryEntry}
    {output filled ended : Output Origin} {added : List (Store Origin)}
    (laid :
      Lays (.extent place) (ownSources parentOption tree)
        (output.seeked (tree.lba * logicSize)) filled)
    (area :
      Logs OfArea
        (filled.written (.extent place)
          (List.replicate (room filled.position) 0) (room filled.position))
        ended)
    (restored :
      ended.position =
        (filled.written (.extent place)
          (List.replicate (room filled.position) 0)
          (room filled.position)).position)
    (logged : ended.stores = output.stores ++ added) :
    OwnWritten (.extent place) parentOption tree added := by
  obtain ⟨records, built, emitted⟩ := laid
  have padded :
      Emits (.extent place) (List.replicate (room filled.position) 0) filled
        _ :=
    emits_written List.length_replicate filled
  have others :
      Logs (fun store => store.origin ≠ .extent place)
        (filled.written (.extent place)
          (List.replicate (room filled.position) 0) (room filled.position))
        ended := by
    apply area.mono
    intro store ofArea same
    rw [OfArea, same] at ofArea
    cases ofArea
  have quiet := Emits.of_logs others restored
  obtain ⟨same, loggedSame, tiles⟩ :=
    ((emitted.append padded).append quiet).logged
  have unique : same = added := by
    rw [logged] at loggedSame
    exact (List.append_cancel_left loggedSame).symm
  subst unique
  refine ⟨records, built, ?_⟩
  have reached := emitted.position
  rw [layOut_length] at reached
  rw [List.append_nil, reached] at tiles
  exact tiles

theorem runsExtents (clock : Clock) (tree : DirectoryEntry) :
    RunsExtents clock tree := by
  induction tree using DirectoryEntry.induction with
  | step tree inductionHypothesis =>
      intro place parentOption output final result returned
      obtain
        ⟨first, second, third, fourth, ended, fits, current, above, looped,
          files, area, rfl⟩ :=
          writeExtent_run_ok returned
      have usedCurrent :
          (RecordSource.directory
            (if parentOption.isNone then 3 else 1) tree).Used := by
        change (if parentOption.isNone then 3 else 1) ≠ 4
        split <;> omega
      have usedParent :
          (RecordSource.directory 2
            (parentOption.getD (emptyParent tree.lba))).Used := by
        intro four
        cases four
      obtain ⟨laidCurrent, logsCurrent⟩ := lays_of_run usedCurrent current
      obtain ⟨laidParent, logsParent⟩ := lays_of_run usedParent above
      have childs := writesChilds_of_run inductionHypothesis looped
      obtain ⟨laidFiles, logsFiles⟩ := lays_files files
      obtain ⟨logsArea, restored⟩ := writeContinuationArea_logs area
      have laid :
          Lays (.extent place) (ownSources parentOption tree)
            (output.seeked (tree.lba * logicSize)) fourth :=
        laidCurrent.append
          (laidParent.append (childs.own.append laidFiles))
      obtain ⟨front, loggedFront, notedFront⟩ :=
        RunRelation.trans logsCurrent logsParent
      obtain ⟨inner, loggedInner, notedInner, below⟩ := childs.logged
      have padded :
          Logs (fun store => store.origin = .extent place) fourth
            (fourth.written (.extent place)
              (List.replicate (room fourth.position) 0)
              (room fourth.position)) :=
        logs_written rfl
      obtain ⟨back, loggedBack, notedBack⟩ :=
        RunRelation.trans
          ((RunRelation.trans logsFiles padded).mono fun _ => Or.inl)
          (logsArea.mono fun _ => Or.inr)
      have logged :
          ended.stores = output.stores ++ (front ++ inner ++ back) := by
        rw [loggedBack, loggedInner, loggedFront, List.append_assoc,
          List.append_assoc, List.append_assoc]
        rfl
      refine ⟨front ++ inner ++ back, logged, rfl, ?_, ?_⟩
      · intro store member
        rw [List.mem_append, List.mem_append] at member
        rcases member with (early | middle) | late
        · exact Or.inr ⟨[], by rw [notedFront store early, List.append_nil]⟩
        · rcases notedInner store middle with same | ⟨number, _, inside⟩
          · exact Or.inr ⟨[], by rw [same, List.append_nil]⟩
          · exact inside.of_child
        · rcases notedBack store late with same | ofArea
          · exact Or.inr ⟨[], by rw [same, List.append_nil]⟩
          · exact Or.inl ofArea
      · intro deeper parent entry located
        cases deeper with
        | nil =>
            cases located
            rw [List.append_nil]
            exact ownWritten_of_lays laid logsArea restored logged
        | cons index deeper =>
            have written := ownWritten_below below located
            apply written.extend
            · intro store member
              exact ne_below (Or.inl (notedFront store member))
            · intro store member
              exact ne_below (notedBack store member)

end RustKernel.Iso
