import RustKernel.Foundations.TiledFile
import RustKernel.Iso.BootChain
import RustKernel.Iso.ExtentFit
import RustKernel.Iso.Places

/-!
# Where the extents are stored

A store of `write_extent` belongs to the extent of a directory of the tree or
to a continuation area.  When the records of all directories fit into their
planned blocks, no store of one directory lies in the blocks of another.
-/

namespace RustKernel.Iso

open RustKernel.Foundations
open DirectoryEntry

/-! ## Notes and directories -/

/-- What holds of every store under the place of a directory, and of those of
its continuation area, holds of all stores of a run. -/
def LogsExtents (clock : Clock) (tree : DirectoryEntry) : Prop :=
  ∀ (P : Store Origin → Prop) place above output final result,
    (∀ below parent entry,
      locate above tree below = some (parent, entry) →
        ∀ store, store.origin = .extent (place ++ below) → P store) →
    (∀ directory ∈ tree.directories, ∀ output final result,
      (writeContinuationArea directory).run output = .ok result final →
        Logs P output final) →
    (writeExtent clock place above tree).run output = .ok result final →
      Logs P output final

theorem logsExtents_childs {clock : Clock} {P : Store Origin → Prop}
    {place : List Nat} {parent : DirectoryEntry} {index : Nat}
    {childs : List DirectoryEntry} {output final : Output Origin}
    {result : Unit}
    (each : ∀ child ∈ childs, LogsExtents clock child)
    (own : ∀ store, store.origin = .extent place → P store)
    (below :
      ∀ offset child, childs[offset]? = some child →
        ∀ deeper above entry,
          locate (some parent) child deeper = some (above, entry) →
            ∀ store,
              store.origin = .extent (place ++ (index + offset) :: deeper) →
                P store)
    (areas :
      ∀ child ∈ childs, ∀ directory ∈ child.directories,
        ∀ output final result,
          (writeContinuationArea directory).run output = .ok result final →
            Logs P output final)
    (returned :
      (writeExtentChilds clock place parent index childs).run output =
        .ok result final) :
    Logs P output final := by
  induction childs generalizing index output with
  | nil =>
      cases returned
      exact RunRelation.refl _
  | cons child childs inductionHypothesis =>
      rw [writeExtentChilds, bind_run_ok] at returned
      obtain ⟨_, first, recorded, returned⟩ := returned
      rw [bind_run_ok] at returned
      obtain ⟨_, second, nested, looped⟩ := returned
      have used : (RecordSource.directory 0 child).Used := by
        intro four
        cases four
      have record := (lays_of_run used recorded).2.mono own
      have extents : Logs P first second := by
        apply each child (by simp) P _ _ _ _ _ _ (areas child (by simp)) nested
        intro deeper above entry located store noted
        apply below 0 child rfl deeper above entry located
        rwa [List.append_assoc] at noted
      refine RunRelation.trans record (RunRelation.trans extents ?_)
      apply inductionHypothesis
        (fun other member => each other (by simp [member])) _
        (fun other member => areas other (by simp [member])) looped
      intro offset other found deeper above entry located store noted
      apply below (offset + 1) other found deeper above entry located
      rwa [Nat.add_right_comm] at noted

theorem logsExtents (clock : Clock) (tree : DirectoryEntry) :
    LogsExtents clock tree := by
  induction tree using DirectoryEntry.induction with
  | step tree inductionHypothesis =>
      intro P place above output final result noted areas returned
      obtain
        ⟨first, second, third, fourth, ended, _, current, parent, looped,
          files, area, rfl⟩ :=
          writeExtent_run_ok returned
      have own : ∀ store, store.origin = .extent place → P store := by
        intro store same
        apply noted [] above tree rfl
        rwa [List.append_nil]
      have usedCurrent :
          (RecordSource.directory
            (if above.isNone then 3 else 1) tree).Used := by
        change (if above.isNone then 3 else 1) ≠ 4
        split <;> omega
      have usedParent :
          (RecordSource.directory 2
            (above.getD (emptyParent tree.lba))).Used := by
        intro four
        cases four
      have firstLogs := (lays_of_run usedCurrent current).2.mono own
      have secondLogs := (lays_of_run usedParent parent).2.mono own
      have thirdLogs : Logs P second third := by
        apply logsExtents_childs inductionHypothesis own _ _ looped
        · intro offset child found deeper parent entry located
          rw [Nat.zero_add]
          exact noted (offset :: deeper) parent entry
            (locate_cons.mpr ⟨child, found, located⟩)
        · intro child member directory listed
          apply areas
          rw [directories_eq]
          exact List.mem_cons_of_mem _
            (List.mem_flatMap.mpr ⟨child, member, listed⟩)
      have fourthLogs := (lays_files files).2.mono own
      have padded :
          Logs P fourth
            (fourth.written (.extent place)
              (List.replicate (room fourth.position) 0)
              (room fourth.position)) :=
        logs_written (own _ rfl)
      have areaLogs :=
        areas tree (by rw [directories_eq]; simp) _ _ _ area
      have whole : Logs P (output.seeked (tree.lba * logicSize)) ended :=
        RunRelation.trans firstLogs
          (RunRelation.trans secondLogs
            (RunRelation.trans thirdLogs
              (RunRelation.trans fourthLogs
                (RunRelation.trans padded areaLogs))))
      exact whole

/-! ## The end of the file -/

theorem reaches_writeRecord (clock : Clock) (origin : Origin)
    (size : Except Fault Nat)
    (record : DateTime → Except Fault (List UInt8)) :
    Preserves Reaches (writeRecord clock origin size record) := by
  apply Preserves.bind reaches_streamPosition
  intro currentPos
  apply Preserves.ofExcept_bind
  intro aligned _
  apply Preserves.ofExcept_bind
  intro fileEntrySize _
  apply Preserves.bind (reaches_writeZeros origin _)
  intro _
  apply Preserves.bind reaches_get
  intro output
  apply Preserves.ofExcept_bind
  intro bytes _
  apply Preserves.bind (reaches_writeAll origin bytes)
  intro _
  apply Preserves.bind reaches_streamPosition
  intro newPos
  apply Preserves.ofExcept_bind
  intro expected _
  unfold assertRecordSize
  split
  · exact Preserves.pure ()
  · exact Preserves.throw _

theorem reaches_padToBlock (origin : Origin) :
    Preserves Reaches (padToBlock origin) :=
  Preserves.bind reaches_streamPosition fun _ => reaches_writeZeros origin _

theorem reaches_writeContinuationArea (tree : DirectoryEntry) :
    Preserves Reaches (writeContinuationArea tree) := by
  unfold writeContinuationArea
  cases tree.continuationArea with
  | none => exact Preserves.pure ()
  | some data =>
      apply Preserves.ofExcept_bind
      intro extentSize _
      apply Preserves.ofExcept_bind
      intro block _
      apply Preserves.ofExcept_bind
      intro start _
      apply reaches_writeAt
      exact Preserves.bind (reaches_writeAll _ data) fun _ =>
        reaches_padToBlock _

theorem reaches_writeExtentChilds {clock : Clock} {place : List Nat}
    {parent : DirectoryEntry} {index : Nat} {childs : List DirectoryEntry}
    (each :
      ∀ child ∈ childs, ∀ place above,
        Preserves Reaches (writeExtent clock place above child)) :
    Preserves Reaches (writeExtentChilds clock place parent index childs) := by
  induction childs generalizing index with
  | nil =>
      rw [writeExtentChilds]
      exact Preserves.pure ()
  | cons child childs inductionHypothesis =>
      rw [writeExtentChilds]
      rw [List.forall_mem_cons] at each
      apply Preserves.bind (reaches_writeRecord clock _ _ _)
      intro _
      apply Preserves.bind (each.1 _ _)
      intro _
      exact inductionHypothesis each.2

theorem reaches_writeExtent (clock : Clock) (tree : DirectoryEntry) :
    ∀ place above, Preserves Reaches (writeExtent clock place above tree) := by
  induction tree using DirectoryEntry.induction with
  | step tree inductionHypothesis =>
      intro place above
      cases tree with
      | mk index parent path dirChilds filesChilds area lba =>
          rw [writeExtent]
          apply Preserves.ofExcept_bind
          intro start _
          apply reaches_writeAt
          apply Preserves.bind (reaches_writeRecord clock _ _ _)
          intro _
          apply Preserves.bind (reaches_writeRecord clock _ _ _)
          intro _
          apply Preserves.bind (reaches_writeExtentChilds inductionHypothesis)
          intro _
          apply Preserves.bind
          · exact Preserves.forM fun file _ => reaches_writeRecord clock _ _ _
          · intro _
            exact Preserves.bind (reaches_padToBlock _) fun _ =>
              reaches_writeContinuationArea _

end RustKernel.Iso
