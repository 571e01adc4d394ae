import RustKernel.Iso.Extents
import RustKernel.Iso.ImageContents

/-!
# The boot chain

A firmware reads the block of the catalog from the boot descriptor in sector
17, and the block of the boot file from the catalog.  The descriptor lies in
its sector because all that is written in front of it has a fixed length, and
nothing is written into it later.
-/

namespace RustKernel.Iso

open RustKernel.Foundations
open RustKernel.Machine
open DirectoryEntry

/-! ## The system area -/

theorem writeAt_position {α : Type} {position : Nat} {body : Writer α}
    {output final : Output Origin} {result : α}
    (returned : (Output.writeAt position body).run output = .ok result final) :
    final.position = output.position := by
  obtain ⟨ended, _, rfl⟩ := Output.writeAt_run_ok.mp returned
  rfl

theorem copyEmbeddedBoot_position {boot : Option (Option (List UInt8))}
    {output final : Output Origin} {result : Unit}
    (returned : (copyEmbeddedBoot boot).run output = .ok result final) :
    output.position ≤ final.position ∧
      final.position ≤ output.position + logicSize * 0x10 := by
  cases boot with
  | none =>
      cases returned
      omega
  | some path =>
      cases path with
      | none => cases returned
      | some contents =>
          rw [copyEmbeddedBoot] at returned
          by_cases big : logicSize * 0x10 < contents.length
          · rw [if_pos big] at returned
            cases returned
          · rw [if_neg big] at returned
            cases returned
            rw [Output.written_position]
            omega

theorem patchGrub2Mbr_position {tree : DirectoryEntry} {oldPos : Nat}
    {needed : Bool} {boot : Option Name} {output final : Output Origin}
    {result : Unit}
    (returned :
      (patchGrub2Mbr tree oldPos needed boot).run output =
        .ok result final) :
    final.position = output.position := by
  cases needed with
  | false =>
      cases returned
      rfl
  | true =>
      cases boot with
      | none =>
          cases returned
          rfl
      | some boot => exact writeAt_position returned

theorem writeSystemArea_position {opt : Opt} {tree : DirectoryEntry}
    {lbCount : Nat} {output final : Output Origin} {result : Unit}
    (returned :
      (writeSystemArea opt tree lbCount).run output = .ok result final) :
    final.position = output.position + logicSize * 0x10 := by
  rw [writeSystemArea, bind_run_of_ok _ (Output.streamPosition_run output),
    bind_run_ok] at returned
  obtain ⟨_, copied, copying, returned⟩ := returned
  rw [bind_run_of_ok _ (Output.streamPosition_run copied), bind_run_ok]
    at returned
  obtain ⟨_, patched, patching, returned⟩ := returned
  rw [bind_run_of_ok _ (Output.writeZeros_run .systemArea _ patched)]
    at returned
  have bounds := copyEmbeddedBoot_position copying
  have same := patchGrub2Mbr_position patching
  have padded :=
    Output.written_position .systemArea
      (List.replicate
        (logicSize * 0x10 - (copied.position - output.position)) 0)
      (logicSize * 0x10 - (copied.position - output.position)) patched
  generalize
    patched.written .systemArea
        (List.replicate
          (logicSize * 0x10 - (copied.position - output.position)) 0)
        (logicSize * 0x10 - (copied.position - output.position)) = middle
    at returned padded
  have last : final.position = middle.position := by
    by_cases label : opt.protectiveMsdosLabel = true
    · rw [if_pos label] at returned
      exact writeAt_position returned
    · rw [if_neg label] at returned
      cases returned
      rfl
  omega

/-! ## The descriptors in front of the boot file -/

theorem header_length (descriptor : VolumeDescriptor) :
    descriptor.header.length = 7 := by
  cases descriptor <;> with_unfolding_all decide

theorem primaryFront_length {rootDir : DirectoryEntry}
    {startLba sizeInLb : Nat} {front : List UInt8}
    (built : primaryFront rootDir startLba sizeInLb = .ok front) :
    front.length = 149 := by
  rw [primaryFront, except_bind_eq_ok] at built
  obtain ⟨pathTableSize, _, built⟩ := built
  rw [except_bind_eq_ok] at built
  obtain ⟨pathTableLbaBe, _, closed⟩ := built
  cases closed
  have system : (utf8 "LINUX                           ").length = 32 := by
    with_unfolding_all decide
  have volume : (utf8 "CDROM                           ").length = 32 := by
    with_unfolding_all decide
  simp [system, volume]

theorem decimal_length (width value : Nat) :
    (decimal width value).length = width := by
  simp [decimal]

theorem primaryBack_length (now : DateTime) :
    (primaryBack now).length = 1858 := by
  have hundredths : (utf8 "00").length = 2 := by with_unfolding_all decide
  simp only [primaryBack, creationTime, List.length_append,
    List.length_replicate, decimal_length, hundredths, List.length_cons,
    List.length_nil]

/-- The record of the root fits into what is left of its sector. -/
theorem writeRootRecord_position {clock : Clock} {rootDir : DirectoryEntry}
    {output final : Output Origin} {result : Unit}
    (inside : output.position % logicSize = 156)
    (returned :
      (writeDirectoryEntry clock .volumeDescriptor 5 rootDir).run output =
        .ok result final) :
    final.position = output.position + 34 := by
  have run :
      (writeSource clock .volumeDescriptor (.directory 5 rootDir)).run
        output = .ok result final := returned
  have used : (RecordSource.directory 5 rootDir).Used := by
    change (5 : Nat) ≠ 4
    omega
  obtain ⟨bytes, built, emitted, _⟩ := writeSource_run_ok used run
  have sized := built.1
  rw [RecordSource.size, DirectoryEntry.getEntrySize, except_bind_eq_ok]
    at sized
  obtain ⟨fileName, _, sized⟩ := sized
  obtain ⟨_, fixed, _, length⟩ := getEntrySize_eq_ok.mp sized
  have length : bytes.length = 34 := length
  have laidOut := layOut_length logicSize output.position [bytes]
  rw [List.map_singleton, length] at laidOut
  have rest : restOf logicSize output.position = logicSize - 156 := by
    rw [restOf, inside]
    rfl
  have unpadded : gap logicSize output.position 34 = 0 := by
    rw [gap, rest]
    rfl
  have ended :
      endOf logicSize output.position [34] =
        output.position + gap logicSize output.position 34 + 34 := rfl
  rw [emitted.position, laidOut, ended, unpadded, Nat.add_zero]

theorem writeVolume_primary_position {clock : Clock}
    {rootDir : DirectoryEntry} {startLba sizeInLb : Nat}
    {output final : Output Origin} {result : Unit}
    (aligned : output.position % logicSize = 0)
    (returned :
      (writeVolume clock rootDir startLba sizeInLb .primary).run output =
        .ok result final) :
    final.position = output.position + logicSize := by
  rw [writeVolume, bind_run_of_ok _ (Output.writeAll_run _ _ output),
    writeVolumeFields, bind_run_ok] at returned
  obtain ⟨front, _, built, returned⟩ := returned
  rw [ofExcept_run_ok] at built
  obtain ⟨built, rfl⟩ := built
  rw [bind_run_of_ok _ (Output.writeAll_run _ _ _), bind_run_ok] at returned
  obtain ⟨_, recorded, recording, returned⟩ := returned
  cases returned
  have begun :=
    Output.written_position .volumeDescriptor VolumeDescriptor.primary.header
      VolumeDescriptor.primary.header.length output
  rw [header_length] at begun recording
  generalize
    output.written .volumeDescriptor VolumeDescriptor.primary.header 7 =
    headed at begun recording
  have fields :=
    Output.written_position .volumeDescriptor front front.length headed
  rw [primaryFront_length built] at fields recording
  have inside :
      (headed.written .volumeDescriptor front 149).position % logicSize =
        156 := by
    rw [fields, begun]
    simp only [logicSize] at aligned ⊢
    omega
  have behind := writeRootRecord_position inside recording
  rw [Output.written_position, primaryBack_length, behind]
  simp only [logicSize]
  omega

theorem torito_length : (utf8 "EL TORITO SPECIFICATION").length = 23 := by
  with_unfolding_all decide

theorem bootFields_length (lba : Nat) : (bootFields lba).length = 2041 := by
  simp only [bootFields, List.length_append, List.length_replicate,
    leBytes_length, torito_length]

theorem writeVolume_boot_run_ok {clock : Clock} {rootDir : DirectoryEntry}
    {startLba sizeInLb : Nat} {output final : Output Origin} {result : Unit}
    (returned :
      (writeVolume clock rootDir startLba sizeInLb .boot).run output =
        .ok result final) :
    ∃ lba,
      catalogLba rootDir = .ok lba ∧
        final.position = output.position + logicSize ∧
        Holds (output.position + 7) (bootFields lba) final := by
  rw [writeVolume, bind_run_of_ok _ (Output.writeAll_run _ _ output),
    writeVolumeFields, bind_run_ok] at returned
  obtain ⟨lba, _, found, returned⟩ := returned
  rw [ofExcept_run_ok] at found
  obtain ⟨found, rfl⟩ := found
  cases returned
  have headed :=
    Output.written_position .volumeDescriptor VolumeDescriptor.boot.header
      VolumeDescriptor.boot.header.length output
  rw [header_length] at headed ⊢
  refine ⟨lba, found, ?_, ?_⟩
  · rw [Output.written_position, headed, bootFields_length, logicSize]
  · rw [← headed]
    exact holds_written _ (bootFields lba) _

/-! ## What is written behind the boot descriptor -/

section Behind

variable {low : Nat}

theorem staysBehind_padToBlock (origin : Origin) :
    Preserves (StaysBehind low) (padToBlock origin) :=
  Preserves.bind staysBehind_streamPosition fun _ =>
    staysBehind_writeZeros origin _

theorem staysBehind_ending (clock : Clock) (rootDir : DirectoryEntry)
    (startLba sizeInLb : Nat) :
    Preserves (StaysBehind low)
      (writeVolume clock rootDir startLba sizeInLb .ending) :=
  Preserves.bind (staysBehind_writeAll _ _) fun _ =>
    staysBehind_writeZeros _ _

theorem staysBehind_writeMki : Preserves (StaysBehind low) writeMki :=
  Preserves.bind (staysBehind_writeAll _ _) fun _ =>
    staysBehind_writeZeros _ _

section PathTable

variable {R : Output Origin → Output Origin → Prop} [RunRelation R]
  {order : ByteOrder}

theorem preserves_writePathTableEntry
    (writes :
      ∀ bytes,
        Preserves R
          (Output.writeAll (Origin.pathTable order) bytes : Writer Unit))
    (directoryType : Nat) (entry : DirectoryEntry) :
    Preserves R (writePathTableEntry order directoryType entry) :=
  Preserves.ofExcept_bind fun record _ => writes record

theorem preserves_writePathTableBelow {entries : List DirectoryEntry}
    (each :
      ∀ entry ∈ entries, Preserves R (writePathTableChilds order entry)) :
    Preserves R (writePathTableBelow order entries) := by
  induction entries with
  | nil => exact Preserves.pure ()
  | cons entry entries inductionHypothesis =>
      rw [writePathTableBelow]
      apply Preserves.bind (each entry (by simp))
      intro _
      exact inductionHypothesis fun later member => each later (by simp [member])

/-- What all writes keep, the records of the directories below an entry
keep. -/
theorem preserves_writePathTableChilds
    (writes :
      ∀ bytes,
        Preserves R
          (Output.writeAll (Origin.pathTable order) bytes : Writer Unit))
    (tree : DirectoryEntry) :
    Preserves R (writePathTableChilds order tree) := by
  induction tree using DirectoryEntry.induction with
  | step tree inductionHypothesis =>
      cases tree with
      | mk index parent path dirChilds filesChilds area lba =>
          rw [writePathTableChilds]
          apply Preserves.bind
          · exact Preserves.forM fun entry _ =>
              preserves_writePathTableEntry writes 0 entry
          · intro _
            exact preserves_writePathTableBelow inductionHypothesis

end PathTable

theorem staysBehind_assertPathTableSize (writtenSize pathTableSize : Nat) :
    Preserves (StaysBehind low)
      (assertPathTableSize writtenSize pathTableSize) := by
  unfold assertPathTableSize
  split
  · exact Preserves.pure ()
  · exact Preserves.throw _

theorem staysBehind_writePathTable (order : ByteOrder)
    (tree : DirectoryEntry) {pathTablePos : Nat}
    (behind : low ≤ pathTablePos * logicSize) :
    Preserves (StaysBehind low) (writePathTable order tree pathTablePos) := by
  apply Preserves.ofExcept_bind
  intro start multiplied
  rw [mulU32_eq_ok] at multiplied
  obtain ⟨_, rfl⟩ := multiplied
  apply staysBehind_writeAt behind
  apply Preserves.bind
    (preserves_writePathTableEntry (staysBehind_writeAll _) 1 tree)
  intro _
  apply Preserves.bind
    (preserves_writePathTableChilds (staysBehind_writeAll _) tree)
  intro _
  apply Preserves.bind staysBehind_streamPosition
  intro currentPos
  apply Preserves.ofExcept_bind
  intro pathTableSize _
  apply Preserves.bind (staysBehind_assertPathTableSize _ pathTableSize)
  intro _
  exact staysBehind_padToBlock _

theorem staysBehind_writePathTables (tree : DirectoryEntry) {startLba : Nat}
    (behind : low ≤ startLba * logicSize) :
    Preserves (StaysBehind low) (writePathTables tree startLba) := by
  apply Preserves.bind (staysBehind_writePathTable .littleEndian tree behind)
  intro _
  apply Preserves.ofExcept_bind
  intro second summed
  rw [addU32_eq_ok] at summed
  obtain ⟨_, rfl⟩ := summed
  exact staysBehind_writePathTable .bigEndian tree
    (Nat.le_trans behind (Nat.mul_le_mul_right _ (Nat.le_add_right _ _)))

theorem staysBehind_assertRecordSize (expected newPos : Int) :
    Preserves (StaysBehind low) (assertRecordSize expected newPos) := by
  unfold assertRecordSize
  split
  · exact Preserves.pure ()
  · exact Preserves.throw _

theorem staysBehind_writeRecord (clock : Clock) (origin : Origin)
    (size : Except Fault Nat)
    (record : DateTime → Except Fault (List UInt8)) :
    Preserves (StaysBehind low) (writeRecord clock origin size record) := by
  apply Preserves.bind staysBehind_streamPosition
  intro currentPos
  apply Preserves.ofExcept_bind
  intro aligned _
  apply Preserves.ofExcept_bind
  intro fileEntrySize _
  apply Preserves.bind (staysBehind_writeZeros origin _)
  intro _
  apply Preserves.bind staysBehind_get
  intro output
  apply Preserves.ofExcept_bind
  intro bytes _
  apply Preserves.bind (staysBehind_writeAll origin bytes)
  intro _
  apply Preserves.bind staysBehind_streamPosition
  intro newPos
  apply Preserves.ofExcept_bind
  intro expected _
  exact staysBehind_assertRecordSize expected _

theorem staysBehind_writeContinuationArea {tree : DirectoryEntry}
    (behind : low ≤ tree.lba * logicSize) :
    Preserves (StaysBehind low) (writeContinuationArea tree) := by
  unfold writeContinuationArea
  cases tree.continuationArea with
  | none => exact Preserves.pure ()
  | some data =>
      apply Preserves.ofExcept_bind
      intro extentSize _
      apply Preserves.ofExcept_bind
      intro block summed
      rw [addU32_eq_ok] at summed
      obtain ⟨_, rfl⟩ := summed
      apply Preserves.ofExcept_bind
      intro start multiplied
      rw [mulU32_eq_ok] at multiplied
      obtain ⟨_, rfl⟩ := multiplied
      apply staysBehind_writeAt
      · exact Nat.le_trans behind
          (Nat.mul_le_mul_right _ (Nat.le_add_right _ _))
      · exact Preserves.bind (staysBehind_writeAll _ data) fun _ =>
          staysBehind_padToBlock _

/-- All directories of the tree start behind the bound. -/
def DirectoriesBehind (low : Nat) (tree : DirectoryEntry) : Prop :=
  ∀ directory ∈ tree.directories, low ≤ directory.lba * logicSize

/-- So does every run of `write_extent`. -/
def ExtentsBehind (low : Nat) (clock : Clock) (tree : DirectoryEntry) : Prop :=
  ∀ place parentOption, DirectoriesBehind low tree →
    Preserves (StaysBehind low) (writeExtent clock place parentOption tree)

theorem staysBehind_writeExtentChilds {clock : Clock} {place : List Nat}
    {parent : DirectoryEntry} {index : Nat} {childs : List DirectoryEntry}
    (each : ∀ child ∈ childs, ExtentsBehind low clock child)
    (behind : ∀ child ∈ childs, DirectoriesBehind low child) :
    Preserves (StaysBehind low)
      (writeExtentChilds clock place parent index childs) := by
  induction childs generalizing index with
  | nil =>
      rw [writeExtentChilds]
      exact Preserves.pure ()
  | cons child childs inductionHypothesis =>
      rw [writeExtentChilds]
      rw [List.forall_mem_cons] at each behind
      apply Preserves.bind (staysBehind_writeRecord clock _ _ _)
      intro _
      apply Preserves.bind (each.1 _ _ behind.1)
      intro _
      exact inductionHypothesis each.2 behind.2

theorem extentsBehind (clock : Clock) (tree : DirectoryEntry) :
    ExtentsBehind low clock tree := by
  induction tree using DirectoryEntry.induction with
  | step tree inductionHypothesis =>
      intro place parentOption behind
      have own : low ≤ tree.lba * logicSize := by
        apply behind
        rw [directories_eq]
        exact List.mem_cons_self
      have below : ∀ child ∈ tree.dirChilds, DirectoriesBehind low child := by
        intro child member directory listed
        apply behind
        rw [directories_eq]
        exact List.mem_cons_of_mem _
          (List.mem_flatMap.mpr ⟨child, member, listed⟩)
      cases tree with
      | mk index parent path dirChilds filesChilds area lba =>
          rw [writeExtent]
          apply Preserves.ofExcept_bind
          intro start multiplied
          rw [mulU32_eq_ok] at multiplied
          obtain ⟨_, rfl⟩ := multiplied
          apply staysBehind_writeAt own
          apply Preserves.bind (staysBehind_writeRecord clock _ _ _)
          intro _
          apply Preserves.bind (staysBehind_writeRecord clock _ _ _)
          intro _
          apply Preserves.bind
            (staysBehind_writeExtentChilds inductionHypothesis below)
          intro _
          apply Preserves.bind
          · exact Preserves.forM fun file _ =>
              staysBehind_writeRecord clock _ _ _
          · intro _
            exact Preserves.bind (staysBehind_padToBlock _) fun _ =>
              staysBehind_writeContinuationArea own

end Behind

/-- `write_extent` seeks before it writes. -/
theorem writeExtent_behind {low : Nat} {clock : Clock} {place : List Nat}
    {parentOption : Option DirectoryEntry} {tree : DirectoryEntry}
    {output final : Output Origin} {result : Unit}
    (directories : DirectoriesBehind low tree)
    (returned :
      (writeExtent clock place parentOption tree).run output =
        .ok result final) :
    WritesIn (fun target => low ≤ target) output final := by
  have moved :
      (writeExtent clock place parentOption tree).run (output.seeked low) =
        .ok result (final.seeked low) := by
    cases tree with
    | mk index parent path dirChilds filesChilds area lba =>
        rw [writeExtent, bind_run_ok] at returned ⊢
        obtain ⟨start, _, computed, written⟩ := returned
        obtain ⟨started, rfl⟩ := ofExcept_run_ok.mp computed
        rw [Output.writeAt_run_ok] at written
        obtain ⟨ended, performed, rfl⟩ := written
        exact ⟨start, output.seeked low, ofExcept_run_ok.mpr ⟨started, rfl⟩,
          Output.writeAt_run_ok.mpr ⟨ended, performed, rfl⟩⟩
  have stays :=
    ((extentsBehind clock tree place parentOption directories).of_run_ok moved
      (Nat.le_refl low)).2
  have whole := (RunRelation.trans (writesIn_seeked low output) stays)
  exact whole.seeked final.position

theorem writeContent_behind {low : Nat} {file : FileEntry}
    {output final : Output Origin} {result : Unit}
    (behind : low ≤ file.lba * logicSize)
    (returned : (writeContent file).run output = .ok result final) :
    WritesIn (fun target => low ≤ target) output final := by
  rw [writeContent, bind_run_ok] at returned
  obtain ⟨start, _, computed, written⟩ := returned
  obtain ⟨started, rfl⟩ := ofExcept_run_ok.mp computed
  obtain ⟨_, rfl⟩ := mulU32_eq_ok.mp started
  exact writesIn_writeAt behind
    (Preserves.bind (staysBehind_writeAll _ _) fun _ =>
      staysBehind_padToBlock _)
    written

theorem writeFiles_behind {low : Nat} {tree : DirectoryEntry}
    {output final : Output Origin} {result : Unit}
    (behind : ∀ file ∈ tree.files, low ≤ file.lba * logicSize)
    (returned : (writeFiles tree).run output = .ok result final) :
    WritesIn (fun target => low ≤ target) output final := by
  rw [writeFiles_run] at returned
  generalize written : tree.writtenFiles = files at returned
  have each : ∀ file ∈ files, low ≤ file.lba * logicSize := by
    intro file member
    rw [← written, tree.writtenFiles_perm.mem_iff] at member
    exact behind file member
  clear written
  induction files generalizing output with
  | nil =>
      rw [forM_nil_run_ok] at returned
      subst returned
      exact RunRelation.refl output
  | cons file files inductionHypothesis =>
      rw [forM_cons_run_ok] at returned
      obtain ⟨middle, first, rest⟩ := returned
      rw [List.forall_mem_cons] at each
      exact RunRelation.trans (writeContent_behind each.1 first)
        (inductionHypothesis rest each.2)

/-! ## The descriptor in the image -/

theorem generateVolumeDescriptors_bootable {opt : Opt} {value : Name}
    (bootable : opt.eltoritoBoot = some value) :
    generateVolumeDescriptors opt = [.primary, .boot, .ending] := by
  rw [generateVolumeDescriptors, bootable]
  rfl

theorem pathTableStartLba_bootable {opt : Opt} {value : Name}
    (bootable : opt.eltoritoBoot = some value) :
    pathTableStartLba opt = 20 := by
  rw [pathTableStartLba, generateVolumeDescriptors_bootable bootable]
  rfl

/-- The boot descriptor lies in sector 17 and stays as it was written. -/
theorem Stages.bootDescriptor {clock : Clock} {opt : Opt} {value : Name}
    {tree : DirectoryEntry} {lbCount : Nat}
    {output area described marked tabled extended filed final :
      Output Origin}
    (stages :
      Stages clock opt tree lbCount output area described marked tabled
        extended filed final)
    (start : output.position = 0)
    (bootable : opt.eltoritoBoot = some value)
    (directories : DirectoriesBehind (18 * logicSize) tree)
    (files : ∀ file ∈ tree.files, 18 * logicSize ≤ file.lba * logicSize) :
    ∃ lba,
      catalogLba tree = .ok lba ∧
        Holds (17 * logicSize + 7) (bootFields lba) final := by
  have areaEnd := writeSystemArea_position stages.systemArea
  have descriptors := stages.descriptors
  rw [generateVolumeDescriptors_bootable bootable, forM_cons_run_ok]
    at descriptors
  obtain ⟨first, primary, descriptors⟩ := descriptors
  rw [forM_cons_run_ok] at descriptors
  obtain ⟨second, boot, descriptors⟩ := descriptors
  rw [forM_cons_run_ok] at descriptors
  obtain ⟨third, ending, descriptors⟩ := descriptors
  rw [forM_nil_run_ok] at descriptors
  subst descriptors
  have primaryEnd :=
    writeVolume_primary_position (by rw [areaEnd, start]; rfl) primary
  obtain ⟨lba, found, bootEnd, holds⟩ := writeVolume_boot_run_ok boot
  rw [primaryEnd, areaEnd, start] at bootEnd holds
  refine ⟨lba, found, ?_⟩
  have behind : 18 * logicSize ≤ second.position := by
    rw [bootEnd]
    exact Nat.le_refl _
  have tables : 18 * logicSize ≤ pathTableStartLba opt * logicSize := by
    rw [pathTableStartLba_bootable bootable]
    exact Nat.mul_le_mul_right _ (by omega)
  have stays : StaysBehind (18 * logicSize) second extended :=
    RunRelation.trans
      ((staysBehind_ending clock tree _ lbCount).of_run_ok ending)
      (RunRelation.trans (staysBehind_writeMki.of_run_ok stages.mki)
        (RunRelation.trans
          ((staysBehind_writePathTables tree tables).of_run_ok
            stages.pathTables)
          ((extentsBehind clock tree [] none directories).of_run_ok
            stages.extents)))
  have written :
      WritesIn (fun target => 18 * logicSize ≤ target) second filed :=
    RunRelation.trans (stays behind).2
      (writeFiles_behind files stages.files)
  have kept : Holds (17 * logicSize + 7) (bootFields lba) filed := by
    refine written.holds ?_ holds
    intro target _ below
    rw [bootFields_length] at below
    simp only [logicSize] at below ⊢
    omega
  exact (writeTrailer_run_ok stages.trailer).holds_behind kept

/-! ## The catalog and the boot file in the plan -/

/-- A file that a path other than the catalog's leads to is not the one that
is filled in. -/
theorem FirstNamed.mem_replaced {tree : DirectoryEntry}
    {front back : List FileEntry} {catalog boot : FileEntry} {value : Name}
    (first : FirstNamed bootCatalog tree.filesChilds front catalog back)
    (different : value ≠ bootCatalog)
    (looked : tree.getFile value = .ok (some boot)) (filled : FileEntry) :
    boot ∈ { tree with filesChilds := front ++ filled :: back }.files := by
  rw [files_eq, List.mem_append]
  rw [DirectoryEntry.getFile] at looked
  cases components : value.splitOn 0x2F with
  | nil =>
      rw [components] at looked
      cases looked
  | cons name rest =>
      rw [components] at looked
      cases rest with
      | nil =>
          have whole : [0x2F].intercalate (value.splitOn 0x2F) = value :=
            List.intercalate_splitOn 0x2F
          rw [components, List.intercalate_singleton] at whole
          subst whole
          obtain ⟨_, _, own⟩ := findFile_eq_some looked
          have member : boot ∈ front ++ catalog :: back := by
            rw [← first.split, own.split]
            simp
          have apart : boot ≠ catalog := by
            intro same
            have named := own.named
            rw [same, first.named] at named
            cases named
            exact different rfl
          simp only [List.mem_append, List.mem_cons] at member ⊢
          simp only [apart, false_or] at member
          exact Or.inl (member.imp id Or.inr)
      | cons next rest =>
          rw [getFileAlong_below] at looked
          obtain ⟨child, directory, looked⟩ := looked
          exact Or.inr
            (List.mem_flatMap.mpr
              ⟨child, findDirectory_mem directory, getFileAlong_mem looked⟩)

/-- Both pointers lead to files of the planned tree. -/
theorem fillBootCatalog_chain {opt : Opt} {value : Name}
    {reserved planned : DirectoryEntry} {boot : FileEntry}
    (different : value ≠ bootCatalog)
    (looked : reserved.getFile value = .ok (some boot))
    (returned : fillBootCatalog opt value reserved = .ok planned) :
    boot ∈ planned.files ∧
      ∃ catalog ∈ planned.files,
        catalogLba planned = .ok catalog.lba ∧
          catalog.contents = catalogBytes opt boot.lba := by
  obtain ⟨found, catalog, front, back, foundLooked, first, rfl⟩ :=
    fillBootCatalog_eq_ok returned
  rw [looked] at foundLooked
  cases foundLooked
  refine ⟨first.mem_replaced different looked _,
    filledCatalog opt boot.lba catalog, ?_, ?_, rfl⟩
  · rw [files_eq]
    simp
  · have filled :
        FirstNamed bootCatalog
          (front ++ filledCatalog opt boot.lba catalog :: back) front
          (filledCatalog opt boot.lba catalog) back :=
      ⟨rfl, rfl, first.earlier⟩
    rw [catalogLba, DirectoryEntry.getFile, bootCatalog_components,
      getFileAlong, filled.findFile]
    rfl

theorem lba_of_extents {entries : List DirectoryEntry} {ranges : List Range}
    {low high : Nat} (listed : extents entries = .ok ranges)
    (ascending : Ascending low high ranges) :
    ∀ directory ∈ entries, low ≤ directory.lba := by
  intro directory member
  have extent := List.mem_map_of_mem (f := DirectoryEntry.extent) member
  rw [map_eq_of_mapM_eq_ok listed, List.mem_map] at extent
  obtain ⟨range, rangeMember, own⟩ := extent
  rw [DirectoryEntry.extent, eq_comm, except_bind_eq_ok] at own
  obtain ⟨count, _, closed⟩ := own
  cases closed
  exact (ascending.bounds _ rangeMember).1

/-- All that the layout places starts behind the path tables. -/
theorem Layout.behind {start finalLba extentSize lastLba : Nat}
    {ranges : List Range} {tree : DirectoryEntry}
    (layout : Layout start finalLba extentSize lastLba ranges tree) :
    (∀ directory ∈ tree.directories, start ≤ directory.lba) ∧
      ∀ file ∈ tree.files, start ≤ file.lba := by
  have below := layout.directories.le
  constructor
  · intro directory member
    rw [directories_eq, List.mem_cons] at member
    rcases member with same | member
    · subst same
      rw [layout.lba]
    · have above := lba_of_extents layout.below layout.directories _ member
      omega
  · intro file member
    have bounds :=
      (layout.files.bounds file.blocks (List.mem_map_of_mem member)).1
    have own : file.blocks.start = file.lba := rfl
    omega

/-! ## The chain -/

/-- The four bytes of a block number in a region of the file. -/
theorem Holds.leValue_eq {start lba : Nat} {front back : List UInt8}
    {output : Output Origin} (fits : lba * logicSize < 2 ^ 32)
    (holds : Holds start (front ++ leBytes 4 lba ++ back) output) :
    leValue (bytesAt output.bytes (start + front.length) 4) = lba := by
  have field := holds.of_append.bytesAt_eq
  rw [leBytes_length] at field
  rw [field]
  apply leValue_leBytes_of_lt
  simp only [logicSize] at fits
  omega

theorem createIso_bootChain {clock : Clock} {opt : Opt}
    {inputFiles : List HostEntry} {scanned : DirectoryEntry}
    {value : Name} {boot : FileEntry} {final : Output Origin}
    (infoTable : opt.bootInfoTable = false)
    (grub2 : opt.grub2BootInfo = false)
    (bootable : opt.eltoritoBoot = some value)
    (different : value ≠ bootCatalog)
    (scan : scanInputs opt inputFiles = .ok scanned)
    (looked : scanned.getFile value = .ok (some boot))
    (small : ∀ file ∈ scanned.files, file.size < 2 ^ 32)
    (returned :
      (createIso clock opt inputFiles).run Output.empty = .ok () final) :
    ∃ catalogStart eltoritoStart,
      leValue (bytesAt final.bytes (logicSize * 17 + 0x47) 4) =
          catalogStart ∧
        bytesAt final.bytes (logicSize * catalogStart) 64 =
          catalogBytes opt eltoritoStart ∧
        leValue (bytesAt final.bytes (logicSize * catalogStart + 40) 4) =
          eltoritoStart ∧
        bytesAt final.bytes (logicSize * eltoritoStart)
            boot.contents.length =
          boot.contents := by
  obtain ⟨tree, finalLba, planned, written⟩ := createIso_run_ok returned
  obtain ⟨own, ownScan, layout⟩ := planImage_eq_ok infoTable grub2 planned
  rw [scan] at ownScan
  cases ownScan
  obtain ⟨_, sized, disjoint⟩ := planned_files scan small layout
  obtain ⟨_, _, _, laidOut⟩ := planLayout_layout small layout
  obtain ⟨reserved, same, filling⟩ := planLayout_unplaced layout
  obtain ⟨placed, placedLooked, samePlaced⟩ :=
    getFileAlong_of_unplaced same looked
  rw [fillIfBootable, bootable] at filling
  obtain ⟨placedMember, catalog, catalogMember, found, filled⟩ :=
    fillBootCatalog_chain different placedLooked filling
  obtain ⟨_, _, _, _, _, _, stages⟩ := writeImage_run_ok written
  have stored := stages.stored sized disjoint
  obtain ⟨directories, files⟩ := laidOut.behind
  rw [pathTableStartLba_bootable bootable] at directories files
  obtain ⟨lba, sameFound, descriptor⟩ :=
    stages.bootDescriptor rfl bootable
      (fun directory member =>
        Nat.mul_le_mul_right _
          (Nat.le_trans (by omega) (directories directory member)))
      (fun file member =>
        Nat.mul_le_mul_right _
          (Nat.le_trans (by omega) (files file member)))
  rw [found] at sameFound
  cases sameFound
  obtain ⟨catalogFits, catalogHolds⟩ := stored catalog catalogMember
  obtain ⟨placedFits, placedHolds⟩ := stored placed placedMember
  rw [filled] at catalogHolds
  have contents : placed.contents = boot.contents := by
    have both := congrArg FileEntry.contents samePlaced
    exact both
  refine ⟨catalog.lba, placed.lba, ?_, ?_, ?_, ?_⟩
  · have pointer := Holds.leValue_eq catalogFits descriptor
    rw [List.length_append, torito_length, List.length_replicate] at pointer
    exact pointer
  · have whole := catalogHolds.bytesAt_eq
    rw [catalogBytes_length, Nat.mul_comm] at whole
    exact whole
  · have pointer := Holds.leValue_eq placedFits catalogHolds
    rw [Nat.mul_comm]
    exact pointer
  · have whole := placedHolds.bytesAt_eq
    rw [contents, Nat.mul_comm] at whole
    exact whole

theorem createIso_bootChain_bootInputs :
    ∃ final catalogStart eltoritoStart,
      (createIso someClock bootOpt bootInputs).run Output.empty =
          .ok () final ∧
        leValue (bytesAt final.bytes (logicSize * 17 + 0x47) 4) =
          catalogStart ∧
        bytesAt final.bytes (logicSize * catalogStart) 64 =
          catalogBytes bootOpt eltoritoStart ∧
        leValue (bytesAt final.bytes (logicSize * catalogStart + 40) 4) =
          eltoritoStart ∧
        bytesAt final.bytes (logicSize * eltoritoStart) 2 = [0xEB, 0xFE] := by
  obtain ⟨final, run⟩ := createIso_bootInputs
  obtain ⟨scanned, scan, small, looked⟩ := scanInputs_bootInputs
  have different : utf8 "boot/loader.bin" ≠ bootCatalog := by
    with_unfolding_all decide
  obtain ⟨catalogStart, eltoritoStart, chain⟩ :=
    createIso_bootChain rfl rfl rfl different scan looked small run
  exact ⟨final, catalogStart, eltoritoStart, run, chain⟩

end RustKernel.Iso
