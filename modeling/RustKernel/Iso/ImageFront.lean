import RustKernel.Foundations.TiledFile
import RustKernel.Iso.PathTableRoom

/-!
# The front of the image

What is written in front of the extents stays in its blocks, as long as a path
table takes at most two.  The primary descriptor lies in sector 16, with the
record of the root in it, and nothing is written into it later.
-/

namespace RustKernel.Iso

open RustKernel.Foundations
open DirectoryEntry

/-! ## Forward runs -/

section Forward

variable {high : Nat}

theorem forward_padToBlock (origin : Origin) :
    Preserves (Forward high) (padToBlock origin) :=
  Preserves.bind forward_streamPosition fun _ => forward_writeZeros origin _

theorem forward_writeRecord (clock : Clock) (origin : Origin)
    (size : Except Fault Nat)
    (record : DateTime → Except Fault (List UInt8)) :
    Preserves (Forward high) (writeRecord clock origin size record) := by
  apply Preserves.bind forward_streamPosition
  intro currentPos
  apply Preserves.ofExcept_bind
  intro aligned _
  apply Preserves.ofExcept_bind
  intro fileEntrySize _
  apply Preserves.bind (forward_writeZeros origin _)
  intro _
  apply Preserves.bind forward_get
  intro output
  apply Preserves.ofExcept_bind
  intro bytes _
  apply Preserves.bind (forward_writeAll origin bytes)
  intro _
  apply Preserves.bind forward_streamPosition
  intro newPos
  apply Preserves.ofExcept_bind
  intro expected _
  unfold assertRecordSize
  split
  · exact Preserves.pure ()
  · exact Preserves.throw _

theorem forward_writeVolume (clock : Clock) (rootDir : DirectoryEntry)
    (startLba sizeInLb : Nat) (descriptor : VolumeDescriptor) :
    Preserves (Forward high)
      (writeVolume clock rootDir startLba sizeInLb descriptor) := by
  apply Preserves.bind (forward_writeAll _ _)
  intro _
  cases descriptor with
  | boot =>
      apply Preserves.ofExcept_bind
      intro lba _
      exact forward_writeAll _ _
  | primary =>
      apply Preserves.ofExcept_bind
      intro front _
      apply Preserves.bind (forward_writeAll _ front)
      intro _
      apply Preserves.bind (forward_writeRecord clock _ _ _)
      intro _
      apply Preserves.bind forward_get
      intro output
      exact forward_writeAll _ _
  | supplementary => exact Preserves.throw _
  | volume => exact Preserves.throw _
  | ending => exact forward_writeZeros _ _

theorem forward_writeMki : Preserves (Forward high) writeMki :=
  Preserves.bind (forward_writeAll _ _) fun _ => forward_writeZeros _ _

end Forward

/-! ## The system area -/

theorem patchGrub2Mbr_forward {tree : DirectoryEntry} {needed : Bool}
    {boot : Option Name} {high : Nat} {output final : Output Origin}
    {result : Unit} (room : 0x1B8 ≤ high)
    (returned :
      (patchGrub2Mbr tree 0 needed boot).run output = .ok result final) :
    Forward high output final := by
  cases needed with
  | false =>
      cases returned
      exact RunRelation.refl output
  | true =>
      cases boot with
      | none =>
          cases returned
          exact RunRelation.refl output
      | some boot =>
          obtain ⟨ended, performed, rfl⟩ := Output.writeAt_run_ok.mp returned
          rw [bind_run_ok] at performed
          obtain ⟨field, _, built, written⟩ := performed
          rw [ofExcept_run_ok] at built
          obtain ⟨built, rfl⟩ := built
          cases written
          rw [grub2MbrField, except_bind_eq_ok] at built
          obtain ⟨looked, _, built⟩ := built
          rw [except_bind_eq_ok] at built
          obtain ⟨file, _, built⟩ := built
          rw [except_bind_eq_ok] at built
          obtain ⟨product, _, built⟩ := built
          rw [except_bind_eq_ok] at built
          obtain ⟨sum, _, closed⟩ := built
          cases closed
          apply Forward.of_writeAt (forward_written rfl _)
          rw [Output.written_position, leBytes_length]
          simpa [Output.seeked] using room

theorem writeProtectiveLabel_forward {lbCount high : Nat}
    {output final : Output Origin} {result : Unit} (room : 0x200 ≤ high)
    (returned :
      (writeProtectiveLabel lbCount).run output = .ok result final) :
    Forward high output final := by
  obtain ⟨ended, performed, rfl⟩ := Output.writeAt_run_ok.mp returned
  rw [bind_run_ok] at performed
  obtain ⟨table, _, built, performed⟩ := performed
  rw [ofExcept_run_ok] at built
  obtain ⟨built, rfl⟩ := built
  rw [partitionTable, except_bind_eq_ok] at built
  obtain ⟨size, _, built⟩ := built
  rw [except_bind_eq_ok] at built
  obtain ⟨last, _, closed⟩ := built
  cases closed
  cases performed
  have length :
      ([0x80] ++ lbaToCls 1 64 32 ++ [0x17] ++ lbaToCls last 64 32 ++
        leBytes 4 1 ++ leBytes 4 last ++
        (List.replicate 0x30 0 : List UInt8)).length = 0x40 := by
    simp [lbaToCls]
  generalize
    [0x80] ++ lbaToCls 1 64 32 ++ [0x17] ++ lbaToCls last 64 32 ++
      leBytes 4 1 ++ leBytes 4 last ++
      (List.replicate 0x30 0 : List UInt8) = table at length
  have reached :
      ((output.seeked 0x1BE).written .systemArea table
        table.length).position = 0x1FE := by
    rw [Output.written_position, length]
    rfl
  have signature :
      (((output.seeked 0x1BE).written .systemArea table
        table.length).seeked 0x1FE) =
        (output.seeked 0x1BE).written .systemArea table table.length := by
    rw [← reached]
    rfl
  change Forward high output
    (((((output.seeked 0x1BE).written Origin.systemArea table
      table.length).seeked 0x1FE).written Origin.systemArea [0x55, 0xAA]
        2).seeked output.position)
  rw [signature]
  apply Forward.of_writeAt
  · exact RunRelation.trans (forward_written rfl _) (forward_written rfl _)
  · rw [Output.written_position, reached]
    exact room

theorem writeSystemArea_forward {opt : Opt} {tree : DirectoryEntry}
    {lbCount high : Nat} {output final : Output Origin} {result : Unit}
    (start : output.position = 0) (room : 0x200 ≤ high)
    (returned :
      (writeSystemArea opt tree lbCount).run output = .ok result final) :
    Forward high output final := by
  rw [writeSystemArea, bind_run_of_ok _ (Output.streamPosition_run output),
    bind_run_ok] at returned
  obtain ⟨_, copied, copying, returned⟩ := returned
  rw [bind_run_of_ok _ (Output.streamPosition_run copied), bind_run_ok]
    at returned
  obtain ⟨_, patched, patching, returned⟩ := returned
  rw [start] at patching
  have copyForward : Forward high output copied := by
    cases boot : (chosenBoot opt).1 with
    | none =>
        rw [boot] at copying
        cases copying
        exact RunRelation.refl output
    | some path =>
        rw [boot] at copying
        cases path with
        | none => cases copying
        | some contents =>
            rw [copyEmbeddedBoot] at copying
            split at copying
            · cases copying
            · cases copying
              exact forward_written rfl output
  have patchForward : Forward high copied patched :=
    patchGrub2Mbr_forward (by omega) patching
  rw [bind_run_of_ok _ (Output.writeZeros_run .systemArea _ patched)]
    at returned
  have zeros :
      Forward high patched
        (patched.written .systemArea
          (List.replicate
            (logicSize * 0x10 - (copied.position - output.position)) 0)
          (logicSize * 0x10 - (copied.position - output.position))) :=
    forward_written List.length_replicate patched
  have front := RunRelation.trans copyForward
    (RunRelation.trans patchForward zeros)
  by_cases label : opt.protectiveMsdosLabel = true
  · rw [if_pos label] at returned
    exact RunRelation.trans front (writeProtectiveLabel_forward room returned)
  · rw [if_neg label] at returned
    cases returned
    exact front

/-! ## Behind the descriptors -/

/-- A descriptor takes one block. -/
theorem writeVolume_position {clock : Clock} {rootDir : DirectoryEntry}
    {startLba sizeInLb : Nat} {descriptor : VolumeDescriptor}
    {output final : Output Origin} {result : Unit}
    (aligned : output.position % logicSize = 0)
    (returned :
      (writeVolume clock rootDir startLba sizeInLb descriptor).run output =
        .ok result final) :
    final.position = output.position + logicSize := by
  cases descriptor with
  | boot =>
      obtain ⟨_, _, ended, _⟩ := writeVolume_boot_run_ok returned
      exact ended
  | primary => exact writeVolume_primary_position aligned returned
  | supplementary => cases returned
  | volume => cases returned
  | ending =>
      cases returned
      rw [Output.written_position, Output.written_position, header_length]
      rfl

theorem writeVolumes_position {clock : Clock} {rootDir : DirectoryEntry}
    {startLba sizeInLb : Nat} {descriptors : List VolumeDescriptor}
    {output final : Output Origin} {result : Unit}
    (aligned : output.position % logicSize = 0)
    (returned :
      (descriptors.forM
        (writeVolume clock rootDir startLba sizeInLb)).run output =
        .ok result final) :
    final.position = output.position + descriptors.length * logicSize := by
  induction descriptors generalizing output with
  | nil =>
      rw [forM_nil_run_ok] at returned
      subst returned
      simp
  | cons descriptor descriptors inductionHypothesis =>
      rw [forM_cons_run_ok] at returned
      obtain ⟨middle, first, rest⟩ := returned
      have moved := writeVolume_position aligned first
      have next : middle.position % logicSize = 0 := by
        rw [moved, Nat.add_mod_right]
        exact aligned
      rw [inductionHypothesis next rest, moved, List.length_cons, Nat.succ_mul]
      omega

theorem writeMki_position {output final : Output Origin} {result : Unit}
    (returned : (writeMki).run output = .ok result final) :
    final.position = output.position + logicSize := by
  cases returned
  have mark : (utf8 "MKI ").length = 4 := by with_unfolding_all decide
  rw [Output.written_position, Output.written_position, mark]
  rfl

section Stages

variable {clock : Clock} {opt : Opt} {tree : DirectoryEntry} {lbCount : Nat}
variable {output area described marked tabled extended filed final :
  Output Origin}

/-- The writes in front of the path tables stay in front of them. -/
theorem Stages.front
    (stages :
      Stages clock opt tree lbCount output area described marked tabled
        extended filed final)
    (start : output.position = 0) :
    WritesIn (fun target => target < pathTableStartLba opt * logicSize) output
      marked := by
  have areaEnd := writeSystemArea_position stages.systemArea
  have descriptorsEnd :=
    writeVolumes_position (by rw [areaEnd, start]; rfl) stages.descriptors
  have markEnd := writeMki_position stages.mki
  have reached :
      marked.position = pathTableStartLba opt * logicSize := by
    rw [markEnd, descriptorsEnd, areaEnd, start, pathTableStartLba]
    unfold logicSize
    omega
  have high : 0x200 ≤ pathTableStartLba opt * logicSize := by
    unfold pathTableStartLba logicSize
    omega
  have forward :
      Forward (pathTableStartLba opt * logicSize) output marked :=
    RunRelation.trans (writeSystemArea_forward start high stages.systemArea)
      (RunRelation.trans
        ((Preserves.forM fun descriptor _ =>
          forward_writeVolume clock tree _ lbCount descriptor).of_run_ok
            stages.descriptors)
        (forward_writeMki.of_run_ok stages.mki))
  apply forward.writes.mono
  intro target below
  rw [reached, max_self] at below
  exact below

end Stages

/-! ## The path tables -/

theorem writePathTable_front {order : ByteOrder} {tree : DirectoryEntry}
    {pathTablePos size : Nat} {before after : Output Origin}
    (sized : tree.getPathTableSize = .ok size) (short : size ≤ 2 * logicSize)
    (returned :
      (writePathTable order tree pathTablePos).run before = .ok () after) :
    WritesIn (fun target => target < (pathTablePos + 2) * logicSize) before
      after := by
  rw [writePathTable, bind_run_ok] at returned
  obtain ⟨start, _, computed, written⟩ := returned
  obtain ⟨started, rfl⟩ := ofExcept_run_ok.mp computed
  obtain ⟨_, rfl⟩ := mulU32_eq_ok.mp started
  rw [Output.writeAt_run_ok] at written
  obtain ⟨ended, performed, rfl⟩ := written
  rw [bind_run_ok] at performed
  obtain ⟨_, first, root, performed⟩ := performed
  rw [bind_run_ok] at performed
  obtain ⟨_, second, childs, performed⟩ := performed
  rw [bind_run_of_ok _ (Output.streamPosition_run second), bind_run_ok]
    at performed
  obtain ⟨_, _, computedSize, performed⟩ := performed
  obtain ⟨sizedAgain, rfl⟩ := ofExcept_run_ok.mp computedSize
  rw [sized] at sizedAgain
  cases sizedAgain
  rw [bind_run_ok] at performed
  obtain ⟨_, third, checked, padded⟩ := performed
  have tabled :
      Forward ((pathTablePos + 2) * logicSize)
        (before.seeked (pathTablePos * logicSize)) second :=
    RunRelation.trans
      ((preserves_writePathTableEntry (forward_writeAll _) 1 tree).of_run_ok
        root)
      ((preserves_writePathTableChilds (forward_writeAll _) tree).of_run_ok
        childs)
  have reached := tabled.position
  change pathTablePos * logicSize ≤ second.position at reached
  obtain ⟨asserted, rfl⟩ := assertPathTableSize_run_ok.mp checked
  have whole :=
    RunRelation.trans tabled ((forward_padToBlock _).of_run_ok padded)
  have last : ended.position ≤ (pathTablePos + 2) * logicSize := by
    cases padded
    rw [Output.written_position]
    have position : second.position = pathTablePos * logicSize + size := by
      omega
    rw [position]
    unfold logicSize at short
    unfold room logicSize
    omega
  exact whole.writesIn_writeAt last

section Stages

variable {clock : Clock} {opt : Opt} {tree : DirectoryEntry} {lbCount : Nat}
variable {output area described marked tabled extended filed final :
  Output Origin}

/-- Nothing is written where the extents will be. -/
theorem Stages.frontTables
    (stages :
      Stages clock opt tree lbCount output area described marked tabled
        extended filed final)
    (start : output.position = 0) {size : Nat}
    (sized : tree.getPathTableSize = .ok size)
    (short : size ≤ 2 * logicSize) :
    WritesIn (fun target => target < (pathTableStartLba opt + 4) * logicSize)
      output tabled := by
  obtain ⟨between, little, big⟩ := writePathTables_run_ok stages.pathTables
  refine RunRelation.trans ((stages.front start).mono ?_)
    (RunRelation.trans ((writePathTable_front sized short little).mono ?_)
      (writePathTable_front sized short big))
  · intro target below
    rw [Nat.add_mul]
    omega
  · intro target below
    rw [Nat.add_mul] at below ⊢
    omega

end Stages

/-! ## The primary descriptor -/

/-- Where no position is cast, a run of `write_entry` has stored the padding
and the record. -/
theorem writeSource_stores {clock : Clock} {origin : Origin}
    {source : RecordSource} {output final : Output Origin} {result : Unit}
    (used : source.Used) (present : source.missing = 0)
    (below : output.position + 4096 < 2 ^ 31)
    (returned :
      (writeSource clock origin source).run output = .ok result final) :
    ∃ bytes,
      source.Built bytes ∧
        Stores
          (List.replicate (gap logicSize output.position bytes.length) 0 ++
            bytes)
          output final := by
  obtain ⟨bytes, built, _, _⟩ := writeSource_run_ok used returned
  have run := writeSource_run clock origin used present built.1 below
  rw [returned] at run
  cases recorded :
      source.record
        (clock (padded origin bytes.length output).stores.length) with
  | error fault =>
      rw [recorded] at run
      cases run
  | ok record =>
      rw [recorded] at run
      cases run
      have length := source.record_length used built.1 recorded
      rw [present, Nat.add_zero] at length
      have stores :
          Stores (List.replicate (gap logicSize output.position bytes.length) 0)
            output (padded origin bytes.length output) :=
        stores_written List.length_replicate output
      refine ⟨record, ⟨by rw [length]; exact built.1, _, recorded⟩, ?_⟩
      rw [length]
      exact stores.append (stores_written length _)

/-- The primary descriptor begins with its type and the standard identifier,
and has the record of the root at byte 156. -/
structure HoldsPrimary (rootDir : DirectoryEntry) (start : Nat)
    (output : Output Origin) : Prop where
  header : Holds start VolumeDescriptor.primary.header output
  record :
    ∃ record,
      (RecordSource.directory 5 rootDir).Built record ∧ record.length = 34 ∧
        Holds (start + 156) record output

theorem HoldsPrimary.kept {rootDir : DirectoryEntry} {start low : Nat}
    {before after : Output Origin}
    (primary : HoldsPrimary rootDir start before)
    (writes : WritesIn (fun target => low ≤ target) before after)
    (front : start + logicSize ≤ low) : HoldsPrimary rootDir start after := by
  obtain ⟨record, built, length, held⟩ := primary.record
  have block : logicSize = 2048 := rfl
  refine ⟨primary.header.kept writes ?_, record, built, length,
    held.kept writes ?_⟩
  · rw [header_length]
    omega
  · omega

theorem rootRecord_length {rootDir : DirectoryEntry} {record : List UInt8}
    (built : (RecordSource.directory 5 rootDir).Built record) :
    record.length = 34 := by
  have sized := built.1
  rw [RecordSource.size, DirectoryEntry.getEntrySize, except_bind_eq_ok]
    at sized
  obtain ⟨fileName, _, sized⟩ := sized
  obtain ⟨_, fixed, _, length⟩ := getEntrySize_eq_ok.mp sized
  exact length

theorem writeVolume_primary_holds {clock : Clock} {rootDir : DirectoryEntry}
    {startLba sizeInLb : Nat} {output final : Output Origin} {result : Unit}
    (aligned : output.position % logicSize = 0)
    (below : output.position + 8192 < 2 ^ 31)
    (returned :
      (writeVolume clock rootDir startLba sizeInLb .primary).run output =
        .ok result final) :
    HoldsPrimary rootDir output.position final := by
  rw [writeVolume, bind_run_of_ok _ (Output.writeAll_run _ _ output),
    writeVolumeFields, bind_run_ok] at returned
  obtain ⟨front, _, built, returned⟩ := returned
  rw [ofExcept_run_ok] at built
  obtain ⟨built, rfl⟩ := built
  rw [bind_run_of_ok _ (Output.writeAll_run _ _ _), bind_run_ok] at returned
  obtain ⟨_, recorded, recording, returned⟩ := returned
  have headed :
      Stores VolumeDescriptor.primary.header output
        (output.written .volumeDescriptor VolumeDescriptor.primary.header
          VolumeDescriptor.primary.header.length) :=
    stores_written rfl output
  generalize
    output.written .volumeDescriptor VolumeDescriptor.primary.header
      VolumeDescriptor.primary.header.length = middle at headed recording
  have fields :
      Stores front middle
        (middle.written .volumeDescriptor front front.length) :=
    stores_written rfl middle
  generalize middle.written .volumeDescriptor front front.length = fielded
    at fields recording
  have reached : fielded.position = output.position + 156 := by
    rw [fields.position, headed.position, header_length,
      primaryFront_length built]
  have used : (RecordSource.directory 5 rootDir).Used := by
    intro four
    cases four
  obtain ⟨record, own, stored⟩ :=
    writeSource_stores used rfl (by omega) recording
  have length := rootRecord_length own
  have unpadded : gap logicSize fielded.position record.length = 0 := by
    have inside : fielded.position % logicSize = 156 := by
      rw [reached]
      unfold logicSize at aligned ⊢
      omega
    rw [gap, restOf, inside, length]
    rfl
  rw [unpadded, List.replicate_zero, List.nil_append] at stored
  have back : Stores (primaryBack (clock recorded.stores.length)) recorded
      final := by
    cases returned
    exact stores_written rfl recorded
  have behind := fields.append (stored.append back)
  have begins :
      Holds output.position VolumeDescriptor.primary.header final := by
    refine behind.behind.holds ?_ headed.holds
    intro target _ inside
    rw [headed.position]
    omega
  refine ⟨begins, record, own, length, ?_⟩
  rw [← reached]
  refine back.behind.holds ?_ stored.holds
  intro target _ inside
  rw [stored.position]
  omega

section Stages

variable {clock : Clock} {opt : Opt} {tree : DirectoryEntry} {lbCount : Nat}
variable {output area described marked tabled extended filed final :
  Output Origin}

theorem staysBehind_writeVolume {low : Nat} (clock : Clock)
    (rootDir : DirectoryEntry) (startLba sizeInLb : Nat)
    (descriptor : VolumeDescriptor) :
    Preserves (StaysBehind low)
      (writeVolume clock rootDir startLba sizeInLb descriptor) := by
  apply Preserves.bind (staysBehind_writeAll _ _)
  intro _
  cases descriptor with
  | boot =>
      apply Preserves.ofExcept_bind
      intro lba _
      exact staysBehind_writeAll _ _
  | primary =>
      apply Preserves.ofExcept_bind
      intro front _
      apply Preserves.bind (staysBehind_writeAll _ front)
      intro _
      apply Preserves.bind (staysBehind_writeRecord clock _ _ _)
      intro _
      apply Preserves.bind staysBehind_get
      intro output
      exact staysBehind_writeAll _ _
  | supplementary => exact Preserves.throw _
  | volume => exact Preserves.throw _
  | ending => exact staysBehind_writeZeros _ _

/-- The primary descriptor is in sector 16 of the image. -/
theorem Stages.primary
    (stages :
      Stages clock opt tree lbCount output area described marked tabled
        extended filed final)
    (start : output.position = 0)
    (placed : PlacedBehind (pathTableStartLba opt + 4) [tree]) :
    HoldsPrimary tree (0x10 * logicSize) final := by
  have areaEnd := writeSystemArea_position stages.systemArea
  rw [start, Nat.zero_add, Nat.mul_comm] at areaEnd
  have descriptors := stages.descriptors
  rw [generateVolumeDescriptors, List.append_assoc, List.singleton_append,
    forM_cons_run_ok] at descriptors
  obtain ⟨first, primary, rest⟩ := descriptors
  have aligned : area.position % logicSize = 0 := by
    rw [areaEnd]
    rfl
  have held :=
    writeVolume_primary_holds aligned (by rw [areaEnd]; decide) primary
  have reached := writeVolume_primary_position aligned primary
  rw [areaEnd] at held reached
  have behind : 0x11 * logicSize ≤ first.position := by
    rw [reached]
    decide
  have tables : 0x11 * logicSize ≤ pathTableStartLba opt * logicSize := by
    apply Nat.mul_le_mul_right
    unfold pathTableStartLba
    omega
  have stays : StaysBehind (0x11 * logicSize) first tabled :=
    RunRelation.trans
      ((Preserves.forM fun descriptor _ =>
        staysBehind_writeVolume clock tree _ lbCount descriptor).of_run_ok
          rest)
      (RunRelation.trans (staysBehind_writeMki.of_run_ok stages.mki)
        ((staysBehind_writePathTables tree tables).of_run_ok
          stages.pathTables))
  have kept := held.kept (stays behind).2 (by decide)
  obtain ⟨record, built, length, recorded⟩ := kept.record
  have front :
      0x11 * logicSize ≤ (pathTableStartLba opt + 4) * logicSize :=
    Nat.le_trans tables (Nat.mul_le_mul_right _ (Nat.le_add_right _ _))
  refine ⟨stages.behindTables placed ?_ kept.header, record, built, length,
    stages.behindTables placed ?_ recorded⟩
  · rw [header_length]
    exact Nat.le_trans (by decide) front
  · rw [length]
    exact Nat.le_trans (by decide) front

end Stages

end RustKernel.Iso
