import RustKernel.Iso.BootChain
import RustKernel.Iso.PathTable

/-!
# The room of the path tables

Four blocks are set aside for the two path tables, two for each of them,
however many directories there are.  All else that is written later lies
behind them.
-/

namespace RustKernel.Iso

open RustKernel.Foundations
open RustKernel.Machine
open DirectoryEntry

/-! ## The place of directories and files -/

/-- All directories and files of a tree are placed behind a block. -/
def PlacedBehind (low : Nat) (entries : List DirectoryEntry) : Prop :=
  (∀ directory ∈ entries.flatMap directories, low ≤ directory.lba) ∧
    AllFiles (fun file => low ≤ file.lba) entries

theorem placedBehind_append {low : Nat}
    {first second : List DirectoryEntry} :
    PlacedBehind low (first ++ second) ↔
      PlacedBehind low first ∧ PlacedBehind low second := by
  unfold PlacedBehind
  rw [List.flatMap_append, allFiles_append]
  simp only [List.mem_append, or_imp, forall_and]
  tauto

theorem placedBehind_cons {low : Nat} {entry : DirectoryEntry}
    {entries : List DirectoryEntry} :
    PlacedBehind low (entry :: entries) ↔
      low ≤ entry.lba ∧ (∀ file ∈ entry.filesChilds, low ≤ file.lba) ∧
        PlacedBehind low entry.dirChilds ∧ PlacedBehind low entries := by
  unfold PlacedBehind
  rw [List.flatMap_cons, directories_eq, allFiles_cons]
  simp only [List.cons_append, List.mem_cons, List.mem_append, or_imp,
    forall_and, forall_eq]
  tauto

theorem placedBehind_nil (low : Nat) : PlacedBehind low [] :=
  ⟨by simp, allFiles_nil⟩

theorem placedBehind_of_mem {low : Nat} {entry : DirectoryEntry}
    {entries : List DirectoryEntry} (member : entry ∈ entries)
    (known : PlacedBehind low entries) : PlacedBehind low [entry] := by
  obtain ⟨front, back, split⟩ := List.append_of_mem member
  rw [split, placedBehind_append, placedBehind_cons] at known
  exact placedBehind_cons.mpr
    ⟨known.2.1, known.2.2.1, known.2.2.2.1, placedBehind_nil low⟩

theorem mem_replaceFile {name : Name} {file : FileEntry}
    {files replaced : List FileEntry}
    (returned : replaceFile name file files = .ok replaced) :
    ∀ other ∈ replaced, other = file ∨ other ∈ files := by
  induction files generalizing replaced with
  | nil =>
      cases returned
      simp
  | cons head rest inductionHypothesis =>
      rw [replaceFile, except_bind_eq_ok] at returned
      obtain ⟨fileName, _, returned⟩ := returned
      by_cases same : fileName = name
      · rw [if_pos same] at returned
        cases returned
        exact List.forall_mem_cons.mpr
          ⟨Or.inl rfl, fun other member => Or.inr (by simp [member])⟩
      · rw [if_neg same, except_bind_eq_ok] at returned
        obtain ⟨later, looped, closed⟩ := returned
        cases closed
        refine List.forall_mem_cons.mpr ⟨Or.inr (by simp), ?_⟩
        intro other member
        rcases inductionHypothesis looped other member with new | old
        · exact Or.inl new
        · exact Or.inr (by simp [old])

theorem placedBehind_replaceDirectory {low : Nat} {name : Name}
    {directory : DirectoryEntry} {entries replaced : List DirectoryEntry}
    (known : PlacedBehind low entries)
    (added : PlacedBehind low [directory])
    (returned : replaceDirectory name directory entries = .ok replaced) :
    PlacedBehind low replaced := by
  induction entries generalizing replaced with
  | nil =>
      cases returned
      exact known
  | cons head rest inductionHypothesis =>
      rw [← List.singleton_append, placedBehind_append] at known
      rw [replaceDirectory, except_bind_eq_ok] at returned
      obtain ⟨fileName, _, returned⟩ := returned
      by_cases same : fileName = name
      · rw [if_pos same] at returned
        cases returned
        rw [← List.singleton_append, placedBehind_append]
        exact ⟨added, known.2⟩
      · rw [if_neg same, except_bind_eq_ok] at returned
        obtain ⟨later, looped, closed⟩ := returned
        cases closed
        rw [← List.singleton_append, placedBehind_append]
        exact ⟨known.1, inductionHypothesis known.2 looped⟩

/-- An assignment through `get_file` keeps the places, if the file is in
place. -/
theorem setFileAlong_placed {low : Nat} {file : FileEntry}
    (behind : low ≤ file.lba) {components : List Name}
    {entry changed : DirectoryEntry}
    (known : PlacedBehind low [entry])
    (returned : entry.setFileAlong file components = .ok changed) :
    changed.lba = entry.lba ∧ PlacedBehind low [changed] := by
  induction components generalizing entry changed with
  | nil =>
      cases returned
      exact ⟨rfl, known⟩
  | cons name components inductionHypothesis =>
      obtain ⟨own, files, below, _⟩ := placedBehind_cons.mp known
      cases components with
      | nil =>
          rw [setFileAlong, except_bind_eq_ok] at returned
          obtain ⟨replaced, looped, closed⟩ := returned
          cases closed
          refine ⟨rfl, placedBehind_cons.mpr
            ⟨own, ?_, below, placedBehind_nil low⟩⟩
          intro other member
          rcases mem_replaceFile looped other member with new | old
          · rw [new]
            exact behind
          · exact files other old
      | cons next components =>
          rw [setFileAlong, except_bind_eq_ok] at returned
          · obtain ⟨found, looked, returned⟩ := returned
            cases found with
            | none =>
                cases returned
                exact ⟨rfl, known⟩
            | some child =>
                simp only at returned
                rw [except_bind_eq_ok] at returned
                obtain ⟨newChild, assigned, returned⟩ := returned
                rw [except_bind_eq_ok] at returned
                obtain ⟨replaced, looped, closed⟩ := returned
                cases closed
                have childBehind : PlacedBehind low [child] :=
                  placedBehind_of_mem (findDirectory_mem looked) below
                have changedChild :=
                  (inductionHypothesis childBehind assigned).2
                exact ⟨rfl, placedBehind_cons.mpr
                  ⟨own, files,
                    placedBehind_replaceDirectory below changedChild looped,
                    placedBehind_nil low⟩⟩
          · simp

theorem update_lba {file updated : FileEntry}
    (returned : file.update = .ok updated) : updated.lba = file.lba := by
  unfold FileEntry.update at returned
  split at returned
  · rw [except_bind_eq_ok] at returned
    obtain ⟨alignedSize, _, closed⟩ := returned
    cases closed
    rfl
  · cases returned

theorem placed_of_reserved {start lastLba finalLba : Nat}
    {tree assigned reserved : DirectoryEntry}
    (numbered : assignDirectories start tree = .ok (assigned, lastLba))
    (placed : (reserveFileSpace assigned).run lastLba = .ok reserved finalLba) :
    reserved.lba = start ∧ PlacedBehind start [reserved] := by
  obtain ⟨extentSize, ranges, _, lba, _, _, listed, ascending⟩ :=
    assignDirectories_ascending numbered
  have contents := (reserveFileSpace_reserves assigned _ _ _ placed).ascending
  rw [List.flatMap_singleton] at contents
  obtain ⟨middle, fields, _, looped⟩ := reserveFileSpace_run_ok placed
  have childs :=
    reserveChilds_reserves
      (fun entry _ => reserveFileSpace_reserves entry) looped
  have root : reserved.lba = start := by rw [fields.lba, lba]
  have below := lba_of_extents (childs.extents.trans listed) ascending
  have le := ascending.le
  refine ⟨root, ?_, ?_⟩
  · intro directory member
    rw [List.flatMap_singleton, directories_eq, List.mem_cons] at member
    rcases member with same | member
    · rw [same, root]
    · have above := below directory member
      omega
  · intro file member
    rw [List.flatMap_singleton] at member
    have bounds :=
      (contents.bounds file.reserved (List.mem_map_of_mem member)).1
    have own : file.reserved.start = file.lba := rfl
    omega

theorem fillIfBootable_placed {low : Nat} {opt : Opt}
    {reserved filled : DirectoryEntry}
    (known : PlacedBehind low [reserved])
    (filling : fillIfBootable opt reserved = .ok filled) :
    filled.lba = reserved.lba ∧ PlacedBehind low [filled] := by
  unfold fillIfBootable at filling
  cases boot : opt.eltoritoBoot with
  | none =>
      rw [boot] at filling
      cases filling
      exact ⟨rfl, known⟩
  | some value =>
      rw [boot] at filling
      obtain ⟨eltoritoBootFile, catalog, front, back, _, first, rfl⟩ :=
        fillBootCatalog_eq_ok filling
      obtain ⟨own, files, below, _⟩ := placedBehind_cons.mp known
      rw [first.split] at files
      refine ⟨rfl, placedBehind_cons.mpr
        ⟨own, ?_, below, placedBehind_nil low⟩⟩
      intro file member
      rcases List.mem_append.mp member with before | rest
      · exact files file (by simp [before])
      · rcases List.mem_cons.mp rest with same | after
        · rw [same]
          exact files catalog (by simp)
        · exact files file (by simp [after])

theorem patchIfAsked_placed {low : Nat} {opt : Opt}
    {filled patched : DirectoryEntry}
    (known : PlacedBehind low [filled])
    (patching : patchIfAsked opt filled = .ok patched) :
    patched.lba = filled.lba ∧ PlacedBehind low [patched] := by
  unfold patchIfAsked at patching
  split at patching
  · cases boot : opt.eltoritoBoot with
    | none =>
        rw [boot] at patching
        cases patching
    | some value =>
        rw [boot] at patching
        simp only at patching
        obtain ⟨file, name, buff, updated, found, _, _, update, assigned⟩ :=
          patchBootImage_eq_ok patching
        have behind : low ≤ updated.lba := by
          rw [update_lba update]
          change low ≤ file.lba
          apply known.2
          rw [List.flatMap_singleton]
          exact getFileAlong_mem found
        exact setFileAlong_placed behind known assigned
  · cases patching
    exact ⟨rfl, known⟩

/-- Everything that `create_iso` places lies behind the blocks of the path
tables, and the root comes first. -/
theorem planImage_placed {opt : Opt} {inputFiles : List HostEntry}
    {tree : DirectoryEntry} {finalLba : Nat}
    (planned : planImage opt inputFiles = .ok (tree, finalLba)) :
    tree.lba = pathTableStartLba opt + 4 ∧
      PlacedBehind (pathTableStartLba opt + 4) [tree] := by
  rw [planImage, except_bind_eq_ok] at planned
  obtain ⟨scanned, _, planned⟩ := planned
  rw [except_bind_eq_ok] at planned
  obtain ⟨⟨filled, currentLba⟩, layout, planned⟩ := planned
  simp only at planned
  rw [except_bind_eq_ok] at planned
  obtain ⟨patched, patching, closed⟩ := planned
  cases closed
  obtain ⟨assigned, lastLba, reserved, numbered, placed, filling⟩ :=
    planLayout_eq_ok layout
  obtain ⟨root, reservedBehind⟩ := placed_of_reserved numbered placed
  obtain ⟨sameFilled, filledBehind⟩ :=
    fillIfBootable_placed reservedBehind filling
  obtain ⟨samePatched, patchedBehind⟩ :=
    patchIfAsked_placed filledBehind patching
  exact ⟨by rw [samePatched, sameFilled, root], patchedBehind⟩

/-! ## One table -/

/-- A run of `write_path_table` has stored the table from its position on. -/
structure WroteTable (order : ByteOrder) (tree : DirectoryEntry)
    (pathTablePos : Nat) (table : List UInt8)
    (before after : Output Origin) : Prop where
  returned : (writePathTable order tree pathTablePos).run before = .ok () after
  stores :
    ∃ ended,
      after = ended.seeked before.position ∧
        Stores table (before.seeked (pathTablePos * logicSize)) ended

theorem preserves_stores (origin : Origin) (bytes : List UInt8) :
    Preserves (fun before after => ∃ bytes, Stores bytes before after)
      (Output.writeAll origin bytes : Writer Unit) :=
  fun output => ⟨bytes, stores_written rfl output⟩

/-- A table is as long as `get_path_table_size` says, and padded to whole
blocks. -/
theorem exists_wroteTable {order : ByteOrder} {tree : DirectoryEntry}
    {pathTablePos : Nat} {before after : Output Origin}
    (returned :
      (writePathTable order tree pathTablePos).run before = .ok () after) :
    ∃ table size,
      WroteTable order tree pathTablePos table before after ∧
        tree.getPathTableSize = .ok size ∧
        table.length = size + room size := by
  have whole := returned
  rw [writePathTable, bind_run_ok] at returned
  obtain ⟨start, _, computed, written⟩ := returned
  obtain ⟨started, rfl⟩ := ofExcept_run_ok.mp computed
  obtain ⟨_, rfl⟩ := mulU32_eq_ok.mp started
  rw [Output.writeAt_run_ok] at written
  obtain ⟨ended, performed, rfl⟩ := written
  rw [bind_run_ok] at performed
  obtain ⟨_, first, root, performed⟩ := performed
  rw [bind_run_ok] at performed
  obtain ⟨_, second, childs, performed⟩ := performed
  rw [bind_run_of_ok _ (Output.streamPosition_run second), bind_run_ok]
    at performed
  obtain ⟨tabled, _, computedSize, performed⟩ := performed
  obtain ⟨sized, rfl⟩ := ofExcept_run_ok.mp computedSize
  rw [bind_run_ok] at performed
  obtain ⟨_, third, checked, padded⟩ := performed
  obtain ⟨front, rootStores⟩ :=
    (preserves_writePathTableEntry (preserves_stores _) 1 tree).of_run_ok root
  obtain ⟨back, childsStore⟩ :=
    (preserves_writePathTableChilds (preserves_stores _) tree).of_run_ok childs
  have stores := rootStores.append childsStore
  have reached := stores.position
  obtain ⟨asserted, rfl⟩ := assertPathTableSize_run_ok.mp checked
  change second.position = pathTablePos * logicSize + _ at reached
  have size : (front ++ back).length = tabled := by omega
  have padding :
      Stores (List.replicate (room second.position) 0) second ended := by
    cases padded
    exact stores_written List.length_replicate second
  refine ⟨_, _, ⟨whole, ended, rfl, stores.append padding⟩, sized, ?_⟩
  rw [List.length_append, List.length_replicate, size, reached, size]
  congr 1
  unfold room
  rw [Nat.mul_add_mod_self_right]

/-! ## Both tables in the image -/

/-- Each table ends in front of the two blocks behind its own, and is in the
file as it was written. -/
structure TablesStay (startLba : Nat) (little big : List UInt8)
    (final : Output Origin) : Prop where
  littleEnds :
    startLba * logicSize + little.length ≤ (startLba + 2) * logicSize
  bigEnds :
    (startLba + 2) * logicSize + big.length ≤ (startLba + 4) * logicSize
  littleHeld : Holds (startLba * logicSize) little final
  bigHeld : Holds ((startLba + 2) * logicSize) big final

theorem WroteTable.holds {order : ByteOrder} {tree : DirectoryEntry}
    {pathTablePos : Nat} {table : List UInt8} {before after : Output Origin}
    (wrote : WroteTable order tree pathTablePos table before after) :
    Holds (pathTablePos * logicSize) table after := by
  obtain ⟨ended, rfl, stores⟩ := wrote.stores
  exact stores.holds

theorem WroteTable.writesIn {order : ByteOrder} {tree : DirectoryEntry}
    {pathTablePos : Nat} {table : List UInt8} {before after : Output Origin}
    (wrote : WroteTable order tree pathTablePos table before after) :
    WritesIn (fun target => pathTablePos * logicSize ≤ target) before
      after := by
  obtain ⟨ended, rfl, stores⟩ := wrote.stores
  exact (RunRelation.trans (writesIn_seeked _ before) stores.behind).seeked _

/-- Behind the path tables, the run writes what the plan has placed. -/
theorem Stages.behindTables {clock : Clock} {opt : Opt}
    {tree : DirectoryEntry} {lbCount low : Nat}
    {output area described marked tabled extended filed final :
      Output Origin}
    (stages :
      Stages clock opt tree lbCount output area described marked tabled
        extended filed final)
    (placed : PlacedBehind low [tree]) {start : Nat} {bytes : List UInt8}
    (front : start + bytes.length ≤ low * logicSize)
    (holds : Holds start bytes tabled) : Holds start bytes final := by
  obtain ⟨directories, files⟩ := placed
  rw [List.flatMap_singleton] at directories
  rw [AllFiles, List.flatMap_singleton] at files
  have extents :
      WritesIn (fun target => low * logicSize ≤ target) tabled extended :=
    writeExtent_behind
      (fun directory member =>
        Nat.mul_le_mul_right _ (directories directory member))
      stages.extents
  have contents :
      WritesIn (fun target => low * logicSize ≤ target) extended filed :=
    writeFiles_behind
      (fun file member => Nat.mul_le_mul_right _ (files file member))
      stages.files
  exact (writeTrailer_run_ok stages.trailer).holds_behind
    ((holds.kept extents front).kept contents front)

theorem writePathTables_run_ok {tree : DirectoryEntry} {startLba : Nat}
    {output final : Output Origin} {result : Unit}
    (returned : (writePathTables tree startLba).run output = .ok result final) :
    ∃ between,
      (writePathTable .littleEndian tree startLba).run output =
          .ok () between ∧
        (writePathTable .bigEndian tree (startLba + 2)).run between =
          .ok () final := by
  rw [writePathTables, bind_run_ok] at returned
  obtain ⟨_, between, little, returned⟩ := returned
  rw [bind_run_ok] at returned
  obtain ⟨second, _, computed, big⟩ := returned
  obtain ⟨summed, rfl⟩ := ofExcept_run_ok.mp computed
  obtain ⟨_, rfl⟩ := addU32_eq_ok.mp summed
  exact ⟨between, little, big⟩

/-- When `create_iso` returns, its two path tables have stayed in their blocks
exactly if a table takes at most two of them. -/
theorem createIso_tablesStay_iff {clock : Clock} {opt : Opt}
    {inputFiles : List HostEntry} {final : Output Origin}
    (returned :
      (createIso clock opt inputFiles).run Output.empty = .ok () final) :
    ∃ tree lbCount area described marked between tabled extended filed little
        big size,
      planImage opt inputFiles = .ok (tree, lbCount) ∧
        Stages clock opt tree lbCount Output.empty area described marked
          tabled extended filed final ∧
        WroteTable .littleEndian tree (pathTableStartLba opt) little marked
          between ∧
        WroteTable .bigEndian tree (pathTableStartLba opt + 2) big between
          tabled ∧
        tree.lba = pathTableStartLba opt + 4 ∧
        tree.getPathTableSize = .ok size ∧
        (TablesStay (pathTableStartLba opt) little big final ↔
          size ≤ 4096) := by
  obtain ⟨tree, lbCount, planned, written⟩ := createIso_run_ok returned
  obtain ⟨root, placed⟩ := planImage_placed planned
  obtain ⟨area, described, marked, tabled, extended, filed, stages⟩ :=
    writeImage_run_ok written
  obtain ⟨between, littleRun, bigRun⟩ :=
    writePathTables_run_ok stages.pathTables
  obtain ⟨little, size, wroteLittle, sized, littleLength⟩ :=
    exists_wroteTable littleRun
  obtain ⟨big, _, wroteBig, sizedAgain, bigLength⟩ := exists_wroteTable bigRun
  rw [sized] at sizedAgain
  cases sizedAgain
  refine ⟨tree, lbCount, area, described, marked, between, tabled, extended,
    filed, little, big, size, planned, stages, wroteLittle, wroteBig, root,
    sized, ?_⟩
  generalize pathTableStartLba opt = startLba at *
  have two :
      (startLba + 2) * logicSize = startLba * logicSize + 4096 := by
    unfold logicSize
    omega
  have four :
      (startLba + 4) * logicSize = (startLba + 2) * logicSize + 4096 := by
    unfold logicSize
    omega
  constructor
  · intro stay
    have ends := stay.littleEnds
    omega
  · intro small
    have padded : size + room size ≤ 4096 := by
      unfold room logicSize
      omega
    have littleEnds :
        startLba * logicSize + little.length ≤ (startLba + 2) * logicSize := by
      omega
    have bigEnds :
        (startLba + 2) * logicSize + big.length ≤
          (startLba + 4) * logicSize := by
      omega
    refine ⟨littleEnds, bigEnds, ?_, ?_⟩
    · have kept := wroteLittle.holds.kept wroteBig.writesIn littleEnds
      exact stages.behindTables placed (by omega) kept
    · exact stages.behindTables placed bigEnds wroteBig.holds

theorem createIso_tablesStay_bootInputs :
    ∃ final little big,
      (createIso someClock bootOpt bootInputs).run Output.empty =
          .ok () final ∧
        TablesStay (pathTableStartLba bootOpt) little big final := by
  obtain ⟨final, run⟩ := createIso_bootInputs
  obtain ⟨tree, lbCount, _, _, _, _, _, _, _, little, big, size, planned, _, _,
    _, _, sized, stay⟩ := createIso_tablesStay_iff run
  have known :
      (do
        let planned ← planImage bootOpt bootInputs
        planned.1.getPathTableSize) = .ok 22 := by
    decide +kernel
  rw [planned] at known
  have same : tree.getPathTableSize = .ok 22 := known
  rw [sized] at same
  cases same
  exact ⟨final, little, big, run, stay.mpr (by decide)⟩

/-! ## A table that is too long -/

/-- Directories with names of eight and three letters, each in the one
before. -/
def nestedDirectories : Nat → HostEntry
  | 0 => .directory (.text (utf8 "abcdefgh.ijk")) (some [])
  | count + 1 =>
      .directory (.text (utf8 "abcdefgh.ijk")) (some [nestedDirectories count])

def plainOpt : Opt := { bootOpt with eltoritoBoot := none }

theorem createIso_nestedDirectories :
    ∃ final,
      (createIso someClock plainOpt [nestedDirectories 204]).run
        Output.empty = .ok () final := by
  obtain ⟨⟨_, final⟩, returned⟩ :=
    except_eq_ok_of_isOk
      (by decide +kernel :
        (outcome
          (createIso someClock plainOpt [nestedDirectories 204])
          Output.empty).isOk = true)
  rw [outcome_eq_ok] at returned
  exact ⟨final, returned⟩

/-- The little-endian table of 206 directories runs into the blocks of the
other one. -/
theorem nestedDirectories_overrun :
    ∃ final tree lbCount marked between little,
      (createIso someClock plainOpt [nestedDirectories 204]).run
          Output.empty = .ok () final ∧
        planImage plainOpt [nestedDirectories 204] = .ok (tree, lbCount) ∧
        WroteTable .littleEndian tree (pathTableStartLba plainOpt) little
          marked between ∧
        (pathTableStartLba plainOpt + 2) * logicSize <
          pathTableStartLba plainOpt * logicSize + little.length := by
  obtain ⟨final, run⟩ := createIso_nestedDirectories
  obtain ⟨tree, lbCount, planned, written⟩ := createIso_run_ok run
  obtain ⟨_, _, marked, _, _, _, stages⟩ := writeImage_run_ok written
  obtain ⟨between, littleRun, _⟩ := writePathTables_run_ok stages.pathTables
  obtain ⟨little, size, wrote, sized, length⟩ := exists_wroteTable littleRun
  have known :
      (do
        let planned ← planImage plainOpt [nestedDirectories 204]
        planned.1.getPathTableSize) = .ok 4110 := by
    decide +kernel
  rw [planned] at known
  have same : tree.getPathTableSize = .ok 4110 := known
  rw [sized] at same
  cases same
  refine ⟨final, tree, lbCount, marked, between, little, run, planned, wrote,
    ?_⟩
  unfold logicSize
  omega

end RustKernel.Iso
