import RustKernel.Iso.ImageContents

/-!
# The patched boot image

`patch_boot_image` runs behind `reserve_file_space`.  The two tables that it
writes at fixed offsets make a short boot file longer, and the second one ends
in the second block.
-/

namespace RustKernel.Iso

open RustKernel.Foundations
open RustKernel.Machine
open DirectoryEntry

/-! ## An assignment through a lookup -/

theorem findDirectory_named {dirName : Name} {entries : List DirectoryEntry}
    {found : DirectoryEntry}
    (looked : findDirectory dirName entries = .ok (some found)) :
    found.getFileName = .ok dirName := by
  induction entries with
  | nil => cases looked
  | cons entry entries inductionHypothesis =>
      rw [findDirectory, except_bind_eq_ok] at looked
      obtain ⟨other, named, looked⟩ := looked
      by_cases same : other = dirName
      · rw [if_pos same] at looked
        cases looked
        rw [named, same]
      · rw [if_neg same] at looked
        exact inductionHypothesis looked

theorem findDirectory_replaced {dirName : Name}
    {entries replaced : List DirectoryEntry} {found directory : DirectoryEntry}
    (looked : findDirectory dirName entries = .ok (some found))
    (named : directory.getFileName = .ok dirName)
    (returned : replaceDirectory dirName directory entries = .ok replaced) :
    findDirectory dirName replaced = .ok (some directory) := by
  induction entries generalizing replaced with
  | nil => cases looked
  | cons entry entries inductionHypothesis =>
      rw [findDirectory, except_bind_eq_ok] at looked
      obtain ⟨other, headNamed, looked⟩ := looked
      rw [replaceDirectory, headNamed] at returned
      by_cases same : other = dirName
      · change (if other = dirName then _ else _) = _ at returned
        rw [if_pos same] at returned
        cases returned
        rw [findDirectory_cons named, if_pos rfl]
      · change (if other = dirName then _ else _) = _ at returned
        rw [if_neg same] at looked returned
        rw [except_bind_eq_ok] at returned
        obtain ⟨rest, replacedRest, closed⟩ := returned
        cases closed
        rw [findDirectory_cons headNamed, if_neg same]
        exact inductionHypothesis looked replacedRest

theorem setFileAlong_below {entry updated child : DirectoryEntry}
    {dirName next : Name} {components : List Name} {file : FileEntry}
    (directory : findDirectory dirName entry.dirChilds = .ok (some child))
    (returned :
      entry.setFileAlong file (dirName :: next :: components) =
        .ok updated) :
    ∃ changed dirChilds,
      child.setFileAlong file (next :: components) = .ok changed ∧
        replaceDirectory dirName changed entry.dirChilds = .ok dirChilds ∧
        updated = { entry with dirChilds := dirChilds } := by
  rw [setFileAlong] at returned
  · rw [directory, except_bind_eq_ok] at returned
    obtain ⟨_, found, returned⟩ := returned
    cases found
    simp only at returned
    rw [except_bind_eq_ok] at returned
    obtain ⟨changed, deeper, returned⟩ := returned
    rw [except_bind_eq_ok] at returned
    obtain ⟨dirChilds, replaced, closed⟩ := returned
    cases closed
    exact ⟨changed, dirChilds, deeper, replaced, rfl⟩
  · simp

/-- A lookup finds the file that an assignment through it has left, and the
entry keeps its name. -/
theorem getFileAlong_setFileAlong {entry updated : DirectoryEntry}
    {components : List Name} {found file : FileEntry}
    (looked : entry.getFileAlong components = .ok (some found))
    (named : file.getFileName = found.getFileName)
    (returned : entry.setFileAlong file components = .ok updated) :
    updated.path = entry.path ∧
      updated.getFileAlong components = .ok (some file) := by
  induction components generalizing entry updated with
  | nil => cases looked
  | cons name components inductionHypothesis =>
      cases components with
      | nil =>
          obtain ⟨front, back, first⟩ := findFile_eq_some looked
          rw [setFileAlong, first.replaceFile] at returned
          cases returned
          refine ⟨rfl, ?_⟩
          have replaced : FirstNamed name (front ++ file :: back) front file back :=
            ⟨rfl, named.trans first.named, first.earlier⟩
          exact replaced.findFile
      | cons next components =>
          rw [getFileAlong_below] at looked
          obtain ⟨child, directory, looked⟩ := looked
          obtain ⟨changed, dirChilds, deeper, replaced, rfl⟩ :=
            setFileAlong_below directory returned
          obtain ⟨samePath, foundBelow⟩ := inductionHypothesis looked deeper
          have changedNamed : changed.getFileName = .ok name := by
            rw [DirectoryEntry.getFileName, samePath]
            exact findDirectory_named directory
          exact ⟨rfl, getFileAlong_below.mpr ⟨changed,
            findDirectory_replaced directory changedNamed replaced, foundBelow⟩⟩

/-! ## The reserved extent -/

/-- The bytes of the blocks that `reserve_file_space` has set aside. -/
def FileEntry.ReservedRegion (file : FileEntry) (target : Nat) : Prop :=
  logicSize * file.reserved.start ≤ target ∧
    target < logicSize * file.reserved.stop

/-- The patched boot file fits into the blocks that it had been given, and
writing it stores into these blocks only. -/
def StaysReserved (value : Name) (reserved patched : DirectoryEntry) : Prop :=
  ∃ placed boot,
    reserved.getFile value = .ok (some placed) ∧
      patched.getFile value = .ok (some boot) ∧
      boot.size ≤ logicSize * placed.reserved.count ∧
      ∀ output,
        WritesIn placed.ReservedRegion output (contentWritten boot output)

/-- The lookup of the boot file behind the patch. -/
theorem patchBootImage_getFile {opt : Opt} {value : Name}
    {tree patched : DirectoryEntry}
    (returned : patchBootImage opt value tree = .ok patched) :
    ∃ file boot,
      tree.getFile value = .ok (some file) ∧
        patched.getFile value = .ok (some boot) ∧
        boot.lba = file.lba ∧ boot.Sized ∧
        boot.size = patchedLength opt file.contents.length := by
  obtain ⟨file, name, buff, updated, found, named, length, update, assigned⟩ :=
    patchBootImage_eq_ok returned
  rw [FileEntry.update, except_bind_eq_ok] at update
  obtain ⟨alignedSize, _, closed⟩ := update
  cases closed
  refine ⟨file, _, found, (getFileAlong_setFileAlong found ?_ assigned).2, rfl,
    rfl, length⟩
  exact named.symm

theorem contentWritten_writesReserved {placed boot : FileEntry}
    (sameLba : boot.lba = placed.lba) (sized : boot.Sized)
    (fits : boot.size ≤ logicSize * placed.reserved.count)
    (output : Output Origin) :
    WritesIn placed.ReservedRegion output (contentWritten boot output) := by
  apply (contentWritten_writesIn sized output).mono
  intro target inside
  simp only [FileEntry.Region, FileEntry.blocks, Range.stop, sameLba,
    logicSize] at inside
  simp only [FileEntry.ReservedRegion, FileEntry.reserved, Range.stop,
    logicSize] at fits ⊢
  omega

/-- The sizes for which the patched file fits: the field of GRUB ends in the
second block. -/
theorem patchedLength_fits_iff (opt : Opt) (size : Nat) :
    patchedLength opt size ≤
        logicSize * ((size % 2 ^ 32 + logicSize) / logicSize) ↔
      size < 2 ^ 32 ∧ (opt.grub2BootInfo = true → logicSize ≤ size) := by
  unfold patchedLength logicSize
  cases opt.bootInfoTable with
  | true => cases opt.grub2BootInfo <;> simp <;> omega
  | false => cases opt.grub2BootInfo <;> simp <;> omega

/-- The patched file has the blocks that the second traversal computes from the
size in front of the patches. -/
theorem staysReserved_iff_fits {opt : Opt} {value : Name}
    {tree reserved patched : DirectoryEntry} {file : FileEntry}
    {before after : Nat}
    (found : tree.getFile value = .ok (some file)) (sized : file.Sized)
    (placing : (reserveFileSpace tree).run before = .ok reserved after)
    (patching : patchBootImage opt value reserved = .ok patched) :
    StaysReserved value reserved patched ↔
      patchedLength opt file.size ≤
        logicSize * ((file.size % 2 ^ 32 + logicSize) / logicSize) := by
  obtain ⟨placed, boot, looked, foundBoot, sameLba, bootSized, bootSize⟩ :=
    patchBootImage_getFile patching
  obtain ⟨there, foundThere, same⟩ :=
    getFileAlong_of_unplaced (reserve_unplaced _ _ _ _ placing) found
  have samePlaced : placed = there := by
    rw [DirectoryEntry.getFile] at looked
    rw [looked] at foundThere
    cases foundThere
    rfl
  subst samePlaced
  have placedSize : placed.unplaced.size = file.unplaced.size := by rw [same]
  have placedContents : placed.unplaced.contents = file.unplaced.contents := by
    rw [same]
  change placed.size = file.size at placedSize
  change placed.contents = file.contents at placedContents
  have fits :
      boot.size ≤ logicSize * placed.reserved.count ↔
        patchedLength opt file.size ≤
          logicSize * ((file.size % 2 ^ 32 + logicSize) / logicSize) := by
    rw [bootSize, placedContents,
      show file.contents.length = file.size from sized, FileEntry.reserved,
      placedSize]
  constructor
  · intro stays
    obtain ⟨other, otherBoot, otherLooked, otherFound, short, _⟩ := stays
    rw [looked] at otherLooked
    rw [foundBoot] at otherFound
    cases otherLooked
    cases otherFound
    exact fits.mp short
  · intro large
    have short := fits.mpr large
    exact ⟨placed, boot, looked, foundBoot, short,
      contentWritten_writesReserved sameLba bootSized short⟩

/-- The patches leave the boot file in its reserved blocks exactly if its size
is below 2^32 and, with the field of GRUB, one block at least. -/
theorem patchBootImage_staysReserved_iff {opt : Opt} {value : Name}
    {tree reserved patched : DirectoryEntry} {file : FileEntry}
    {before after : Nat}
    (found : tree.getFile value = .ok (some file)) (sized : file.Sized)
    (placing : (reserveFileSpace tree).run before = .ok reserved after)
    (patching : patchBootImage opt value reserved = .ok patched) :
    StaysReserved value reserved patched ↔
      file.size < 2 ^ 32 ∧
        (opt.grub2BootInfo = true → logicSize ≤ file.size) := by
  rw [staysReserved_iff_fits found sized placing patching]
  exact patchedLength_fits_iff opt file.size

/-! ## A boot file of two bytes -/

theorem bootTree_getFile :
    bootTree.getFile (utf8 "boot/loader.bin") =
      .ok (some (regularFile "loader.bin" [0xEB, 0xFE])) := by
  with_unfolding_all decide

theorem patchBootImage_staysReserved_iff_bootTree :
    ∃ reserved after patched,
      (reserveFileSpace bootTree).run 27 = .ok reserved after ∧
        patchBootImage { bootOpt with bootInfoTable := true }
            (utf8 "boot/loader.bin") reserved = .ok patched ∧
          StaysReserved (utf8 "boot/loader.bin") reserved patched := by
  obtain ⟨patched, returned⟩ :=
    except_eq_ok_of_isOk
      (by with_unfolding_all decide :
        (outcome (reserveFileSpace bootTree) 27 >>= fun reserved =>
          patchBootImage { bootOpt with bootInfoTable := true }
            (utf8 "boot/loader.bin") reserved.1).isOk = true)
  rw [except_bind_eq_ok] at returned
  obtain ⟨⟨reserved, after⟩, placing, patching⟩ := returned
  rw [outcome_eq_ok] at placing
  exact ⟨reserved, after, patched, placing, patching,
    (patchBootImage_staysReserved_iff bootTree_getFile rfl placing patching).mpr
      ⟨by decide, by decide⟩⟩

/-- The field of GRUB makes the two bytes 2556, and they have one block. -/
theorem grubLoader_not_staysReserved :
    ∃ reserved after patched,
      (reserveFileSpace bootTree).run 27 = .ok reserved after ∧
        patchBootImage { bootOpt with grub2BootInfo := true }
            (utf8 "boot/loader.bin") reserved = .ok patched ∧
          ¬ StaysReserved (utf8 "boot/loader.bin") reserved patched := by
  obtain ⟨patched, returned⟩ :=
    except_eq_ok_of_isOk
      (by decide +kernel :
        (outcome (reserveFileSpace bootTree) 27 >>= fun reserved =>
          patchBootImage { bootOpt with grub2BootInfo := true }
            (utf8 "boot/loader.bin") reserved.1).isOk = true)
  rw [except_bind_eq_ok] at returned
  obtain ⟨⟨reserved, after⟩, placing, patching⟩ := returned
  rw [outcome_eq_ok] at placing
  refine ⟨reserved, after, patched, placing, patching, ?_⟩
  rw [staysReserved_iff_fits bootTree_getFile rfl placing patching]
  decide

end RustKernel.Iso
