import RustKernel.Iso.ExtentFit
import RustKernel.Iso.ImageContents
import RustKernel.Iso.Places

/-!
# The block arithmetic

Sizes are cast to `u32`, the running block counter and the products with the
block size are `u32` as well, and a position is widened behind the product
only.  A tree is laid out and written at the right positions exactly while all
of these stay in the word.
-/

namespace RustKernel.Iso

open RustKernel.Foundations
open RustKernel.Machine

/-! ## The blocks that are handed out -/

/-- The sizes that the sum of `reserve_file_space` keeps in the word. -/
def SumsFit (files : List FileEntry) : Prop :=
  ∀ file ∈ files, file.size % 2 ^ 32 + logicSize < 2 ^ 32

/-- The blocks that `reserve_file_space` hands out for the files. -/
def reservedTotal (files : List FileEntry) : Nat :=
  total (files.map FileEntry.reserved)

theorem sumsFit_cons {file : FileEntry} {files : List FileEntry} :
    SumsFit (file :: files) ↔
      file.size % 2 ^ 32 + logicSize < 2 ^ 32 ∧ SumsFit files :=
  List.forall_mem_cons

theorem sumsFit_append {first second : List FileEntry} :
    SumsFit (first ++ second) ↔ SumsFit first ∧ SumsFit second :=
  List.forall_mem_append

theorem reservedTotal_cons (file : FileEntry) (files : List FileEntry) :
    reservedTotal (file :: files) =
      file.reserved.count + reservedTotal files := by
  unfold reservedTotal
  rw [List.map_cons, total_cons]

theorem reservedTotal_append (first second : List FileEntry) :
    reservedTotal (first ++ second) =
      reservedTotal first + reservedTotal second := by
  unfold reservedTotal
  rw [List.map_append, total_append]

theorem reserveFiles_returns_iff {files : List FileEntry} {before after : Nat}
    (word : before < 2 ^ 32) :
    (∃ planned, (reserveFiles files).run before = .ok planned after) ↔
      SumsFit files ∧ after < 2 ^ 32 ∧ before + reservedTotal files = after := by
  induction files generalizing before with
  | nil =>
      simp only [reserveFiles, pure_run_ok]
      constructor
      · rintro ⟨_, _, rfl⟩
        exact ⟨List.forall_mem_nil _, word, rfl⟩
      · rintro ⟨_, _, same⟩
        exact ⟨[], rfl, same⟩
  | cons file files inductionHypothesis =>
      rw [sumsFit_cons, reservedTotal_cons]
      constructor
      · rintro ⟨planned, returned⟩
        rw [reserveFiles_cons_run_iff] at returned
        obtain ⟨summed, fits, rest, _, looped⟩ := returned
        obtain ⟨sums, inWord, filled⟩ :=
          (inductionHypothesis fits).mp ⟨rest, looped⟩
        exact ⟨⟨summed, sums⟩, inWord, by omega⟩
      · rintro ⟨⟨summed, sums⟩, inWord, filled⟩
        have fits : before + file.reserved.count < 2 ^ 32 := by omega
        obtain ⟨rest, looped⟩ :=
          (inductionHypothesis fits).mpr ⟨sums, inWord, by omega⟩
        exact ⟨_, reserveFiles_cons_run_iff.mpr
          ⟨summed, fits, rest, rfl, looped⟩⟩

/-- The run of `reserve_file_space` returns exactly if the sums and the last
counter stay in the word, and the counter moves by the blocks of all files. -/
def ReturnsWithin (entry : DirectoryEntry) : Prop :=
  ∀ before after, before < 2 ^ 32 →
    ((∃ planned, (reserveFileSpace entry).run before = .ok planned after) ↔
      SumsFit entry.files ∧ after < 2 ^ 32 ∧
        before + reservedTotal entry.files = after)

theorem reserveChilds_returns_iff {entries : List DirectoryEntry}
    {before after : Nat} (each : ∀ entry ∈ entries, ReturnsWithin entry)
    (word : before < 2 ^ 32) :
    (∃ planned, (reserveChilds entries).run before = .ok planned after) ↔
      SumsFit (entries.flatMap DirectoryEntry.files) ∧ after < 2 ^ 32 ∧
        before + reservedTotal (entries.flatMap DirectoryEntry.files) =
          after := by
  induction entries generalizing before with
  | nil =>
      simp only [reserveChilds, pure_run_ok]
      constructor
      · rintro ⟨_, _, rfl⟩
        exact ⟨List.forall_mem_nil _, word, rfl⟩
      · rintro ⟨_, _, same⟩
        exact ⟨[], rfl, same⟩
  | cons entry entries inductionHypothesis =>
      have later : ∀ entry ∈ entries, ReturnsWithin entry :=
        fun entry member => each entry (by simp [member])
      have own := each entry (by simp)
      rw [List.flatMap_cons, sumsFit_append, reservedTotal_append]
      constructor
      · rintro ⟨planned, returned⟩
        obtain ⟨first, rest, middle, _, reserved, looped⟩ :=
          reserveChilds_cons_run_ok returned
        obtain ⟨sums, middleWord, moved⟩ :=
          (own before middle word).mp ⟨first, reserved⟩
        obtain ⟨laterSums, inWord, filled⟩ :=
          (inductionHypothesis later middleWord).mp ⟨rest, looped⟩
        exact ⟨⟨sums, laterSums⟩, inWord, by omega⟩
      · rintro ⟨⟨sums, laterSums⟩, inWord, filled⟩
        have fits : before + reservedTotal entry.files < 2 ^ 32 := by omega
        obtain ⟨first, reserved⟩ :=
          (own before _ word).mpr ⟨sums, fits, rfl⟩
        obtain ⟨rest, looped⟩ :=
          (inductionHypothesis later fits).mpr ⟨laterSums, inWord, by omega⟩
        refine ⟨first :: rest, ?_⟩
        rw [reserveChilds, bind_run_of_ok _ reserved, bind_run_of_ok _ looped]
        rfl

theorem reserveFileSpace_returns_iff (tree : DirectoryEntry) :
    ReturnsWithin tree := by
  induction tree using DirectoryEntry.induction with
  | step tree inductionHypothesis =>
      intro before after word
      rw [DirectoryEntry.files_eq, sumsFit_append, reservedTotal_append]
      constructor
      · rintro ⟨planned, returned⟩
        obtain ⟨middle, _, files, looped⟩ := reserveFileSpace_run_ok returned
        obtain ⟨sums, middleWord, moved⟩ :=
          (reserveFiles_returns_iff word).mp ⟨_, files⟩
        obtain ⟨laterSums, inWord, filled⟩ :=
          (reserveChilds_returns_iff inductionHypothesis middleWord).mp
            ⟨_, looped⟩
        exact ⟨⟨sums, laterSums⟩, inWord, by omega⟩
      · rintro ⟨⟨sums, laterSums⟩, inWord, filled⟩
        have fits : before + reservedTotal tree.filesChilds < 2 ^ 32 := by
          omega
        obtain ⟨files, reserved⟩ :=
          (reserveFiles_returns_iff word).mpr ⟨sums, fits, rfl⟩
        obtain ⟨childs, looped⟩ :=
          (reserveChilds_returns_iff inductionHypothesis fits).mpr
            ⟨laterSums, inWord, by omega⟩
        cases tree with
        | mk index parent path dirChilds filesChilds area lba =>
            refine ⟨⟨index, parent, path, childs, files, area, lba⟩, ?_⟩
            rw [reserveFileSpace, bind_run_of_ok _ reserved,
              bind_run_of_ok _ looped]
            rfl

/-! ## The positions of the writers -/

/-- The writer seeks to the position for the body and back behind it. -/
def PositionsAt (position : Nat) (body writer : Writer Unit) : Prop :=
  ∀ output, writer.run output = (Output.writeAt position body).run output

/-- A position is right exactly if the `u32` product is. -/
theorem positionsAt_iff (lba : Nat) (body : Writer Unit) :
    PositionsAt (logicSize * lba) body
        (do
          let start ← MonadExcept.ofExcept (mulU32 lba logicSize)
          Output.writeAt start body) ↔
      lba < 2 ^ 21 := by
  constructor
  · intro positions
    by_contra far
    have overflows : mulU32 lba logicSize = .error (.panic .overflow) := by
      unfold mulU32 logicSize
      exact if_neg (by omega)
    -- the body cannot know which position the output came from
    have fails (output : Output Origin) :
        body.run (output.seeked (logicSize * lba)) =
          .error (.panic .overflow) output := by
      rw [← Output.writeAt_run_error, ← positions output, overflows]
      rfl
    have first := fails Output.empty
    have second := fails (Output.empty.seeked 1)
    change body.run (Output.empty.seeked (logicSize * lba)) = _ at second
    rw [first] at second
    injection second with _ same
    exact absurd (congrArg Output.position same) (by decide)
  · intro near output
    have fits : mulU32 lba logicSize = .ok (logicSize * lba) := by
      rw [mulU32_eq_ok]
      unfold logicSize
      exact ⟨by omega, by omega⟩
    rw [fits]
    rfl

/-- The contents of a file and their padding. -/
def contentBody (file : FileEntry) : Writer Unit := do
  Output.writeAll .file file.contents
  padToBlock .file

/-- What `write_extent` does at the position of its directory. -/
def extentBody (clock : Clock) (place : List Nat)
    (parentOption : Option DirectoryEntry) (tree : DirectoryEntry) :
    Writer Unit := do
  writeDirectoryEntry clock (.extent place)
    (if parentOption.isNone then 3 else 1) tree
  writeDirectoryEntry clock (.extent place) 2
    (parentOption.getD (emptyParent tree.lba))
  writeExtentChilds clock place tree 0 tree.dirChilds
  tree.filesChilds.forM (writeFileEntry clock (.extent place))
  padToBlock (.extent place)
  writeContinuationArea tree

theorem writeExtent_eq (clock : Clock) (place : List Nat)
    (parentOption : Option DirectoryEntry) (tree : DirectoryEntry) :
    writeExtent clock place parentOption tree =
      (do
        let start ← MonadExcept.ofExcept (mulU32 tree.lba logicSize)
        Output.writeAt start (extentBody clock place parentOption tree)) := by
  cases tree
  rfl

theorem writeContent_positionsAt_iff (file : FileEntry) :
    PositionsAt (logicSize * file.lba) (contentBody file) (writeContent file) ↔
      file.lba < 2 ^ 21 :=
  positionsAt_iff file.lba (contentBody file)

theorem writeExtent_positionsAt_iff (clock : Clock) (place : List Nat)
    (parentOption : Option DirectoryEntry) (tree : DirectoryEntry) :
    PositionsAt (logicSize * tree.lba) (extentBody clock place parentOption tree)
        (writeExtent clock place parentOption tree) ↔
      tree.lba < 2 ^ 21 := by
  rw [writeExtent_eq]
  exact positionsAt_iff tree.lba _

/-! ## The arithmetic of a tree -/

/-- As many blocks as the contents of the file fill or begin. -/
def FileEntry.wholeBlocks (file : FileEntry) : Range :=
  ⟨file.lba, (file.size + (logicSize - 1)) / logicSize⟩

/-- The second traversal returns and gives each file its blocks, and all
writers position the output at the product of the block and its size. -/
def BlocksFaithful (currentLba : Nat) (tree : DirectoryEntry) : Prop :=
  ∃ planned finalLba,
    (reserveFileSpace tree).run currentLba = .ok planned finalLba ∧
      Ascending currentLba finalLba
        (planned.files.map FileEntry.wholeBlocks) ∧
      (∀ file ∈ planned.files,
        PositionsAt (logicSize * file.lba) (contentBody file)
          (writeContent file)) ∧
      ∀ directory ∈ planned.directories, ∀ clock place parentOption,
        PositionsAt (logicSize * directory.lba)
          (extentBody clock place parentOption directory)
          (writeExtent clock place parentOption directory)

/-- The blocks of the files by their sizes: one for each whole block of the
contents, and one more. -/
def sizeBlocks (files : List FileEntry) : Nat :=
  (files.map fun file => file.size / logicSize + 1).sum

theorem sizeBlocks_append (first second : List FileEntry) :
    sizeBlocks (first ++ second) = sizeBlocks first + sizeBlocks second := by
  unfold sizeBlocks
  rw [List.map_append, List.sum_append]

/-- Each size has room for a block in the word, and each file and directory
begins in front of block 2^21. -/
structure BlocksFit (currentLba : Nat) (tree : DirectoryEntry) : Prop where
  sizes : ∀ file ∈ tree.files, file.size + logicSize < 2 ^ 32
  starts :
    ∀ front file back, tree.files = front ++ file :: back →
      currentLba + sizeBlocks front < 2 ^ 21
  directories : ∀ directory ∈ tree.directories, directory.lba < 2 ^ 21

theorem reservedTotal_of_small {files : List FileEntry}
    (small : ∀ file ∈ files, file.size < 2 ^ 32) :
    reservedTotal files = sizeBlocks files := by
  induction files with
  | nil => rfl
  | cons file files inductionHypothesis =>
      have fits := small file (by simp)
      have own : file.reserved.count = sizeBlocks [file] := by
        change
          (file.size % 2 ^ 32 + logicSize) / logicSize =
            file.size / logicSize + 1
        unfold logicSize
        omega
      rw [reservedTotal_cons, own,
        inductionHypothesis fun later member => small later (by simp [member])]
      exact (sizeBlocks_append [file] files).symm

theorem reservedTotal_of_unplaced {files placed : List FileEntry}
    (same : placed.map FileEntry.unplaced = files.map FileEntry.unplaced) :
    reservedTotal placed = reservedTotal files := by
  have counts :=
    congrArg (List.map fun file : FileEntry => file.reserved.count) same
  rw [List.map_map, List.map_map] at counts
  apply total_congr
  rw [List.map_map, List.map_map]
  exact counts

theorem split_of_unplaced {files placed front back : List FileEntry}
    {file : FileEntry}
    (same : placed.map FileEntry.unplaced = files.map FileEntry.unplaced)
    (split : files = front ++ file :: back) :
    ∃ placedFront there placedBack,
      placed = placedFront ++ there :: placedBack ∧
        placedFront.map FileEntry.unplaced = front.map FileEntry.unplaced ∧
        there.unplaced = file.unplaced := by
  rw [split, List.map_append, List.map_cons, List.map_eq_append_iff] at same
  obtain ⟨placedFront, rest, rfl, sameFront, sameRest⟩ := same
  rw [List.map_eq_cons_iff] at sameRest
  obtain ⟨there, placedBack, rfl, sameFile, _⟩ := sameRest
  exact ⟨placedFront, there, placedBack, rfl, sameFront, sameFile⟩

/-- What a run of `reserve_file_space` says about the files. -/
structure PlacedFiles (before after : Nat) (files placed : List FileEntry) :
    Prop where
  sums : SumsFit files
  inWord : after < 2 ^ 32
  unplaced : placed.map FileEntry.unplaced = files.map FileEntry.unplaced
  ascending : Ascending before after (placed.map FileEntry.reserved)
  filled : before + reservedTotal placed = after

theorem placedFiles_of_run {tree planned : DirectoryEntry} {before after : Nat}
    (word : before < 2 ^ 32)
    (returned : (reserveFileSpace tree).run before = .ok planned after) :
    PlacedFiles before after tree.files planned.files := by
  obtain ⟨sums, inWord, filled⟩ :=
    (reserveFileSpace_returns_iff tree before after word).mp
      ⟨planned, returned⟩
  have reserves := reserveFileSpace_reserves tree _ _ _ returned
  have unplaced := reserves.unplaced
  have ascending := reserves.ascending
  rw [List.flatMap_singleton, List.flatMap_singleton] at unplaced
  rw [List.flatMap_singleton] at ascending
  refine ⟨sums, inWord, unplaced, ascending, ?_⟩
  rw [reservedTotal_of_unplaced unplaced]
  exact filled

namespace PlacedFiles

variable {before after : Nat} {files placed : List FileEntry}

/-- Each file begins behind the blocks of the files in front of it. -/
theorem start (known : PlacedFiles before after files placed)
    {front back : List FileEntry} {file : FileEntry}
    (split : placed = front ++ file :: back) :
    file.lba = before + reservedTotal front := by
  have ascending := known.ascending
  have filled := known.filled
  unfold reservedTotal at filled
  rw [split, List.map_append, List.map_cons] at ascending filled
  exact ascending.start_of_total filled

/-- The files have the blocks that they need exactly if no size has been cut
off. -/
theorem ascending_wholeBlocks_iff
    (known : PlacedFiles before after files placed) :
    Ascending before after (placed.map FileEntry.wholeBlocks) ↔
      ∀ file ∈ files, file.size < 2 ^ 32 := by
  constructor
  · intro whole file member
    have starts :
        List.Forall₂ (fun range long => long.start = range.start)
          (placed.map FileEntry.reserved) (placed.map FileEntry.wholeBlocks) := by
      rw [List.forall₂_map_left_iff, List.forall₂_map_right_iff]
      exact List.forall₂_same.mpr fun _ _ => rfl
    have counts :=
      Ascending.count_le_of_total starts known.ascending known.filled whole
    rw [List.forall₂_map_left_iff, List.forall₂_map_right_iff,
      List.forall₂_same] at counts
    obtain ⟨front, back, split⟩ := List.append_of_mem member
    obtain ⟨_, there, _, placedSplit, _, same⟩ :=
      split_of_unplaced known.unplaced split
    have short := counts there (by rw [placedSplit]; simp)
    have sizes : there.unplaced.size = file.unplaced.size := by rw [same]
    change there.size = file.size at sizes
    have sum := known.sums file member
    simp only [FileEntry.wholeBlocks, FileEntry.reserved, sizes,
      logicSize] at short sum
    omega
  · intro small
    have placedSmall := small_of_unplaced known.unplaced small
    refine known.ascending.shorten ?_
    rw [List.forall₂_map_left_iff, List.forall₂_map_right_iff, List.forall₂_same]
    intro file member
    have fits := placedSmall file member
    refine ⟨rfl, ?_⟩
    simp only [FileEntry.wholeBlocks, FileEntry.reserved, logicSize]
    omega

/-- The places of the files by the sizes of those in front. -/
theorem lba_lt_iff (known : PlacedFiles before after files placed)
    (small : ∀ file ∈ files, file.size < 2 ^ 32) (limit : Nat) :
    (∀ file ∈ placed, file.lba < limit) ↔
      ∀ front file back, files = front ++ file :: back →
        before + sizeBlocks front < limit := by
  have frontBlocks {front back placedFront : List FileEntry} {file : FileEntry}
      (split : files = front ++ file :: back)
      (same : placedFront.map FileEntry.unplaced = front.map FileEntry.unplaced) :
      reservedTotal placedFront = sizeBlocks front := by
    rw [reservedTotal_of_unplaced same]
    apply reservedTotal_of_small
    intro other member
    exact small other (by rw [split]; simp [member])
  constructor
  · intro near front file back split
    obtain ⟨placedFront, there, placedBack, placedSplit, sameFront, _⟩ :=
      split_of_unplaced known.unplaced split
    rw [← frontBlocks split sameFront, ← known.start placedSplit]
    exact near there (by rw [placedSplit]; simp)
  · intro starts there member
    obtain ⟨placedFront, placedBack, placedSplit⟩ := List.append_of_mem member
    obtain ⟨front, file, back, split, sameFront, _⟩ :=
      split_of_unplaced known.unplaced.symm placedSplit
    rw [known.start placedSplit, frontBlocks split sameFront.symm]
    exact starts front file back split

end PlacedFiles

theorem directories_lba_iff {tree planned : DirectoryEntry} {before after : Nat}
    (returned : (reserveFileSpace tree).run before = .ok planned after)
    (limit : Nat) :
    (∀ directory ∈ planned.directories, directory.lba < limit) ↔
      ∀ directory ∈ tree.directories, directory.lba < limit := by
  have places (entry : DirectoryEntry) :
      (∀ directory ∈ entry.directories, directory.lba < limit) ↔
        ∀ lba ∈ entry.directories.map DirectoryEntry.lba, lba < limit := by
    rw [List.forall_mem_map]
  rw [places planned, places tree, reserve_lbas returned]

/-- The counter stays in the word when the last file begins early enough. -/
theorem BlocksFit.inWord {currentLba : Nat} {tree : DirectoryEntry}
    (fit : BlocksFit currentLba tree) (word : currentLba < 2 ^ 32) :
    currentLba + sizeBlocks tree.files < 2 ^ 32 := by
  rcases List.eq_nil_or_concat tree.files with none | ⟨front, file, split⟩
  · rw [none]
    exact word
  · have start :=
      fit.starts front file [] (by rw [split, List.concat_eq_append])
    have size := fit.sizes file (by rw [split]; simp)
    have own : sizeBlocks [file] = file.size / logicSize + 1 := rfl
    rw [split, List.concat_eq_append, sizeBlocks_append, own]
    unfold logicSize at size ⊢
    omega

/-- The arithmetic of a tree is faithful exactly if its sizes and its places
leave the products in the word. -/
theorem blocksFaithful_iff {currentLba : Nat} {tree : DirectoryEntry}
    (word : currentLba < 2 ^ 32) :
    BlocksFaithful currentLba tree ↔ BlocksFit currentLba tree := by
  constructor
  · rintro ⟨planned, finalLba, returned, whole, contents, extents⟩
    have known := placedFiles_of_run word returned
    have small := known.ascending_wholeBlocks_iff.mp whole
    constructor
    · intro file member
      have sum := known.sums file member
      rw [Nat.mod_eq_of_lt (small file member)] at sum
      exact sum
    · apply (known.lba_lt_iff small _).mp
      intro file member
      exact (writeContent_positionsAt_iff file).mp (contents file member)
    · apply (directories_lba_iff returned _).mp
      intro directory member
      exact (writeExtent_positionsAt_iff fixedClock [] none directory).mp
        (extents directory member fixedClock [] none)
  · intro fit
    have small : ∀ file ∈ tree.files, file.size < 2 ^ 32 := by
      intro file member
      have size := fit.sizes file member
      omega
    have sums : SumsFit tree.files := by
      intro file member
      rw [Nat.mod_eq_of_lt (small file member)]
      exact fit.sizes file member
    obtain ⟨planned, returned⟩ :=
      (reserveFileSpace_returns_iff tree currentLba
        (currentLba + sizeBlocks tree.files) word).mpr
        ⟨sums, fit.inWord word, by rw [reservedTotal_of_small small]⟩
    have known := placedFiles_of_run word returned
    refine ⟨planned, _, returned, known.ascending_wholeBlocks_iff.mpr small,
      ?_, ?_⟩
    · intro file member
      apply (writeContent_positionsAt_iff file).mpr
      exact (known.lba_lt_iff small _).mpr fit.starts file member
    · intro directory member clock place parentOption
      apply (writeExtent_positionsAt_iff clock place parentOption directory).mpr
      exact (directories_lba_iff returned _).mpr fit.directories directory member

/-! ## Sizes at the limits -/

/-- A file of zeros, as the scan describes it up to its aligned size. -/
def zeroFile (size : Nat) : FileEntry :=
  ⟨.regular (some (utf8 "zero.bin")) (List.replicate size 0), size, 0, 0⟩

/-- A root with files of zeros. -/
def zeroTree (sizes : List Nat) : DirectoryEntry :=
  { DirectoryEntry.new with
    path := some (utf8 "input")
    filesChilds := sizes.map zeroFile
    lba := 24 }

theorem zeroTree_files (sizes : List Nat) :
    (zeroTree sizes).files = sizes.map zeroFile := by
  rw [DirectoryEntry.files_eq]
  exact List.append_nil _

/-- Two files of which the first has two blocks. -/
theorem blocksFaithful_iff_zeroTree :
    BlocksFaithful 25 (zeroTree [2048, 1]) := by
  apply (blocksFaithful_iff (by decide)).mpr
  constructor
  · rw [zeroTree_files]
    decide
  · intro front file back split
    have whole : sizeBlocks (zeroTree [2048, 1]).files = 3 := by
      rw [zeroTree_files]
      decide
    rw [split, sizeBlocks_append] at whole
    omega
  · decide

/-- A file of 2^32 bytes gets one block, and behind a file of a little less the
product for the next one leaves the word. -/
theorem zeroTree_not_faithful :
    (∃ planned, (reserveFileSpace (zeroTree [2 ^ 32])).run 25 = .ok planned 26) ∧
      ¬ BlocksFaithful 25 (zeroTree [2 ^ 32]) ∧
      ¬ BlocksFaithful 25 (zeroTree [2 ^ 32 - 4096, 1]) := by
  refine ⟨?_, ?_, ?_⟩
  · rw [reserveFileSpace_returns_iff _ _ _ (by decide), zeroTree_files]
    refine ⟨?_, by decide, ?_⟩
    · intro file member
      rw [List.map_singleton, List.mem_singleton] at member
      subst member
      decide
    · rfl
  · rintro ⟨planned, finalLba, returned, whole, _⟩
    have known := placedFiles_of_run (by decide) returned
    have small := known.ascending_wholeBlocks_iff.mp whole
    have size := small (zeroFile (2 ^ 32)) (by rw [zeroTree_files]; simp)
    exact absurd size (by decide)
  · rintro ⟨planned, finalLba, returned, whole, contents, _⟩
    have known := placedFiles_of_run (by decide) returned
    have near :=
      (known.lba_lt_iff (known.ascending_wholeBlocks_iff.mp whole) (2 ^ 21)).mp
        fun file member =>
          (writeContent_positionsAt_iff file).mp (contents file member)
    have start := near [zeroFile (2 ^ 32 - 4096)] (zeroFile 1) []
      (zeroTree_files _)
    exact absurd start (by decide)

end RustKernel.Iso
