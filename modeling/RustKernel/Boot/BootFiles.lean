import RustKernel.Boot.LoaderRun

/-!
# The files that are started

The loader takes the first file of the boot image for the kernel.  The kernel
lists the files again, takes the first one for itself, whose pages its
processes share, and the second one for its driver.  Both print every name
first, so that one name that is cut in a character stops them.
-/

namespace RustKernel.Boot

open RustKernel.BootImage
open RustKernel.Foundations
open RustKernel.Loader
open RustKernel.Machine

/-! ## The kernel's side -/

/-- The loop that prints the names, in as many turns as the iterator has
files. -/
def listFilesFrom (image : BootImageFS) :
    Nat → FileIterator → Except Panic Unit
  | 0, _ => .ok ()
  | turns + 1, iterator => do
      let (next, iterator) ← image.next iterator
      match next with
      | none => return ()
      | some file => do
          let _ ← file.nameText
          listFilesFrom image turns iterator

/-- `files.next().unwrap()`, and the data of the file. -/
def takeFile (image : BootImageFS) (iterator : FileIterator) :
    Except Panic (ElfFile × FileIterator) := do
  let (next, iterator) ← image.next iterator
  match next with
  | none => .error .unwrap
  | some file => do
      let data ← image.fileData file
      return (⟨data⟩, iterator)

/-- The kernel and the driver, as `_start` of the kernel reads them. -/
def startFiles (image : BootImageFS) : Except Panic (ElfFile × ElfFile) := do
  let listed ← image.files
  listFilesFrom image listed.size listed
  let files ← image.files
  let (kernel, files) ← takeFile image files
  let (driver, _) ← takeFile image files
  return (kernel, driver)

/-! ## The loops over the files -/

section Loops

variable {image : BootImageFS} {iterator : FileIterator}
variable {headers : List FileHeader} {contents : List (List UInt8)}

/-- The files are printed, and the first one is kept. -/
theorem findKernelFrom_eq {turns : Nat} {kernel : Option ElfFile}
    (enough : headers.length ≤ turns)
    (pending : pendingHeaders image iterator = headers.map .ok)
    (read :
      List.Forall₂ (fun header data => image.fileData header = .ok data)
        headers contents) :
    findKernelFrom image turns iterator kernel =
      headers.mapM FileHeader.nameText >>= fun _ =>
        .ok (kernel.or (contents.head?.map ElfFile.mk)) := by
  induction turns generalizing iterator headers contents kernel with
  | zero =>
      rw [Nat.le_zero, List.length_eq_zero_iff] at enough
      subst enough
      cases read
      cases kernel <;> rfl
  | succ turns inductionHypothesis =>
      cases read with
      | nil =>
          obtain ⟨after, called, _⟩ :=
            (next_produces image).drained iterator pending
          rw [findKernelFrom, called]
          cases kernel <;> rfl
      | @cons header data headers contents found read =>
          obtain ⟨after, called, left⟩ :=
            (next_produces image).yielding iterator header _ pending
          rw [findKernelFrom, called, List.mapM_cons]
          simp only [bind, Except.bind]
          cases header.nameText with
          | error fault => rfl
          | ok text =>
              simp only [found, bind, Except.bind,
                inductionHypothesis (Nat.le_of_succ_le_succ enough) left read]
              cases headers.mapM FileHeader.nameText with
              | error fault => rfl
              | ok texts => cases kernel <;> rfl

theorem listFilesFrom_eq {turns : Nat} (enough : headers.length ≤ turns)
    (pending : pendingHeaders image iterator = headers.map .ok) :
    listFilesFrom image turns iterator =
      headers.mapM FileHeader.nameText >>= fun _ => .ok () := by
  induction turns generalizing iterator headers with
  | zero =>
      rw [Nat.le_zero, List.length_eq_zero_iff] at enough
      subst enough
      rfl
  | succ turns inductionHypothesis =>
      cases headers with
      | nil =>
          obtain ⟨after, called, _⟩ :=
            (next_produces image).drained iterator pending
          rw [listFilesFrom, called]
          rfl
      | cons header headers =>
          obtain ⟨after, called, left⟩ :=
            (next_produces image).yielding iterator header _ pending
          rw [listFilesFrom, called, List.mapM_cons]
          simp only [bind, Except.bind]
          cases header.nameText with
          | error fault => rfl
          | ok text =>
              simp only [bind, Except.bind,
                inductionHypothesis (Nat.le_of_succ_le_succ enough) left]
              cases headers.mapM FileHeader.nameText <;> rfl

theorem takeFile_nil (pending : pendingHeaders image iterator = []) :
    takeFile image iterator = .error .unwrap := by
  obtain ⟨after, called, _⟩ :=
    (next_produces image).drained iterator pending
  rw [takeFile, called]
  rfl

theorem takeFile_cons {header : FileHeader} {data : List UInt8}
    (pending :
      pendingHeaders image iterator = (header :: headers).map .ok)
    (found : image.fileData header = .ok data) :
    ∃ after, takeFile image iterator = .ok (⟨data⟩, after) ∧
      pendingHeaders image after = headers.map .ok := by
  obtain ⟨after, called, left⟩ :=
    (next_produces image).yielding iterator header _ pending
  refine ⟨after, ?_, left⟩
  rw [takeFile, called]
  simp only [bind, Except.bind, found]
  rfl

/-- The file that is kept stays. -/
theorem findKernelFrom_some {turns : Nat} {kernel : ElfFile}
    {found : Option ElfFile}
    (searched :
      findKernelFrom image turns iterator (some kernel) = .ok found) :
    found = some kernel := by
  induction turns generalizing iterator with
  | zero =>
      cases searched
      rfl
  | succ turns inductionHypothesis =>
      rw [findKernelFrom, except_bind_eq_ok] at searched
      obtain ⟨⟨next, after⟩, _, searched⟩ := searched
      cases next with
      | none =>
          cases searched
          rfl
      | some file =>
          simp only [except_bind_eq_ok] at searched
          obtain ⟨_, _, _, _, searched⟩ := searched
          exact inductionHypothesis searched

/-- The file that the loader keeps is the first one that is taken. -/
theorem findKernelFrom_takeFile {turns : Nat} {kernel own : ElfFile}
    {after : FileIterator}
    (searched :
      findKernelFrom image turns iterator none = .ok (some kernel))
    (taken : takeFile image iterator = .ok (own, after)) : own = kernel := by
  cases turns with
  | zero => cases searched
  | succ turns =>
      rw [findKernelFrom, except_bind_eq_ok] at searched
      obtain ⟨⟨next, later⟩, called, searched⟩ := searched
      rw [takeFile, called] at taken
      cases next with
      | none => cases searched
      | some file =>
          simp only [except_bind_eq_ok] at searched
          obtain ⟨_, _, data, read, searched⟩ := searched
          have kept := findKernelFrom_some searched
          simp only [bind, Except.bind, read] at taken
          cases taken
          exact (Option.some.inj kept).symm

/-- In every image, the kernel takes the file for itself that the loader has
loaded. -/
theorem startFiles_kernel {kernel own driver : ElfFile}
    (found : findKernel image = .ok (some kernel))
    (started : startFiles image = .ok (own, driver)) : own = kernel := by
  rw [findKernel, except_bind_eq_ok] at found
  obtain ⟨files, opened, searched⟩ := found
  simp only [startFiles, opened, except_bind_eq_ok, Except.ok.injEq]
    at started
  obtain ⟨_, rfl, _, _, _, rfl, ⟨itself, after⟩, taken, ⟨_, _⟩, _, made⟩ :=
    started
  cases made
  exact findKernelFrom_takeFile searched taken

end Loops

/-! ## The files of an image -/

section Image

variable {image : BootImageFS} {iterator : FileIterator}
variable {headers : List FileHeader} {contents : List (List UInt8)}

/-- The iterator of an image has the headers before it, and the contents are
where they say. -/
structure Lists (image : BootImageFS) (headers : List FileHeader)
    (contents : List (List UInt8)) : Prop where
  pending :
    ∃ iterator, image.files = .ok iterator ∧
      pendingHeaders image iterator = headers.map .ok ∧
        headers.length ≤ iterator.size
  read :
    List.Forall₂ (fun header data => image.fileData header = .ok data)
      headers contents

theorem Lists.findKernel (lists : Lists image headers contents) :
    findKernel image =
      headers.mapM FileHeader.nameText >>= fun _ =>
        .ok (contents.head?.map ElfFile.mk) := by
  obtain ⟨iterator, opened, pending, enough⟩ := lists.pending
  rw [Boot.findKernel, opened]
  simp only [bind, Except.bind]
  rw [findKernelFrom_eq enough pending lists.read]
  rfl

theorem Lists.startFiles (lists : Lists image headers contents) :
    startFiles image =
      headers.mapM FileHeader.nameText >>= fun _ =>
        match contents with
        | kernel :: driver :: _ => .ok (⟨kernel⟩, ⟨driver⟩)
        | _ => .error .unwrap := by
  obtain ⟨iterator, opened, pending, enough⟩ := lists.pending
  have read := lists.read
  rw [Boot.startFiles, opened]
  simp only [bind, Except.bind, listFilesFrom_eq enough pending]
  cases headers.mapM FileHeader.nameText with
  | error fault => rfl
  | ok texts =>
      cases read with
      | nil => simp only [takeFile_nil pending]
      | cons found read =>
          obtain ⟨after, taken, left⟩ := takeFile_cons pending found
          simp only [taken]
          cases read with
          | nil => simp only [takeFile_nil left]
          | cons other _ =>
              obtain ⟨last, again, _⟩ := takeFile_cons left other
              simp only [again]
              rfl

end Image

/-! ## Generated images -/

/-- The input file with a name in characters. -/
def inputFile (file : List Char × List UInt8) : InputFile :=
  ⟨encoded file.1, file.2⟩

theorem lists_generate {file : InputFile} {rest : List InputFile}
    (few : (file :: rest).length ≤ maxFiles)
    (someBytes : file.contents ≠ [])
    (fits : contentStart + (allContents (file :: rest)).length < 2 ^ 32) :
    ∃ output, generate (file :: rest) = .ok output ∧
      Lists ⟨output.contents⟩ (plannedHeaders (file :: rest) contentStart)
        ((file :: rest).map InputFile.contents) := by
  obtain ⟨output, generated, contents⟩ := generate_eq few someBytes fits
  have packable := plannedHeaders_packable fits
  have tableShape :
      output.contents =
        leBytes 2 (plannedHeaders (file :: rest) contentStart).length ++
          ((plannedHeaders (file :: rest) contentStart).flatMap
            FileHeader.bytes ++
            (headerPadding (file :: rest) ++
              allContents (file :: rest))) := by
    rw [contents, headerArea, plannedHeaders_length, List.append_assoc]
  have areaLength :
      (headerArea (file :: rest) ++ headerPadding (file :: rest)).length =
        contentStart := by
    have short := headerArea_length_le few fits
    simp only [headerPadding, List.length_append, List.length_replicate]
    omega
  refine ⟨output, generated, ⟨⟨2, 0, _⟩, ?_, ?_, Nat.le_refl _⟩, ?_⟩
  · rw [tableShape]
    apply files_of_layout
    rw [plannedHeaders_length]
    exact Nat.lt_of_le_of_lt few (by decide)
  · rw [tableShape]
    exact pendingHeaders_of_layout packable
  · rw [contents, ← List.append_assoc]
    rw [← areaLength] at fits ⊢
    rw [List.forall₂_map_right_iff]
    exact (fileData_of_layout fits).flip.imp fun _ _ found => found.2.2

theorem nameText_plannedHeader_iff (file : List Char × List UInt8)
    (offset : Nat) :
    (∃ text, (plannedHeader (inputFile file) offset).nameText = .ok text) ↔
      CutsAt 16 file.1 := by
  simp only [nameText_eq_ok]
  constructor
  · rintro ⟨text, valid⟩
    exact cutsAt_of_paddedName valid
  · intro cuts
    obtain ⟨front, count, _, valid⟩ := paddedName_of_cutsAt cuts
    exact ⟨_, valid⟩

/-- All names are printed exactly when none is cut in a character. -/
theorem plannedNames_iff {files : List (List Char × List UInt8)}
    {offset : Nat} :
    (∃ texts,
        (plannedHeaders (files.map inputFile) offset).mapM
          FileHeader.nameText = .ok texts) ↔
      ∀ file ∈ files, CutsAt 16 file.1 := by
  induction files generalizing offset with
  | nil => simp [plannedHeaders, pure, Except.pure]
  | cons file files inductionHypothesis =>
      rw [List.map_cons, plannedHeaders, List.forall_mem_cons,
        ← nameText_plannedHeader_iff file offset, ← inductionHypothesis]
      constructor
      · rintro ⟨_, mapped⟩
        obtain ⟨text, texts, first, later, _⟩ := mapM_cons_eq_ok.mp mapped
        exact ⟨⟨text, first⟩, texts, later⟩
      · rintro ⟨⟨text, first⟩, texts, later⟩
        exact ⟨text :: texts,
          mapM_cons_eq_ok.mpr ⟨text, texts, first, later, rfl⟩⟩

/-- The loader finds the kernel in a generated image, and the kernel finds
itself and its driver, exactly when no name is cut in a character. -/
theorem generated_files_started_iff (first : List Char × List UInt8)
    (rest : List (List Char × List UInt8))
    (few : (first :: rest).length ≤ maxFiles) (someBytes : first.2 ≠ [])
    (fits :
      contentStart + (allContents ((first :: rest).map inputFile)).length <
        2 ^ 32) :
    ∃ output, generate ((first :: rest).map inputFile) = .ok output ∧
      (∀ kernel,
        findKernel ⟨output.contents⟩ = .ok kernel ↔
          (∀ file ∈ first :: rest, CutsAt 16 file.1) ∧
            kernel = some ⟨first.2⟩) ∧
      ∀ kernel driver,
        startFiles ⟨output.contents⟩ = .ok (kernel, driver) ↔
          (∀ file ∈ first :: rest, CutsAt 16 file.1) ∧
            kernel = ⟨first.2⟩ ∧
            ∃ second others, rest = second :: others ∧
              driver = ⟨second.2⟩ := by
  have generates :
      ∃ output, generate ((first :: rest).map inputFile) = .ok output ∧
        Lists ⟨output.contents⟩
          (plannedHeaders ((first :: rest).map inputFile) contentStart)
          (((first :: rest).map inputFile).map InputFile.contents) :=
    lists_generate (by simpa using few) someBytes fits
  obtain ⟨output, generated, lists⟩ := generates
  have names :
      (∃ texts,
          (plannedHeaders ((first :: rest).map inputFile) contentStart).mapM
            FileHeader.nameText = .ok texts) ↔
        ∀ file ∈ first :: rest, CutsAt 16 file.1 :=
    plannedNames_iff
  refine ⟨output, generated, ?_, ?_⟩
  · intro kernel
    rw [lists.findKernel, except_bind_eq_ok, ← names]
    constructor
    · rintro ⟨texts, listed, kept⟩
      cases kept
      exact ⟨⟨texts, listed⟩, rfl⟩
    · rintro ⟨⟨texts, listed⟩, rfl⟩
      exact ⟨texts, listed, rfl⟩
  · intro kernel driver
    rw [lists.startFiles, except_bind_eq_ok, ← names]
    cases rest with
    | nil =>
        constructor
        · rintro ⟨texts, listed, taken⟩
          cases taken
        · rintro ⟨_, _, _, _, absurdity, _⟩
          cases absurdity
    | cons second others =>
        constructor
        · rintro ⟨texts, listed, taken⟩
          cases taken
          exact ⟨⟨texts, listed⟩, rfl, second, others, rfl, rfl⟩
        · rintro ⟨⟨texts, listed⟩, rfl, _, _, same, rfl⟩
          cases same
          exact ⟨texts, listed, rfl⟩

/-- A kernel and a driver. -/
theorem generated_files_started_iff_listed :
    ∃ output,
      generate
          ([("kernel".toList, [7]), ("libpci.a".toList, [])].map
            inputFile) = .ok output ∧
        findKernel ⟨output.contents⟩ = .ok (some ⟨[7]⟩) ∧
        startFiles ⟨output.contents⟩ = .ok (⟨[7]⟩, ⟨[]⟩) := by
  have cuts :
      ∀ file ∈ [("kernel".toList, [(7 : UInt8)]), ("libpci.a".toList, [])],
        CutsAt 16 file.1 := by
    decide
  obtain ⟨output, generated, found, started⟩ :=
    generated_files_started_iff ("kernel".toList, [7])
      [("libpci.a".toList, [])] (by decide) (by decide) (by decide)
  exact ⟨output, generated, (found _).mpr ⟨cuts, rfl⟩,
    (started _ _).mpr ⟨cuts, rfl, _, _, rfl, rfl⟩⟩

end RustKernel.Boot
