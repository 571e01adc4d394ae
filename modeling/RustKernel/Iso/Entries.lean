import Mathlib.Data.Int.Order.Basic
import RustKernel.Foundations.Run
import RustKernel.Machine.Address

/-!
# The entries of an ISO image

The tree of directories and files that the generator plans and writes, and the
functions that compute the sizes of its records.  Names are UTF-8 byte strings.
The arithmetic is that of the source: `u32` sums are checked, and positions and
sizes are cast to `i32` before they are aligned.
-/

namespace RustKernel.Iso

open RustKernel.Foundations
open RustKernel.Machine

/-- The generator panics, or returns an `io::Error`. -/
inductive Fault where
  | panic (reason : Panic)
  | error (text : String)
  deriving DecidableEq, Repr

/-- A file name, in UTF-8. -/
abbrev Name := List UInt8

def utf8 (text : String) : Name := text.toUTF8.toList

/-- `LOGIC_SIZE`, with its variants for other types. -/
def logicSize : Nat := 0x800

/-- `SECTOR_SIZE`. -/
def sectorSize : Nat := 0x200

/-! ## Arithmetic -/

/-- `a + b` on `u32`. -/
def addU32 (left right : Nat) : Except Fault Nat :=
  if left + right < 2 ^ 32 then
    .ok (left + right)
  else
    .error (.panic .overflow)

/-- `a - b` on `u32`. -/
def subU32 (left right : Nat) : Except Fault Nat :=
  if right ≤ left then .ok (left - right) else .error (.panic .overflow)

/-- `a * b` on `u32`. -/
def mulU32 (left right : Nat) : Except Fault Nat :=
  if left * right < 2 ^ 32 then
    .ok (left * right)
  else
    .error (.panic .overflow)

/-- `value as i32`. -/
def asI32 (value : Nat) : Int :=
  if value % 2 ^ 32 < 2 ^ 31 then
    (value % 2 ^ 32 : Nat)
  else
    (value % 2 ^ 32 : Nat) - 2 ^ 32

theorem addU32_eq_ok {left right total : Nat} :
    addU32 left right = .ok total ↔
      left + right < 2 ^ 32 ∧ total = left + right := by
  by_cases fits : left + right < 2 ^ 32
  · rw [addU32, if_pos fits, Except.ok.injEq, eq_comm]
    exact ⟨fun same => ⟨fits, same⟩, fun both => both.2⟩
  · rw [addU32, if_neg fits]
    constructor
    · intro absent
      cases absent
    · intro both
      exact absurd both.1 fits

theorem mulU32_eq_ok {left right product : Nat} :
    mulU32 left right = .ok product ↔
      left * right < 2 ^ 32 ∧ product = left * right := by
  by_cases fits : left * right < 2 ^ 32
  · rw [mulU32, if_pos fits, Except.ok.injEq, eq_comm]
    exact ⟨fun same => ⟨fits, same⟩, fun both => both.2⟩
  · rw [mulU32, if_neg fits]
    constructor
    · intro absent
      cases absent
    · intro both
      exact absurd both.1 fits

/-- `utils::align_up`, for paddings that are powers of two: the mask rounds
down to a multiple. -/
def alignUp (value padding : Int) : Except Fault Int :=
  if value + (padding - 1) < 2 ^ 31 then
    .ok ((value + (padding - 1)) / padding * padding)
  else
    .error (.panic .overflow)

/-- The bytes up to the next multiple of the logical block size. -/
def room (position : Nat) : Nat :=
  (logicSize - position % logicSize) % logicSize

/-- Casts to `i32` keep the distance to the next block. -/
theorem alignUp_sub {position : Nat} {aligned : Int}
    (computed : alignUp (asI32 position) logicSize = .ok aligned) :
    aligned - asI32 position = room position := by
  have same : asI32 position % 2048 = (position : Int) % 2048 := by
    unfold asI32
    split <;> omega
  unfold alignUp at computed
  split at computed
  · cases computed
    unfold room logicSize
    push_cast
    omega
  · cases computed

/-! ## Names -/

/-- `str::is_char_boundary`. -/
def isCharBoundary (text : Name) (index : Nat) : Bool :=
  match text[index]? with
  | none => index == text.length
  | some byte => byte < 0x80 || 0xC0 ≤ byte

/-- `&text[0..count]`. -/
def strPrefix (text : Name) (count : Nat) : Except Fault Name :=
  if count = 0 ∨ isCharBoundary text count then
    .ok (text.take count)
  else
    .error (.panic .sliceIndex)

/-- `utils::convert_name`. -/
def convertName (value : Name) : Except Fault Name := do
  let parts := value.splitOn 0x2E
  let fileName := parts.headD []
  let fileTruncatedSize := if 8 ≤ fileName.length then 8 else fileName.length
  let extension := (parts[1]?).getD []
  let extensionTruncatedSize :=
    if 3 < extension.length then 3 else extension.length
  let result ← strPrefix fileName fileTruncatedSize
  if extensionTruncatedSize ≠ 0 then
    let extension ← strPrefix extension extensionTruncatedSize
    return result ++ 0x2E :: extension
  else
    return result

/-- The identifier that `get_entry_size` measures. -/
def measuredIdentifier (directoryType : Nat) (fileNameCorrected : Name) :
    List UInt8 :=
  match directoryType with
  | 1 => [0]
  | 2 => [1]
  | 3 => [0]
  | 5 => [0]
  | _ => fileNameCorrected

/-- The sum of `get_entry_size`. -/
def entrySize (baseSize fileNameLen fileIdentifierLen directoryType
    paddingType : Nat) : Nat :=
  let fileIdentifierLen :=
    if fileIdentifierLen % 2 ≠ paddingType then
      fileIdentifierLen + 1
    else
      fileIdentifierLen
  let systemUseFieldSize :=
    (if directoryType < 5 then 0x2c else 0) +
      (if directoryType = 0 then 0x5 + fileNameLen else 0) +
      (if directoryType = 3 then 0x7 + 0x1c else 0)
  baseSize + fileIdentifierLen + systemUseFieldSize

/-- The name as the text of a panic shows it. -/
def shownName (fileName : Name) : String :=
  (String.fromUTF8? ⟨fileName.toArray⟩).getD ""

/-- `utils::get_entry_size`. -/
def getEntrySize (baseSize : Nat) (fileName : Name)
    (directoryType paddingType : Nat) : Except Fault Nat :=
  if 251 < fileName.length then
    .error (.panic (.message
      ("File name \"" ++ shownName fileName ++
        "\" is too big (max size is 251 bytes)")))
  else do
    let fileNameCorrected ← convertName fileName
    return entrySize baseSize fileName.length
      (measuredIdentifier directoryType fileNameCorrected).length
      directoryType paddingType

theorem getEntrySize_eq_ok {baseSize directoryType paddingType size : Nat}
    {fileName : Name} :
    getEntrySize baseSize fileName directoryType paddingType = .ok size ↔
      fileName.length ≤ 251 ∧
        ∃ fixed,
          convertName fileName = .ok fixed ∧
            size =
              entrySize baseSize fileName.length
                (measuredIdentifier directoryType fixed).length directoryType
                paddingType := by
  unfold getEntrySize
  by_cases long : 251 < fileName.length
  · rw [if_pos long]
    constructor
    · intro absent
      cases absent
    · intro both
      exact absurd both.1 (by omega)
  · rw [if_neg long, except_bind_eq_ok]
    constructor
    · intro computed
      obtain ⟨fixed, converted, closed⟩ := computed
      cases closed
      exact ⟨by omega, fixed, converted, rfl⟩
    · intro computed
      obtain ⟨_, fixed, converted, rfl⟩ := computed
      exact ⟨fixed, converted, rfl⟩

theorem strPrefix_length {text shortened : Name} {count : Nat}
    (taken : strPrefix text count = .ok shortened) :
    shortened.length ≤ count := by
  unfold strPrefix at taken
  split at taken
  · cases taken
    exact List.length_take_le count text
  · cases taken

/-- A converted name is eight bytes, a dot and three more at most. -/
theorem convertName_length {value fixed : Name}
    (converted : convertName value = .ok fixed) : fixed.length ≤ 12 := by
  unfold convertName at converted
  simp only at converted
  generalize value.splitOn 0x2E = parts at converted
  have three :
      (if 3 < ((parts[1]?).getD []).length then
        3
      else
        ((parts[1]?).getD []).length) ≤ 3 := by
    split <;> omega
  generalize
    (if 3 < ((parts[1]?).getD []).length then
      3
    else
      ((parts[1]?).getD []).length) = count at converted three
  rw [except_bind_eq_ok] at converted
  obtain ⟨result, taken, converted⟩ := converted
  have short := strPrefix_length taken
  have eight : result.length ≤ 8 := by
    split at short <;> omega
  by_cases extended : count ≠ 0
  · rw [if_pos extended, except_bind_eq_ok] at converted
    obtain ⟨extension, takenExtension, converted⟩ := converted
    have shortExtension := strPrefix_length takenExtension
    cases converted
    rw [List.length_append, List.length_cons]
    omega
  · rw [if_neg extended] at converted
    cases converted
    omega

/-! ## Files and directories -/

/-- `FileType`.  A regular file is known by the last component of its path, if
it has one that is UTF-8, and by what reading the path yields. -/
inductive FileType where
  | regular (path : Option Name) (contents : List UInt8)
  | buffer (name : Name) (data : List UInt8)
  deriving DecidableEq, Repr

structure FileEntry where
  fileType : FileType
  size : Nat
  lba : Nat
  alignedSize : Nat
  deriving DecidableEq, Repr

/-- `DirectoryEntry`.  Of the path, only the last component is ever read. -/
structure DirectoryEntry where
  pathTableIndex : Nat
  parentIndex : Nat
  path : Option Name
  dirChilds : List DirectoryEntry
  filesChilds : List FileEntry
  continuationArea : Option (List UInt8)
  lba : Nat

/-- `path.file_name().unwrap().to_str().unwrap()`. -/
def lastComponent (path : Option Name) : Except Fault Name :=
  match path with
  | none => .error (.panic .unwrap)
  | some name => .ok name

namespace FileEntry

/-- `FileEntry::get_file_name`. -/
def getFileName (file : FileEntry) : Except Fault Name :=
  match file.fileType with
  | .regular path _ => lastComponent path
  | .buffer name _ => .ok name

/-- What `open_content_provider` yields when it is read to its end. -/
def contents (file : FileEntry) : List UInt8 :=
  match file.fileType with
  | .regular _ contents => contents
  | .buffer _ data => data

/-- `FileEntry::get_entry_size`. -/
def getEntrySize (file : FileEntry) : Except Fault Nat := do
  let fileName ← file.getFileName
  Iso.getEntrySize (0x21 + 2) fileName 0 1

/-- `align_up(length as i32, LOGIC_SIZE_U32 as i32) as usize`. -/
def alignedLength (length : Nat) : Except Fault Nat := do
  let aligned ← alignUp (asI32 length) logicSize
  return (aligned % 2 ^ 64).toNat

/-- `FileEntry::update`. -/
def update (file : FileEntry) : Except Fault FileEntry :=
  match file.fileType with
  | .buffer _ data => do
      let alignedSize ← alignedLength data.length
      return { file with size := data.length, alignedSize := alignedSize }
  | .regular _ _ => .error (.panic (.message "not implemented"))

/-- `FileEntry::new_buffered`. -/
def newBuffered (name : Name) : FileEntry :=
  ⟨.buffer name [], 0, 0, 0⟩

end FileEntry

namespace DirectoryEntry

/-- `DirectoryEntry::new`. -/
def new : DirectoryEntry := ⟨0, 0, none, [], [], none, 0⟩

/-- A directory of a name, before anything is planned. -/
def named (name : Name) (dirChilds : List DirectoryEntry)
    (filesChilds : List FileEntry) : DirectoryEntry :=
  { new with
    path := some name
    dirChilds := dirChilds
    filesChilds := filesChilds }

/-- What holds of an entry when it holds of its children holds of all. -/
theorem induction {P : DirectoryEntry → Prop}
    (step : ∀ entry, (∀ child ∈ entry.dirChilds, P child) → P entry)
    (entry : DirectoryEntry) : P entry := by
  refine @DirectoryEntry.rec P (fun entries => ∀ child ∈ entries, P child)
    ?_ ?_ ?_ entry
  · intro pathTableIndex parentIndex path dirChilds filesChilds area lba each
    exact step _ each
  · simp
  · intro head tail holds each
    exact List.forall_mem_cons.mpr ⟨holds, each⟩

mutual

/-- The directories of a tree, every one before its children. -/
def directories : DirectoryEntry → List DirectoryEntry
  | entry@⟨_, _, _, dirChilds, _, _, _⟩ => entry :: directoriesOf dirChilds

def directoriesOf : List DirectoryEntry → List DirectoryEntry
  | [] => []
  | entry :: entries => entry.directories ++ directoriesOf entries

end

mutual

/-- The files of a tree, those of a directory before those of its
children. -/
def files : DirectoryEntry → List FileEntry
  | ⟨_, _, _, dirChilds, filesChilds, _, _⟩ => filesChilds ++ filesOf dirChilds

def filesOf : List DirectoryEntry → List FileEntry
  | [] => []
  | entry :: entries => entry.files ++ filesOf entries

end

theorem directoriesOf_eq (entries : List DirectoryEntry) :
    directoriesOf entries = entries.flatMap directories := by
  induction entries with
  | nil => rfl
  | cons entry entries inductionHypothesis =>
      rw [directoriesOf, inductionHypothesis, List.flatMap_cons]

theorem directories_eq (entry : DirectoryEntry) :
    entry.directories = entry :: entry.dirChilds.flatMap directories := by
  rw [← directoriesOf_eq]
  cases entry
  rfl

theorem filesOf_eq (entries : List DirectoryEntry) :
    filesOf entries = entries.flatMap files := by
  induction entries with
  | nil => rfl
  | cons entry entries inductionHypothesis =>
      rw [filesOf, inductionHypothesis, List.flatMap_cons]

theorem files_eq (entry : DirectoryEntry) :
    entry.files = entry.filesChilds ++ entry.dirChilds.flatMap files := by
  rw [← filesOf_eq]
  cases entry
  rfl

/-- `DirectoryEntry::get_file_name`. -/
def getFileName (entry : DirectoryEntry) : Except Fault Name :=
  lastComponent entry.path

/-- `DirectoryEntry::get_entry_size`. -/
def getEntrySize (entry : DirectoryEntry) (directoryType : Option Nat) :
    Except Fault Nat := do
  let fileName ← entry.getFileName
  Iso.getEntrySize 0x21 fileName (directoryType.getD 0) 1

/-- The body of the two loops of `get_extent_size_in_lb`. -/
def extentStep (counted : Nat × Nat) (entrySize : Nat) :
    Except Fault (Nat × Nat) := do
  let expectedAlignedSize ← alignUp (asI32 counted.2) logicSize
  let availableSizeInLb := expectedAlignedSize - asI32 counted.2
  if availableSizeInLb < entrySize ∧ availableSizeInLb ≠ 0 then
    return (counted.1 + 1, entrySize)
  else
    return (counted.1, counted.2 + entrySize)

/-- `DirectoryEntry::get_extent_size_in_lb`. -/
def getExtentSizeInLb (entry : DirectoryEntry) : Except Fault Nat := do
  let current ← entry.getEntrySize (some 3)
  let parent ← entry.getEntrySize (some 2)
  let counted ← entry.dirChilds.foldlM
    (fun counted child => do
      let entrySize ← child.getEntrySize (some 0)
      extentStep counted entrySize)
    (1, current + parent)
  let counted ← entry.filesChilds.foldlM
    (fun counted child => do
      let entrySize ← child.getEntrySize
      extentStep counted entrySize)
    counted
  return counted.1

mutual

/-- `DirectoryEntry::get_path_table_size`. -/
def getPathTableSize : DirectoryEntry → Except Fault Nat
  | ⟨pathTableIndex, _, path, dirChilds, _, _, _⟩ => do
      let fileName ← lastComponent path
      let directoryType := if pathTableIndex = 1 then 5 else 6
      let size ← Iso.getEntrySize 0x8 fileName directoryType 0
      pathTableSizes size dirChilds

/-- The loop of `get_path_table_size`. -/
def pathTableSizes (res : Nat) : List DirectoryEntry → Except Fault Nat
  | [] => .ok res
  | entry :: entries => do
      let size ← entry.getPathTableSize
      let res ← addU32 res size
      pathTableSizes res entries

end

/-! ## Lookups -/

/-- `DirectoryEntry::get_directory`, in a list of children. -/
def findDirectory (dirName : Name) :
    List DirectoryEntry → Except Fault (Option DirectoryEntry)
  | [] => .ok none
  | child :: rest => do
      let fileName ← child.getFileName
      if fileName = dirName then
        return some child
      else
        findDirectory dirName rest

/-- The last loop of `get_file`. -/
def findFile (name : Name) :
    List FileEntry → Except Fault (Option FileEntry)
  | [] => .ok none
  | child :: rest => do
      let fileName ← child.getFileName
      if fileName = name then
        return some child
      else
        findFile name rest

/-- `get_file` along the components of a path. -/
def getFileAlong (entry : DirectoryEntry) :
    List Name → Except Fault (Option FileEntry)
  | [] => .ok none
  | [name] => findFile name entry.filesChilds
  | dirName :: components => do
      match ← findDirectory dirName entry.dirChilds with
      | none => return none
      | some child => child.getFileAlong components

/-- `DirectoryEntry::get_file`. -/
def getFile (entry : DirectoryEntry) (path : Name) :
    Except Fault (Option FileEntry) :=
  entry.getFileAlong (path.splitOn 0x2F)

/-- Puts a file in the place of the first one with its name. -/
def replaceFile (name : Name) (file : FileEntry) :
    List FileEntry → Except Fault (List FileEntry)
  | [] => .ok []
  | child :: rest => do
      let fileName ← child.getFileName
      if fileName = name then
        return file :: rest
      else
        return child :: (← replaceFile name file rest)

/-- Puts a directory in the place of the first one with its name. -/
def replaceDirectory (name : Name) (directory : DirectoryEntry) :
    List DirectoryEntry → Except Fault (List DirectoryEntry)
  | [] => .ok []
  | child :: rest => do
      let fileName ← child.getFileName
      if fileName = name then
        return directory :: rest
      else
        return child :: (← replaceDirectory name directory rest)

/-- The tree after an assignment through what `get_file` returns. -/
def setFileAlong (entry : DirectoryEntry) (file : FileEntry) :
    List Name → Except Fault DirectoryEntry
  | [] => .ok entry
  | [name] => do
      let filesChilds ← replaceFile name file entry.filesChilds
      return { entry with filesChilds := filesChilds }
  | dirName :: components => do
      match ← findDirectory dirName entry.dirChilds with
      | none => return entry
      | some child =>
          let child ← child.setFileAlong file components
          let dirChilds ← replaceDirectory dirName child entry.dirChilds
          return { entry with dirChilds := dirChilds }

def setFile (entry : DirectoryEntry) (path : Name) (file : FileEntry) :
    Except Fault DirectoryEntry :=
  entry.setFileAlong file (path.splitOn 0x2F)

/-- `DirectoryEntry::add_file`. -/
def addFile (entry : DirectoryEntry) (file : FileEntry) : DirectoryEntry :=
  { entry with filesChilds := entry.filesChilds ++ [file] }

end DirectoryEntry

end RustKernel.Iso
