import RustKernel.Foundations.Output
import RustKernel.Iso.Entries

/-!
# The writers of directories and files

The functions that write the path tables, the records of directories and
files, the extents and the contents.  The fields of one record are gathered
into one byte string.  Every write carries a note of what it belongs to; the
extent of a directory is known by the place of the directory in the tree.
-/

namespace RustKernel.Iso

open RustKernel.Foundations
open RustKernel.Machine

/-- The type argument of `write_u32` and its siblings. -/
inductive ByteOrder where
  | littleEndian
  | bigEndian
  deriving DecidableEq, Repr

namespace ByteOrder

def bytes : ByteOrder → Nat → Nat → List UInt8
  | .littleEndian => leBytes
  | .bigEndian => beBytes

def value : ByteOrder → List UInt8 → Nat
  | .littleEndian => leValue
  | .bigEndian => beValue

@[simp]
theorem bytes_length (order : ByteOrder) (width value : Nat) :
    (order.bytes width value).length = width := by
  cases order with
  | littleEndian => exact leBytes_length width value
  | bigEndian => exact beBytes_length width value

theorem value_bytes (order : ByteOrder) (width value : Nat) :
    order.value (order.bytes width value) = value % 256 ^ width := by
  cases order with
  | littleEndian => exact leValue_leBytes width value
  | bigEndian => exact beValue_beBytes width value

theorem value_bytes_of_lt (order : ByteOrder) {width value : Nat}
    (fits : value < 256 ^ width) :
    order.value (order.bytes width value) = value := by
  rw [order.value_bytes, Nat.mod_eq_of_lt fits]

end ByteOrder

/-- `write_bothendian!`. -/
def bothEndian (width value : Nat) : List UInt8 :=
  leBytes width value ++ beBytes width value

@[simp]
theorem bothEndian_length (width value : Nat) :
    (bothEndian width value).length = 2 * width := by
  rw [bothEndian, List.length_append, leBytes_length, beBytes_length]
  omega

/-- What a write belongs to.  A place is the list of the indices of children
that leads to a directory. -/
inductive Origin where
  | systemArea
  | volumeDescriptor
  | mki
  | pathTable (order : ByteOrder)
  | extent (place : List Nat)
  | continuationArea
  | file
  | trailer
  deriving DecidableEq, Repr

/-- A reading of `Utc::now()`, some time after 1900. -/
structure DateTime where
  year : Nat
  month : Nat
  day : Nat
  hour : Nat
  minute : Nat
  second : Nat
  deriving DecidableEq, Repr

/-- The time at which a number of writes has been made. -/
abbrev Clock := Nat → DateTime

abbrev Writer := EStateM Fault (Output Origin)

open Output

/-- Pads to the next logical block. -/
def padToBlock (origin : Origin) : Writer Unit := do
  let currentPos ← streamPosition
  writeZeros origin (room currentPos)

/-! ## Path tables -/

/-- The fields of a record of the path table. -/
def pathRecordBytes (order : ByteOrder) (lba parentIndex : Nat)
    (fileIdentifier : List UInt8) : List UInt8 :=
  [UInt8.ofNat fileIdentifier.length, 0] ++ order.bytes 4 lba ++
    order.bytes 2 parentIndex ++ fileIdentifier ++
    List.replicate (fileIdentifier.length % 2) 0

/-- The bytes of `write_path_table_entry`. -/
def pathTableRecord (order : ByteOrder) (directoryType : Nat)
    (entry : DirectoryEntry) : Except Fault (List UInt8) := do
  let fileName ← entry.getFileName
  let fileNameFixed ← convertName fileName
  let fileIdentifier := if directoryType = 1 then [0] else fileNameFixed
  return pathRecordBytes order entry.lba entry.parentIndex fileIdentifier

/-- `write_path_table_entry`. -/
def writePathTableEntry (order : ByteOrder) (directoryType : Nat)
    (entry : DirectoryEntry) : Writer Unit := do
  let record ←
    MonadExcept.ofExcept (pathTableRecord order directoryType entry)
  writeAll (.pathTable order) record

mutual

/-- `write_path_table_childs`. -/
def writePathTableChilds (order : ByteOrder) : DirectoryEntry → Writer Unit
  | ⟨_, _, _, dirChilds, _, _, _⟩ => do
      dirChilds.forM (writePathTableEntry order 0)
      writePathTableBelow order dirChilds

/-- The second loop of `write_path_table_childs`. -/
def writePathTableBelow (order : ByteOrder) :
    List DirectoryEntry → Writer Unit
  | [] => return ()
  | entry :: entries => do
      writePathTableChilds order entry
      writePathTableBelow order entries

end

/-- The assertion of `write_path_table`. -/
def assertPathTableSize (writtenSize pathTableSize : Nat) : Writer Unit :=
  if writtenSize = pathTableSize then
    return ()
  else
    throw (.panic (.message
      "assertion failed: written_size == (self.get_path_table_size() as usize)"))

/-- `write_path_table`. -/
def writePathTable (order : ByteOrder) (tree : DirectoryEntry)
    (pathTablePos : Nat) : Writer Unit := do
  let start ← MonadExcept.ofExcept (mulU32 pathTablePos logicSize)
  writeAt start do
    writePathTableEntry order 1 tree
    writePathTableChilds order tree
    let currentPos ← streamPosition
    let pathTableSize ← MonadExcept.ofExcept tree.getPathTableSize
    assertPathTableSize (currentPos - start) pathTableSize
    padToBlock (.pathTable order)

/-! ## Records -/

/-- The seven bytes of the date of a record. -/
def recordDate (now : DateTime) : List UInt8 :=
  [UInt8.ofNat (now.year - 1900), UInt8.ofNat now.month,
    UInt8.ofNat now.day, UInt8.ofNat now.hour, UInt8.ofNat now.minute,
    UInt8.ofNat now.second, 0]

/-- The fields of a record up to its identifier and the padding behind it. -/
def recordHeader (fileEntrySize lba extentSize : Nat) (now : DateTime)
    (flags : UInt8) (fileIdentifier : List UInt8) : List UInt8 :=
  [UInt8.ofNat fileEntrySize, 0] ++ bothEndian 4 lba ++
    bothEndian 4 extentSize ++ recordDate now ++ [flags, 0, 0] ++
    bothEndian 2 1 ++ [UInt8.ofNat fileIdentifier.length] ++
    fileIdentifier ++
    List.replicate (1 - fileIdentifier.length % 2) 0

/-- The `PX` entry of Rock Ridge. -/
def rockRidgePx (fileMode serialNumber : Nat) : List UInt8 :=
  utf8 "PX" ++ [0x2c, 0x1] ++ bothEndian 4 fileMode ++ bothEndian 4 1 ++
    bothEndian 4 0 ++ bothEndian 4 0 ++ bothEndian 4 serialNumber

/-- The `NM` entry of Rock Ridge; its length is a sum of `u8`. -/
def rockRidgeNm (fileName : Name) : Except Fault (List UInt8) :=
  if 5 + fileName.length % 256 < 256 then
    .ok (utf8 "NM" ++
      [UInt8.ofNat (5 + fileName.length % 256), 0x1, 0x0] ++ fileName)
  else
    .error (.panic .overflow)

/-- The `SP` entry, and the `CE` entry when there is a continuation area. -/
def suspEntries (entry : DirectoryEntry) (extentSize : Nat) :
    Except Fault (List UInt8) := do
  let sp := utf8 "SP" ++ [0x7, 0x1, 0xBE, 0xEF, 0x0]
  match entry.continuationArea with
  | none => return sp
  | some continuationArea =>
      let block ← addU32 entry.lba extentSize
      return sp ++ (utf8 "CE" ++ [0x1c, 0x1] ++ bothEndian 4 block ++
        bothEndian 4 0 ++ bothEndian 4 continuationArea.length)

/-- The identifiers of `write_entry`. -/
def recordIdentifier (directoryType : Nat) (fileNameFixed : Name) :
    List UInt8 :=
  match directoryType with
  | 1 => [0]
  | 2 => [1]
  | 3 => [0]
  | 4 => [1]
  | 5 => [0]
  | _ => fileNameFixed

/-- The SUSP entries of a record, which only the root has. -/
def recordSusp (entry : DirectoryEntry) (directoryType extentSize : Nat) :
    Except Fault (List UInt8) :=
  if directoryType = 3 then suspEntries entry extentSize else .ok []

/-- The `PX` entry of a record, which the volume descriptor leaves out. -/
def recordPx (entry : DirectoryEntry) (directoryType : Nat) :
    Except Fault (List UInt8) :=
  if directoryType < 5 then
    (rockRidgePx 0o040755) <$> addU32 entry.lba entry.pathTableIndex
  else
    .ok []

/-- The `NM` entry of a record, which only children have. -/
def recordNm (directoryType : Nat) (fileName : Name) :
    Except Fault (List UInt8) :=
  if directoryType = 0 then rockRidgeNm fileName else .ok []

/-- The system use fields of `DirectoryEntry::write_entry`. -/
def directorySystemUse (entry : DirectoryEntry)
    (directoryType extentSize : Nat) (fileName : Name) :
    Except Fault (List UInt8) := do
  let susp ← recordSusp entry directoryType extentSize
  let px ← recordPx entry directoryType
  let nm ← recordNm directoryType fileName
  return susp ++ px ++ nm

/-- The bytes of `DirectoryEntry::write_entry`. -/
def directoryRecord (entry : DirectoryEntry) (directoryType : Nat)
    (now : DateTime) : Except Fault (List UInt8) := do
  let fileEntrySize ← entry.getEntrySize (some directoryType)
  let fileName ← entry.getFileName
  let fileNameFixed ← convertName fileName
  let extentSize ← entry.getExtentSizeInLb
  let extentBytes ← mulU32 extentSize logicSize
  let systemUse ← directorySystemUse entry directoryType extentSize fileName
  return recordHeader fileEntrySize entry.lba extentBytes now 0x2
      (recordIdentifier directoryType fileNameFixed) ++ systemUse

/-- The bytes of `FileEntry::write_entry`. -/
def fileRecord (file : FileEntry) (now : DateTime) :
    Except Fault (List UInt8) := do
  let fileEntrySize ← file.getEntrySize
  let fileName ← file.getFileName
  let fileIdentifier ← convertName fileName
  let nm ← rockRidgeNm fileName
  return recordHeader fileEntrySize file.lba file.size now 0x0
      (fileIdentifier ++ utf8 ";1") ++
    rockRidgePx 0o100644 file.lba ++ nm

/-- `a + b` on `i32`. -/
def addI32 (left right : Int) : Except Fault Int :=
  if left + right < 2 ^ 31 then
    .ok (left + right)
  else
    .error (.panic .overflow)

/-- The assertion of the two `write_entry`. -/
def assertRecordSize (expected newPos : Int) : Writer Unit :=
  if expected = newPos then
    return ()
  else
    throw (.panic (.message
      "assertion failed: old_pos + file_entry_size == new_pos"))

/-- The frame of the two `write_entry`: pads to the next block when the record
does not fit into the present one, writes it and checks its size. -/
def writeRecord (clock : Clock) (origin : Origin) (size : Except Fault Nat)
    (record : DateTime → Except Fault (List UInt8)) : Writer Unit := do
  let currentPos ← streamPosition
  let expectedAlignedPos ←
    MonadExcept.ofExcept (alignUp (asI32 currentPos) logicSize)
  let diffSize := expectedAlignedPos - asI32 currentPos
  let fileEntrySize ← MonadExcept.ofExcept size
  writeZeros origin
    (if diffSize < fileEntrySize ∧ diffSize ≠ 0 then diffSize.toNat else 0)
  let output ← get
  let bytes ← MonadExcept.ofExcept (record (clock output.stores.length))
  writeAll origin bytes
  let newPos ← streamPosition
  let expected ←
    MonadExcept.ofExcept (addI32 (asI32 output.position) fileEntrySize)
  assertRecordSize expected (asI32 newPos)

/-- `DirectoryEntry::write_entry`. -/
def writeDirectoryEntry (clock : Clock) (origin : Origin)
    (directoryType : Nat) (entry : DirectoryEntry) : Writer Unit :=
  writeRecord clock origin (entry.getEntrySize (some directoryType))
    (directoryRecord entry directoryType)

/-- `FileEntry::write_entry`. -/
def writeFileEntry (clock : Clock) (origin : Origin) (file : FileEntry) :
    Writer Unit :=
  writeRecord clock origin file.getEntrySize (fileRecord file)

/-! ## Extents and contents -/

/-- `write_continuation_area`. -/
def writeContinuationArea (entry : DirectoryEntry) : Writer Unit :=
  match entry.continuationArea with
  | none => return ()
  | some data => do
      let extentSize ← MonadExcept.ofExcept entry.getExtentSizeInLb
      let block ← MonadExcept.ofExcept (addU32 entry.lba extentSize)
      let start ← MonadExcept.ofExcept (mulU32 block logicSize)
      writeAt start do
        writeAll .continuationArea data
        padToBlock .continuationArea

/-- The parent that `write_extent` makes up for the root. -/
def emptyParent (lba : Nat) : DirectoryEntry :=
  { DirectoryEntry.new with path := some (utf8 "dummy"), lba := lba }

mutual

/-- `write_extent`. -/
def writeExtent (clock : Clock) (place : List Nat)
    (parentOption : Option DirectoryEntry) : DirectoryEntry → Writer Unit
  | tree@⟨_, _, _, dirChilds, filesChilds, _, lba⟩ => do
      let start ← MonadExcept.ofExcept (mulU32 lba logicSize)
      writeAt start do
        writeDirectoryEntry clock (.extent place)
          (if parentOption.isNone then 3 else 1) tree
        writeDirectoryEntry clock (.extent place) 2
          (parentOption.getD (emptyParent lba))
        writeExtentChilds clock place tree 0 dirChilds
        filesChilds.forM (writeFileEntry clock (.extent place))
        padToBlock (.extent place)
        writeContinuationArea tree

/-- The loop of `write_extent` over the directories. -/
def writeExtentChilds (clock : Clock) (place : List Nat)
    (parent : DirectoryEntry) (index : Nat) :
    List DirectoryEntry → Writer Unit
  | [] => return ()
  | child :: childs => do
      writeDirectoryEntry clock (.extent place) 0 child
      writeExtent clock (place ++ [index]) (some parent) child
      writeExtentChilds clock place parent (index + 1) childs

end

/-- `FileEntry::write_content`. -/
def writeContent (file : FileEntry) : Writer Unit := do
  let start ← MonadExcept.ofExcept (mulU32 file.lba logicSize)
  writeAt start do
    writeAll .file file.contents
    padToBlock .file

mutual

/-- `write_files`. -/
def writeFiles : DirectoryEntry → Writer Unit
  | ⟨_, _, _, dirChilds, filesChilds, _, _⟩ => do
      writeFilesBelow dirChilds
      filesChilds.forM writeContent

/-- The first loop of `write_files`. -/
def writeFilesBelow : List DirectoryEntry → Writer Unit
  | [] => return ()
  | entry :: entries => do
      writeFiles entry
      writeFilesBelow entries

end

end RustKernel.Iso
