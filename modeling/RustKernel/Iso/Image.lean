import RustKernel.Iso.Scan
import RustKernel.Iso.Writers

/-!
# The image as a whole

`create_iso` plans the tree and then writes the system area, the volume
descriptors, the path tables, the extents of the directories and the contents
of the files.  128 sectors of zeros follow behind the last of them.
-/

namespace RustKernel.Iso

open RustKernel.Foundations
open RustKernel.Machine
open Output

/-! ## The plan -/

inductive VolumeDescriptor where
  | boot
  | primary
  | supplementary
  | volume
  | ending
  deriving DecidableEq, Repr

/-- `generate_volume_descriptors`. -/
def generateVolumeDescriptors (opt : Opt) : List VolumeDescriptor :=
  [.primary] ++ (if opt.eltoritoBoot.isSome then [.boot] else []) ++ [.ending]

/-- `path_table_start_lba`. -/
def pathTableStartLba (opt : Opt) : Nat :=
  0x10 + 1 + (generateVolumeDescriptors opt).length

/-- Patches the boot image when an option asks for it. -/
def patchIfAsked (opt : Opt) (tree : DirectoryEntry) :
    Except Fault DirectoryEntry :=
  if opt.bootInfoTable = true ∨ opt.grub2BootInfo = true then
    match opt.eltoritoBoot with
    | none => .error (.panic .unwrap)
    | some value => patchBootImage opt value tree
  else
    .ok tree

/-- `create_iso` before the first write. -/
def planImage (opt : Opt) (inputFiles : List HostEntry) :
    Except Fault (DirectoryEntry × Nat) := do
  let tree ← scanInputs opt inputFiles
  let (tree, currentLba) ← planLayout opt (pathTableStartLba opt) tree
  let tree ← patchIfAsked opt tree
  return (tree, currentLba)

/-! ## The system area -/

/-- The boot code in front of the image, and whether `grub2_mbr` named it. -/
def chosenBoot (opt : Opt) : Option (Option (List UInt8)) × Bool :=
  match opt.embeddedBoot with
  | some path => (some path, false)
  | none => (opt.grub2Mbr, opt.grub2Mbr.isSome)

def copyEmbeddedBoot : Option (Option (List UInt8)) → Writer Unit
  | none => return ()
  | some none => throw (.panic .unwrap)
  | some (some contents) =>
      if logicSize * 0x10 < contents.length then
        throw (.error "generic boot file is bigger than 32768 bytes!")
      else
        writeAll .systemArea contents

/-- The field behind `need_grub2_mbr_patches`. -/
def grub2MbrField (tree : DirectoryEntry) (boot : Name) :
    Except Fault (List UInt8) := do
  let file ← unwrapFile (← tree.getFile boot)
  let product ← mulU32 file.lba 4
  let sum ← addU32 product 4
  return leBytes 8 sum

def patchGrub2Mbr (tree : DirectoryEntry) (oldPos : Nat) :
    Bool → Option Name → Writer Unit
  | true, some boot =>
      writeAt (oldPos + 0x1B0) do
        let field ← MonadExcept.ofExcept (grub2MbrField tree boot)
        writeAll .systemArea field
  | true, none => return ()
  | false, _ => return ()

/-- The three bytes of `write_lba_to_cls`. -/
def lbaToCls (diskLba headCount sectorCount : Nat) : List UInt8 :=
  let sectorNumber := diskLba % sectorCount + 1
  let tmp := diskLba / sectorCount
  let headNumber := tmp % headCount
  let cylinderNumber := tmp / headCount
  let beyond := 0x400 < cylinderNumber
  let sectorNumber := if beyond then sectorCount else sectorNumber
  let headNumber := if beyond then headCount else headNumber
  let cylinderNumber := if beyond then 0x3FF else cylinderNumber
  [UInt8.ofNat headNumber,
    UInt8.ofNat (sectorNumber ||| (cylinderNumber &&& 0x300) >>> 2),
    UInt8.ofNat (cylinderNumber &&& 0xFF)]

/-- The partition table of the protective label. -/
def partitionTable (lbCount : Nat) : Except Fault (List UInt8) := do
  let size ← mulU32 lbCount logicSize
  let sizeInSector := size / sectorSize
  let last ← subU32 sizeInSector 1
  return [0x80] ++ lbaToCls 1 64 32 ++ [0x17] ++ lbaToCls last 64 32 ++
    leBytes 4 1 ++ leBytes 4 last ++ List.replicate 0x30 0

def writeProtectiveLabel (lbCount : Nat) : Writer Unit :=
  writeAt 0x1BE do
    let table ← MonadExcept.ofExcept (partitionTable lbCount)
    writeAll .systemArea table
    seekStart 0x1FE
    writeAll .systemArea [0x55, 0xAA]

/-- `write_system_area`. -/
def writeSystemArea (opt : Opt) (tree : DirectoryEntry) (lbCount : Nat) :
    Writer Unit := do
  let oldPos ← streamPosition
  copyEmbeddedBoot (chosenBoot opt).1
  let currentPos ← streamPosition
  patchGrub2Mbr tree oldPos (chosenBoot opt).2 opt.eltoritoBoot
  writeZeros .systemArea (logicSize * 0x10 - (currentPos - oldPos))
  if opt.protectiveMsdosLabel then writeProtectiveLabel lbCount else return ()

/-! ## The volume descriptors -/

namespace VolumeDescriptor

/-- `get_type_id`. -/
def getTypeId : VolumeDescriptor → UInt8
  | .boot => 0
  | .primary => 1
  | .supplementary => 2
  | .volume => 3
  | .ending => 0xff

/-- The bytes of `write_volume_header`. -/
def header (descriptor : VolumeDescriptor) : List UInt8 :=
  [descriptor.getTypeId] ++ utf8 "CD001" ++ [0x1]

end VolumeDescriptor

/-- The last decimal digits of a number. -/
def decimal (width value : Nat) : List UInt8 :=
  (List.range width).reverse.map fun place =>
    UInt8.ofNat (0x30 + value / 10 ^ place % 10)

/-- `utc.format("%Y%m%d%H%M%S00")`, in a year of four digits. -/
def creationTime (now : DateTime) : List UInt8 :=
  decimal 4 now.year ++ decimal 2 now.month ++ decimal 2 now.day ++
    decimal 2 now.hour ++ decimal 2 now.minute ++ decimal 2 now.second ++
    utf8 "00"

/-- The primary descriptor up to the record of the root. -/
def primaryFront (rootDir : DirectoryEntry) (pathTableStartLba sizeInLb : Nat) :
    Except Fault (List UInt8) := do
  let pathTableSize ← rootDir.getPathTableSize
  let pathTableLbaBe ← addU32 pathTableStartLba 2
  return [0] ++ utf8 "LINUX                           " ++
    utf8 "CDROM                           " ++ leBytes 8 0 ++
    bothEndian 4 sizeInLb ++ List.replicate 32 0 ++ bothEndian 2 1 ++
    bothEndian 2 1 ++ bothEndian 2 logicSize ++ bothEndian 4 pathTableSize ++
    leBytes 4 pathTableStartLba ++ leBytes 4 0 ++ beBytes 4 pathTableLbaBe ++
    beBytes 4 0

/-- The primary descriptor behind the record of the root. -/
def primaryBack (now : DateTime) : List UInt8 :=
  List.replicate (4 * 128) 0x20 ++ List.replicate (38 + 36 + 37) 0x20 ++
    creationTime now ++ [0] ++ creationTime now ++ [0] ++
    List.replicate 16 0x30 ++ [0] ++ List.replicate 16 0x30 ++ [0] ++
    [0x1, 0x0] ++ List.replicate 512 0x20 ++ List.replicate 653 0

/-- The boot descriptor behind its header. -/
def bootFields (catalogLba : Nat) : List UInt8 :=
  utf8 "EL TORITO SPECIFICATION" ++ List.replicate 0x29 0 ++
    leBytes 4 catalogLba ++ List.replicate 0x7b5 0

/-- The block of the catalog, by its name. -/
def catalogLba (rootDir : DirectoryEntry) : Except Fault Nat := do
  let catalogFile ← unwrapFile (← rootDir.getFile bootCatalog)
  return catalogFile.lba

/-- The part of `write_volume` behind the header. -/
def writeVolumeFields (clock : Clock) (rootDir : DirectoryEntry)
    (pathTableStartLba sizeInLb : Nat) : VolumeDescriptor → Writer Unit
  | .boot => do
      let lba ← MonadExcept.ofExcept (catalogLba rootDir)
      writeAll .volumeDescriptor (bootFields lba)
  | .primary => do
      let front ←
        MonadExcept.ofExcept
          (primaryFront rootDir pathTableStartLba sizeInLb)
      writeAll .volumeDescriptor front
      writeDirectoryEntry clock .volumeDescriptor 5 rootDir
      let output ← get
      writeAll .volumeDescriptor (primaryBack (clock output.stores.length))
  | .ending => writeZeros .volumeDescriptor 2041
  | .supplementary => throw (.panic (.message "not implemented"))
  | .volume => throw (.panic (.message "not implemented"))

/-- `write_volume`. -/
def writeVolume (clock : Clock) (rootDir : DirectoryEntry)
    (pathTableStartLba sizeInLb : Nat) (descriptor : VolumeDescriptor) :
    Writer Unit := do
  writeAll .volumeDescriptor descriptor.header
  writeVolumeFields clock rootDir pathTableStartLba sizeInLb descriptor

/-! ## The writes in their order -/

/-- The sector behind the descriptors. -/
def writeMki : Writer Unit := do
  writeAll .mki (utf8 "MKI ")
  writeZeros .mki (logicSize - 4)

/-- The zeros behind all else. -/
def writeTrailer : Writer Unit := do
  let old ← seekEnd
  (List.replicate 128 logicSize).forM (writeZeros .trailer)
  seekStart old

/-- The two path tables. -/
def writePathTables (tree : DirectoryEntry) (pathTableStartLba : Nat) :
    Writer Unit := do
  writePathTable .littleEndian tree pathTableStartLba
  let second ← MonadExcept.ofExcept (addU32 pathTableStartLba 2)
  writePathTable .bigEndian tree second

/-- What `create_iso` writes for a planned tree. -/
def writeImage (clock : Clock) (opt : Opt) (tree : DirectoryEntry)
    (lbCount : Nat) : Writer Unit := do
  writeSystemArea opt tree lbCount
  (generateVolumeDescriptors opt).forM
    (writeVolume clock tree (pathTableStartLba opt) lbCount)
  writeMki
  writePathTables tree (pathTableStartLba opt)
  writeExtent clock [] none tree
  writeFiles tree
  writeTrailer

/-- `create_iso`. -/
def createIso (clock : Clock) (opt : Opt) (inputFiles : List HostEntry) :
    Writer Unit := do
  let planned ← MonadExcept.ofExcept (planImage opt inputFiles)
  writeImage clock opt planned.1 planned.2

end RustKernel.Iso
