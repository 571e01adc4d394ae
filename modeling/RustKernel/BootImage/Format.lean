import RustKernel.Foundations.Producer
import RustKernel.Machine.Slice

/-!
# The boot image: generator and reader

The generator lays a file count, a table of packed headers and the file
contents out in one output file; the loader and the kernel read the image
back through `BootImageFS`.  The two sides share the packed `FileHeader` and
nothing else: the generator reserves room for 64 headers and a 4-byte count,
the reader finds the table 2 bytes into the image.
-/

namespace RustKernel.BootImage

open RustKernel.Foundations
open RustKernel.Machine

def maxFiles : Nat := 64

def headerMagic : Nat := 0x6945

/-- `FileHeader`, a packed struct of 26 bytes. -/
structure FileHeader where
  magic : Nat
  name : List UInt8
  fileOffset : Nat
  fileLength : Nat
  deriving DecidableEq, Repr

/-- `size_of::<FileHeader>()`. -/
def fileHeaderSize : Nat := 26

/-- The bytes of a header in memory. -/
def FileHeader.bytes (header : FileHeader) : List UInt8 :=
  leBytes 2 header.magic ++ (header.name ++
    (leBytes 4 header.fileOffset ++ leBytes 4 header.fileLength))

/-- The header whose bytes in memory are given. -/
def FileHeader.ofBytes (bytes : List UInt8) : FileHeader where
  magic := leValue (bytesAt bytes 0 2)
  name := bytesAt bytes 2 16
  fileOffset := leValue (bytesAt bytes 18 4)
  fileLength := leValue (bytesAt bytes 22 4)

/-! ## The generator -/

/-- An input file: its file name as UTF-8 bytes and its contents. -/
structure InputFile where
  name : List UInt8
  contents : List UInt8
  deriving DecidableEq, Repr

/-- `for b in p.iter().zip(name_arr.iter_mut()) { *b.1 = *b.0 }`. -/
def overwriteName : List UInt8 → List UInt8 → List UInt8
  | byte :: name, _ :: array => byte :: overwriteName name array
  | [], array => array
  | _ :: _, [] => []

/-- The headers pushed by the first loop of `main`, from `offset` on. -/
def fileHeaders : List InputFile → Nat → Except Panic (List FileHeader)
  | [], _ => .ok []
  | file :: rest, offset => do
      let header : FileHeader :=
        { magic := headerMagic
          name := overwriteName file.name (List.replicate 16 0)
          fileOffset := offset % 2 ^ 32
          fileLength := file.contents.length % 2 ^ 32 }
      let offset ← checkedAdd offset file.contents.length
      let headers ← fileHeaders rest offset
      return header :: headers

/-- The output file: its bytes and the position of the next write. -/
structure OutputFile where
  contents : List UInt8
  position : Nat
  deriving DecidableEq, Repr

namespace OutputFile

/-- `File::create`. -/
def create : OutputFile := ⟨[], 0⟩

/-- `seek(SeekFrom::Start(position))`. -/
def seek (position : Nat) (file : OutputFile) : OutputFile :=
  { file with position }

/-- A write of the whole buffer; a gap before it is filled with zeros, and an
empty buffer leaves the file as it is. -/
def write (buffer : List UInt8) (file : OutputFile) : OutputFile :=
  if buffer = [] then
    file
  else
    let padding := List.replicate (file.position - file.contents.length) 0
    { contents :=
        (file.contents ++ padding).take file.position ++
          (buffer ++ file.contents.drop (file.position + buffer.length))
      position := file.position + buffer.length }

end OutputFile

/-- The offset of the first file: `size_of::<FileHeader>() * MAX_FILES` and
the size of a `u32`. -/
def contentStart : Nat := fileHeaderSize * maxFiles + 4

/-- The second loop of `main`. -/
def writeHeaders (headers : List FileHeader) (output : OutputFile) :
    OutputFile :=
  headers.foldl (fun output header => output.write header.bytes) output

/-- The third loop of `main`. -/
def writeContents
    (entries : List (InputFile × FileHeader)) (output : OutputFile) :
    OutputFile :=
  entries.foldl
    (fun output entry =>
      (output.seek entry.2.fileOffset).write entry.1.contents)
    output

/-- `main` of the generator, on the files it opens. -/
def generate (files : List InputFile) : Except Panic OutputFile := do
  let headers ← fileHeaders files contentStart
  let output := OutputFile.create.write (leBytes 2 headers.length)
  let output := writeHeaders headers output
  return writeContents (files.zip headers) output

/-! ## The reader -/

structure BootImageFS where
  data : List UInt8

structure FileIterator where
  base : Nat
  index : Nat
  size : Nat

namespace BootImageFS

/-- `BootImageFS::files`. -/
def files (image : BootImageFS) : Except Panic FileIterator := do
  let low ← indexByte image.data 0
  let high ← indexByte image.data 1
  return ⟨2, 0, leValue [low, high]⟩

/-- The header at an index of the table, through a raw pointer. -/
def headerAt (image : BootImageFS) (base index : Nat) :
    Except Panic FileHeader := do
  let bytes ← rawRead image.data (base + fileHeaderSize * index) fileHeaderSize
  return FileHeader.ofBytes bytes

/-- `FileIterator::next`. -/
def next (image : BootImageFS) (iterator : FileIterator) :
    Except Panic (Option FileHeader × FileIterator) :=
  if iterator.index < iterator.size then
    match image.headerAt iterator.base iterator.index with
    | .error fault => .error fault
    | .ok header =>
        .ok (some header, { iterator with index := iterator.index + 1 })
  else
    .ok (none, iterator)

/-- `BootImageFS::file_data`; the end offset is computed on `u32`. -/
def fileData (image : BootImageFS) (header : FileHeader) :
    Except Panic (List UInt8) :=
  if header.fileOffset + header.fileLength < 2 ^ 32 then
    slice image.data header.fileOffset (header.fileOffset + header.fileLength)
  else
    .error .overflow

end BootImageFS

end RustKernel.BootImage
