import Mathlib.Data.List.Forall2
import RustKernel.Foundations.Run
import RustKernel.BootImage.Format

/-!
# Reading a generated boot image back

For up to 64 files, of which the first is not empty, the image consists of
the count, the headers, zeros up to the first content offset, and the
contents one after another.  The reader finds every header and every content
in it.
-/

namespace RustKernel.BootImage

open RustKernel.Foundations
open RustKernel.Machine

/-- The contents of all files, one after another. -/
def allContents (files : List InputFile) : List UInt8 :=
  files.flatMap InputFile.contents

/-! ## Planned headers -/

/-- The first 16 bytes of a name, zero-padded. -/
def paddedName (name : List UInt8) : List UInt8 :=
  name.take 16 ++ List.replicate (16 - name.length) 0

theorem overwriteName_replicate (name : List UInt8) (count : Nat) :
    overwriteName name (List.replicate count 0) =
      name.take count ++ List.replicate (count - name.length) 0 := by
  induction count generalizing name with
  | zero => cases name <;> simp [overwriteName]
  | succ count inductionHypothesis =>
      cases name with
      | nil => simp [overwriteName, List.replicate_succ]
      | cons byte rest =>
          simp [overwriteName, List.replicate_succ, inductionHypothesis]

theorem paddedName_length (name : List UInt8) :
    (paddedName name).length = 16 := by
  simp only [paddedName, List.length_append, List.length_take,
    List.length_replicate]
  omega

/-- The header of a file whose contents start at `offset`. -/
def plannedHeader (file : InputFile) (offset : Nat) : FileHeader where
  magic := headerMagic
  name := paddedName file.name
  fileOffset := offset
  fileLength := file.contents.length

def plannedHeaders : List InputFile → Nat → List FileHeader
  | [], _ => []
  | file :: rest, offset =>
      plannedHeader file offset ::
        plannedHeaders rest (offset + file.contents.length)

@[simp]
theorem plannedHeaders_length (files : List InputFile) (offset : Nat) :
    (plannedHeaders files offset).length = files.length := by
  induction files generalizing offset with
  | nil => rfl
  | cons file rest inductionHypothesis =>
      simp [plannedHeaders, inductionHypothesis]

theorem fileHeaders_eq
    {files : List InputFile} {offset : Nat}
    (fits : offset + (allContents files).length < 2 ^ 32) :
    fileHeaders files offset = .ok (plannedHeaders files offset) := by
  induction files generalizing offset with
  | nil => rfl
  | cons file rest inductionHypothesis =>
      simp only [allContents, List.flatMap_cons, List.length_append] at fits
      have tailFits :
          offset + file.contents.length + (allContents rest).length <
            2 ^ 32 := by
        unfold allContents
        omega
      have added :
          checkedAdd offset file.contents.length =
            .ok (offset + file.contents.length) :=
        checkedAdd_eq_ok.mpr ⟨by unfold wordSize; omega, rfl⟩
      have offsetFits : offset % 2 ^ 32 = offset :=
        Nat.mod_eq_of_lt (by omega)
      have lengthFits :
          file.contents.length % 2 ^ 32 = file.contents.length :=
        Nat.mod_eq_of_lt (by omega)
      simp only [fileHeaders, added, inductionHypothesis tailFits, bind,
        Except.bind, pure, Except.pure, plannedHeaders, plannedHeader,
        offsetFits, lengthFits, overwriteName_replicate, paddedName]

/-- Every planned header fits the packed representation. -/
structure FileHeader.Packable (header : FileHeader) : Prop where
  magicFits : header.magic < 256 ^ 2
  nameLength : header.name.length = 16
  offsetFits : header.fileOffset < 256 ^ 4
  lengthFits : header.fileLength < 256 ^ 4

theorem FileHeader.bytes_length {header : FileHeader}
    (packable : header.Packable) :
    header.bytes.length = fileHeaderSize := by
  simp [FileHeader.bytes, packable.nameLength, fileHeaderSize]

theorem FileHeader.ofBytes_bytes {header : FileHeader}
    (packable : header.Packable) :
    FileHeader.ofBytes header.bytes = header := by
  cases header with
  | mk magic name fileOffset fileLength =>
      obtain ⟨magicFits, nameLength, offsetFits, lengthFits⟩ := packable
      have nameEnd : (leBytes 2 magic ++ name).length = 18 := by
        simp only [List.length_append, leBytes_length, nameLength]
      have offsetEnd :
          (leBytes 2 magic ++ (name ++ leBytes 4 fileOffset)).length =
            22 := by
        simp only [List.length_append, leBytes_length, nameLength]
      unfold FileHeader.ofBytes FileHeader.bytes
      congr 1
      · rw [bytesAt_front (leBytes_length 2 magic),
          leValue_leBytes_of_lt magicFits]
      · rw [show 2 = 2 + 0 by rfl, bytesAt_behind (leBytes_length 2 magic),
          bytesAt_front nameLength]
      · rw [← List.append_assoc, show 18 = 18 + 0 by rfl,
          bytesAt_behind nameEnd, bytesAt_front (leBytes_length 4 fileOffset),
          leValue_leBytes_of_lt offsetFits]
      · rw [← List.append_assoc name, ← List.append_assoc (leBytes 2 magic),
          show 22 = 22 + 0 by rfl, bytesAt_behind offsetEnd,
          bytesAt_whole (leBytes_length 4 fileLength),
          leValue_leBytes_of_lt lengthFits]

theorem plannedHeaders_packable
    {files : List InputFile} {offset : Nat}
    (fits : offset + (allContents files).length < 2 ^ 32) :
    ∀ header ∈ plannedHeaders files offset, header.Packable := by
  induction files generalizing offset with
  | nil => simp [plannedHeaders]
  | cons file rest inductionHypothesis =>
      simp only [allContents, List.flatMap_cons, List.length_append] at fits
      intro header member
      rcases List.mem_cons.mp member with rfl | later
      · exact
          { magicFits := by simp [plannedHeader, headerMagic]
            nameLength := paddedName_length file.name
            offsetFits := by simp only [plannedHeader]; omega
            lengthFits := by simp only [plannedHeader]; omega }
      · apply inductionHypothesis _ header later
        unfold allContents
        omega

/-! ## The bytes of the image -/

theorem OutputFile.write_at_end
    (buffer contents : List UInt8) :
    OutputFile.write buffer ⟨contents, contents.length⟩ =
      ⟨contents ++ buffer, (contents ++ buffer).length⟩ := by
  by_cases empty : buffer = []
  · simp [OutputFile.write, empty]
  · simp [OutputFile.write, empty]

theorem OutputFile.write_past_end
    {buffer contents : List UInt8} {position : Nat}
    (someBytes : buffer ≠ []) (beyond : contents.length ≤ position) :
    (OutputFile.write buffer ⟨contents, position⟩).contents =
      contents ++ (List.replicate (position - contents.length) 0 ++
        buffer) := by
  have filled :
      (contents ++ List.replicate (position - contents.length) 0).length =
        position := by
    simp only [List.length_append, List.length_replicate]
    omega
  have nothingLeft : contents.drop (position + buffer.length) = [] :=
    List.drop_eq_nil_of_le (by omega)
  simp only [OutputFile.write, someBytes, if_false, nothingLeft,
    List.append_nil, List.take_of_length_le (Nat.le_of_eq filled),
    List.append_assoc]

theorem writeHeaders_eq (headers : List FileHeader) (contents : List UInt8) :
    writeHeaders headers ⟨contents, contents.length⟩ =
      ⟨contents ++ headers.flatMap FileHeader.bytes,
        (contents ++ headers.flatMap FileHeader.bytes).length⟩ := by
  induction headers generalizing contents with
  | nil => simp [writeHeaders]
  | cons header rest inductionHypothesis =>
      have step :
          writeHeaders (header :: rest) ⟨contents, contents.length⟩ =
            writeHeaders rest
              (OutputFile.write header.bytes ⟨contents, contents.length⟩) :=
        rfl
      rw [step, OutputFile.write_at_end, inductionHypothesis]
      simp

/-- Once the file reaches up to `offset`, contents are appended in order. -/
theorem writeContents_at_end
    (files : List InputFile) (output : OutputFile) :
    (writeContents
      (files.zip (plannedHeaders files output.contents.length))
      output).contents =
      output.contents ++ allContents files := by
  induction files generalizing output with
  | nil => simp [writeContents, allContents]
  | cons file rest inductionHypothesis =>
      have appended :
          (output.seek output.contents.length).write file.contents =
            ⟨output.contents ++ file.contents,
              (output.contents ++ file.contents).length⟩ :=
        OutputFile.write_at_end file.contents output.contents
      have step :
          writeContents
              ((file :: rest).zip
                (plannedHeaders (file :: rest) output.contents.length))
              output =
            writeContents
              (rest.zip (plannedHeaders rest
                (output.contents.length + file.contents.length)))
              ((output.seek output.contents.length).write file.contents) :=
        rfl
      rw [step, appended]
      have tail :=
        inductionHypothesis
          ⟨output.contents ++ file.contents,
            (output.contents ++ file.contents).length⟩
      simp only [List.length_append] at tail ⊢
      rw [tail]
      simp [allContents]

/-- The first content closes the gap behind the headers. -/
theorem writeContents_eq
    {file : InputFile} {rest : List InputFile} {output : OutputFile}
    {offset : Nat} (someBytes : file.contents ≠ [])
    (beyond : output.contents.length ≤ offset) :
    (writeContents
      ((file :: rest).zip (plannedHeaders (file :: rest) offset))
      output).contents =
      output.contents ++
        (List.replicate (offset - output.contents.length) 0 ++
          allContents (file :: rest)) := by
  have first := OutputFile.write_past_end someBytes beyond
  have reached :
      (OutputFile.write file.contents ⟨output.contents, offset⟩).contents.length =
        offset + file.contents.length := by
    rw [first]
    simp only [List.length_append, List.length_replicate]
    omega
  have tail :=
    writeContents_at_end rest
      (OutputFile.write file.contents ⟨output.contents, offset⟩)
  rw [reached, first] at tail
  have step :
      writeContents
          ((file :: rest).zip (plannedHeaders (file :: rest) offset))
          output =
        writeContents
          (rest.zip (plannedHeaders rest (offset + file.contents.length)))
          (OutputFile.write file.contents ⟨output.contents, offset⟩) := rfl
  rw [step, tail]
  simp [allContents]

/-! ## The reader on the image -/

/-- The sequence behind a file iterator. -/
def pendingHeaders (image : BootImageFS) (iterator : FileIterator) :
    List (Except Panic FileHeader) :=
  (List.range' iterator.index (iterator.size - iterator.index)).map
    (image.headerAt iterator.base)

theorem next_produces (image : BootImageFS) :
    Produces image.next (pendingHeaders image) where
  drained := by
    intro iterator empty
    have done : ¬ iterator.index < iterator.size := by
      simp only [pendingHeaders, List.map_eq_nil_iff,
        List.range'_eq_nil_iff] at empty
      omega
    exact ⟨iterator, by simp [BootImageFS.next, done], empty⟩
  failing := by
    intro iterator fault rest sequence
    obtain ⟨index, tail, split, read, _⟩ := List.map_eq_cons_iff.mp sequence
    obtain ⟨rfl, positive, _⟩ := List.range'_eq_cons_iff.mp split
    have more : iterator.index < iterator.size := by omega
    simp [BootImageFS.next, more, read]
  yielding := by
    intro iterator header rest sequence
    obtain ⟨index, tail, split, read, remaining⟩ :=
      List.map_eq_cons_iff.mp sequence
    obtain ⟨rfl, positive, rfl⟩ := List.range'_eq_cons_iff.mp split
    have more : iterator.index < iterator.size := by omega
    refine ⟨{ iterator with index := iterator.index + 1 }, ?_, ?_⟩
    · simp [BootImageFS.next, more, read]
    · rw [← remaining]
      unfold pendingHeaders
      rw [show iterator.size - (iterator.index + 1) =
        iterator.size - iterator.index - 1 by omega]

/-- An image: the count, a table of headers, and anything behind it. -/
theorem files_of_layout
    {headers : List FileHeader} {back : List UInt8}
    (few : headers.length < 256 ^ 2) :
    BootImageFS.files
      ⟨leBytes 2 headers.length ++
        (headers.flatMap FileHeader.bytes ++ back)⟩ =
      .ok ⟨2, 0, headers.length⟩ := by
  have counted := leValue_leBytes_of_lt few
  simp only [leBytes] at counted ⊢
  simp [BootImageFS.files, indexByte, bind, Except.bind, pure, Except.pure,
    counted]

theorem headerAt_of_layout
    {headers : List FileHeader} {back : List UInt8} {count : Nat}
    (packable : ∀ header ∈ headers, header.Packable)
    {index : Nat} {header : FileHeader}
    (found : headers[index]? = some header) :
    BootImageFS.headerAt
      ⟨leBytes 2 count ++ (headers.flatMap FileHeader.bytes ++ back)⟩
      2 index = .ok header := by
  have sized :
      ∀ header ∈ headers, header.bytes.length = fileHeaderSize :=
    fun header member => FileHeader.bytes_length (packable header member)
  have inTable : index < headers.length :=
    (List.getElem?_eq_some_iff.mp found).1
  have tableLength := flatMap_length sized
  have enough :
      fileHeaderSize * (index + 1) ≤ fileHeaderSize * headers.length :=
    Nat.mul_le_mul_left _ inTable
  rw [Nat.mul_succ] at enough
  have inside :
      2 + fileHeaderSize * index + fileHeaderSize ≤
        (leBytes 2 count ++
          (headers.flatMap FileHeader.bytes ++ back)).length := by
    simp only [List.length_append, leBytes_length, tableLength]
    omega
  have entry :
      bytesAt (headers.flatMap FileHeader.bytes ++ back)
        (fileHeaderSize * index) fileHeaderSize = header.bytes :=
    bytesAt_flatMap sized found
  simp only [BootImageFS.headerAt, rawRead, inside, if_true, bind,
    Except.bind, pure, Except.pure, bytesAt_behind (leBytes_length 2 count),
    entry, FileHeader.ofBytes_bytes (packable header
      (List.mem_of_getElem? found))]

theorem pendingHeaders_of_layout
    {headers : List FileHeader} {back : List UInt8}
    (packable : ∀ header ∈ headers, header.Packable) :
    pendingHeaders
        ⟨leBytes 2 headers.length ++
          (headers.flatMap FileHeader.bytes ++ back)⟩
        ⟨2, 0, headers.length⟩ =
      headers.map .ok := by
  apply List.ext_getElem
  · simp [pendingHeaders]
  · intro index _ inTable
    rw [List.length_map] at inTable
    have read :
        BootImageFS.headerAt
            ⟨leBytes 2 headers.length ++
              (headers.flatMap FileHeader.bytes ++ back)⟩ 2 index =
          .ok headers[index] :=
      headerAt_of_layout packable (List.getElem?_eq_getElem inTable)
    simpa [pendingHeaders] using read

/-- The iterator over the table yields the headers in order. -/
theorem takeNext_of_layout
    {headers : List FileHeader} {back : List UInt8}
    (packable : ∀ header ∈ headers, header.Packable) (count : Nat) :
    ∃ after,
      takeNext
        (BootImageFS.next
          ⟨leBytes 2 headers.length ++
            (headers.flatMap FileHeader.bytes ++ back)⟩)
        count ⟨2, 0, headers.length⟩ =
        .ok ((headers.take count).map some ++
          List.replicate (count - headers.length) none, after) := by
  apply (next_produces _).takeNext_of_faultless
  exact pendingHeaders_of_layout packable

/-- Every header names its file, and the contents stand where it says. -/
theorem fileData_of_layout
    {files : List InputFile} {area : List UInt8}
    (fits : area.length + (allContents files).length < 2 ^ 32) :
    List.Forall₂
      (fun file header =>
        header.magic = 0x6945 ∧
        header.name = paddedName file.name ∧
        BootImageFS.fileData ⟨area ++ allContents files⟩ header =
          .ok file.contents)
      files (plannedHeaders files area.length) := by
  induction files generalizing area with
  | nil => exact List.Forall₂.nil
  | cons file rest inductionHypothesis =>
      have split :
          area ++ allContents (file :: rest) =
            (area ++ file.contents) ++ allContents rest := by
        simp [allContents]
      simp only [allContents, List.flatMap_cons, List.length_append] at fits
      have tailFits :
          (area ++ file.contents).length + (allContents rest).length <
            2 ^ 32 := by
        simp only [List.length_append, allContents]
        omega
      have tail := inductionHypothesis tailFits
      rw [← split, List.length_append] at tail
      refine List.Forall₂.cons ⟨rfl, rfl, ?_⟩ tail
      have inWord : area.length + file.contents.length < 2 ^ 32 := by omega
      have inside :
          area.length + file.contents.length ≤
            (area ++ allContents (file :: rest)).length := by
        rw [split]
        simp
      have found :
          bytesAt (area ++ allContents (file :: rest)) area.length
            file.contents.length = file.contents := by
        rw [show area.length = area.length + 0 by rfl, bytesAt_behind rfl]
        exact bytesAt_front rfl
      simp only [BootImageFS.fileData, plannedHeader, inWord, if_true]
      apply slice_eq_ok.mpr
      refine ⟨⟨by omega, inside⟩, ?_⟩
      rw [Nat.add_sub_cancel_left, found]

/-- The count and the headers, as the generator writes them. -/
def headerArea (files : List InputFile) : List UInt8 :=
  leBytes 2 files.length ++
    (plannedHeaders files contentStart).flatMap FileHeader.bytes

/-- The zeros between the headers and the first content. -/
def headerPadding (files : List InputFile) : List UInt8 :=
  List.replicate (contentStart - (headerArea files).length) 0

theorem headerArea_length_le
    {files : List InputFile} (few : files.length ≤ maxFiles)
    (fits : contentStart + (allContents files).length < 2 ^ 32) :
    (headerArea files).length ≤ contentStart := by
  have packable := plannedHeaders_packable fits
  have tableFits :
      fileHeaderSize * files.length ≤ fileHeaderSize * maxFiles :=
    Nat.mul_le_mul_left _ few
  rw [headerArea, List.length_append, leBytes_length,
    flatMap_length fun header member =>
      FileHeader.bytes_length (packable header member),
    plannedHeaders_length]
  unfold contentStart
  omega

/-- The bytes that the generator writes. -/
theorem generate_eq
    {file : InputFile} {rest : List InputFile}
    (few : (file :: rest).length ≤ maxFiles)
    (someBytes : file.contents ≠ [])
    (fits : contentStart + (allContents (file :: rest)).length < 2 ^ 32) :
    ∃ output,
      generate (file :: rest) = .ok output ∧
      output.contents =
        headerArea (file :: rest) ++
          (headerPadding (file :: rest) ++ allContents (file :: rest)) := by
  have headers := fileHeaders_eq fits
  have counted :
      OutputFile.create.write (leBytes 2 (file :: rest).length) =
        ⟨leBytes 2 (file :: rest).length,
          (leBytes 2 (file :: rest).length).length⟩ :=
    OutputFile.write_at_end _ []
  refine ⟨_, by
    simp only [generate, headers, bind, Except.bind, pure, Except.pure,
      plannedHeaders_length, counted, writeHeaders_eq]
    rfl, ?_⟩
  exact writeContents_eq someBytes (headerArea_length_le few fits)

/-- The reader yields one header per file, in order, each with the name and
the contents of its file, and panics nowhere. -/
def ReadsBack (image : BootImageFS) (files : List InputFile) : Prop :=
  ∃ iterator headers,
    image.files = .ok iterator ∧
    (∀ count, ∃ after,
      takeNext image.next count iterator =
        .ok ((headers.take count).map some ++
          List.replicate (count - headers.length) none, after)) ∧
    List.Forall₂
      (fun file header =>
        header.magic = 0x6945 ∧
        header.name = paddedName file.name ∧
        image.fileData header = .ok file.contents)
      files headers

theorem generate_roundTrip
    (file : InputFile) (rest : List InputFile)
    (few : (file :: rest).length ≤ maxFiles)
    (someBytes : file.contents ≠ [])
    (fits : contentStart + (allContents (file :: rest)).length < 2 ^ 32) :
    ∃ output,
      generate (file :: rest) = .ok output ∧
      ReadsBack ⟨output.contents⟩ (file :: rest) := by
  obtain ⟨output, generated, contents⟩ := generate_eq few someBytes fits
  have packable := plannedHeaders_packable fits
  have tableShape :
      output.contents =
        leBytes 2 (plannedHeaders (file :: rest) contentStart).length ++
          ((plannedHeaders (file :: rest) contentStart).flatMap
            FileHeader.bytes ++
            (headerPadding (file :: rest) ++
              allContents (file :: rest))) := by
    rw [contents, headerArea, plannedHeaders_length, List.append_assoc]
  have areaShape :
      output.contents =
        (headerArea (file :: rest) ++ headerPadding (file :: rest)) ++
          allContents (file :: rest) := by
    rw [contents, List.append_assoc]
  have areaLength :
      (headerArea (file :: rest) ++ headerPadding (file :: rest)).length =
        contentStart := by
    have short := headerArea_length_le few fits
    simp only [headerPadding, List.length_append, List.length_replicate]
    omega
  refine ⟨output, generated,
    ⟨2, 0, (plannedHeaders (file :: rest) contentStart).length⟩,
    plannedHeaders (file :: rest) contentStart, ?_, ?_, ?_⟩
  · rw [tableShape]
    apply files_of_layout
    rw [plannedHeaders_length]
    exact Nat.lt_of_le_of_lt few (by decide)
  · intro count
    rw [tableShape]
    exact takeNext_of_layout packable count
  · rw [areaShape]
    rw [← areaLength] at fits ⊢
    exact fileData_of_layout fits

/-- A kernel of one byte, an empty driver and a driver with a long name. -/
theorem generate_roundTrip_threeFiles :
    ∃ output,
      generate
        [⟨[107], [7]⟩, ⟨[100], []⟩, ⟨List.replicate 20 110, [1, 2, 3]⟩] =
        .ok output ∧
      ReadsBack ⟨output.contents⟩
        [⟨[107], [7]⟩, ⟨[100], []⟩, ⟨List.replicate 20 110, [1, 2, 3]⟩] :=
  generate_roundTrip ⟨[107], [7]⟩
    [⟨[100], []⟩, ⟨List.replicate 20 110, [1, 2, 3]⟩]
    (by decide) (by decide) (by decide)

end RustKernel.BootImage
