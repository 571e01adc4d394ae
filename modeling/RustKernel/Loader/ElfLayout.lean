import RustKernel.Loader.SegmentRuns

/-!
# Files that the reader accepts

`layOut` puts a header, a program header table and segment bytes one after
another.  The reader finds in such a file what was laid out.
-/

namespace RustKernel.Loader

open RustKernel.Foundations
open RustKernel.Machine

def SegmentType.raw : SegmentType → Nat
  | .null => 0
  | .load => 1
  | .dynamic => 2
  | .interpret => 3
  | .note => 4
  | .reserved => 5
  | .programHeader => 6
  | .other raw => raw

/-- The bytes of a program header in the file. -/
def ProgramHeader.bytes (header : ProgramHeader) : List UInt8 :=
  leBytes 4 header.segementType.raw ++ (leBytes 4 0 ++
    (leBytes 8 header.offset ++ (leBytes 8 header.virtualAddress ++
      (leBytes 8 0 ++ (leBytes 8 header.segmentFileSize ++
        (leBytes 8 header.segmentMemSize ++ leBytes 8 0))))))

/-- The bytes of a file header; the table follows it at once. -/
def Header.bytes (entry count : Nat) : List UInt8 :=
  leBytes 24 0 ++ (leBytes 8 entry ++ (leBytes 8 64 ++ (leBytes 14 0 ++
    (leBytes 2 programHeaderSize ++ (leBytes 2 count ++ leBytes 6 0)))))

def ElfFile.layOut (entry : Nat) (headers : List ProgramHeader)
    (body : List UInt8) : ElfFile :=
  ⟨Header.bytes entry headers.length ++
    (headers.flatMap ProgramHeader.bytes ++ body)⟩

/-- The fields of the header fit their widths. -/
structure ProgramHeader.Packable (header : ProgramHeader) : Prop where
  typeFits : header.segementType.raw < 2 ^ 32
  typeNamed : .ofRaw header.segementType.raw = header.segementType
  offsetFits : header.offset < 2 ^ 64
  addressFits : header.virtualAddress < 2 ^ 64
  fileSizeFits : header.segmentFileSize < 2 ^ 64
  memSizeFits : header.segmentMemSize < 2 ^ 64

instance (header : ProgramHeader) : Decidable header.Packable :=
  decidable_of_iff
    (header.segementType.raw < 2 ^ 32 ∧
      .ofRaw header.segementType.raw = header.segementType ∧
      header.offset < 2 ^ 64 ∧ header.virtualAddress < 2 ^ 64 ∧
      header.segmentFileSize < 2 ^ 64 ∧ header.segmentMemSize < 2 ^ 64)
    ⟨fun ⟨typeFits, typeNamed, offset, address, fileSize, memSize⟩ =>
      ⟨typeFits, typeNamed, offset, address, fileSize, memSize⟩,
    fun ⟨typeFits, typeNamed, offset, address, fileSize, memSize⟩ =>
      ⟨typeFits, typeNamed, offset, address, fileSize, memSize⟩⟩

/-- A table of `Load` segments below the upper half of the addresses, whose
bytes are in the file. -/
structure LoadTable (entry : Nat) (headers : List ProgramHeader)
    (body : List UInt8) : Prop where
  entryFits : entry < 2 ^ 64
  countFits : headers.length < 2 ^ 16
  nonempty : headers ≠ []
  packable : ∀ header ∈ headers, header.Packable
  allLoad : ∀ header ∈ headers, header.segementType = .load
  low :
    ∀ header ∈ headers, header.virtualAddress + header.segmentMemSize < 2 ^ 48
  within :
    ∀ header ∈ headers,
      header.offset + header.segmentFileSize ≤
        64 + (programHeaderSize * headers.length + body.length)
  short : 64 + (programHeaderSize * headers.length + body.length) < 2 ^ 63

instance (entry : Nat) (headers : List ProgramHeader) (body : List UInt8) :
    Decidable (LoadTable entry headers body) :=
  decidable_of_iff
    ((entry < 2 ^ 64 ∧ headers.length < 2 ^ 16 ∧ headers ≠ []) ∧
      (∀ header ∈ headers, header.Packable) ∧
      (∀ header ∈ headers, header.segementType = .load) ∧
      (∀ header ∈ headers,
        header.virtualAddress + header.segmentMemSize < 2 ^ 48) ∧
      (∀ header ∈ headers,
        header.offset + header.segmentFileSize ≤
          64 + (programHeaderSize * headers.length + body.length)) ∧
      64 + (programHeaderSize * headers.length + body.length) < 2 ^ 63)
    ⟨fun ⟨⟨entryFits, countFits, nonempty⟩, packable, allLoad, low, within,
        short⟩ =>
      ⟨entryFits, countFits, nonempty, packable, allLoad, low, within, short⟩,
    fun ⟨entryFits, countFits, nonempty, packable, allLoad, low, within,
        short⟩ =>
      ⟨⟨entryFits, countFits, nonempty⟩, packable, allLoad, low, within,
        short⟩⟩

theorem ProgramHeader.bytes_length (header : ProgramHeader) :
    header.bytes.length = programHeaderSize := by
  simp [ProgramHeader.bytes, programHeaderSize]

theorem Header.bytes_length (entry count : Nat) :
    (Header.bytes entry count).length = 64 := by
  simp [Header.bytes]

theorem ProgramHeader.ofBytes_bytes {header : ProgramHeader}
    (packable : header.Packable) :
    ProgramHeader.ofBytes header.bytes = header := by
  cases header with
  | mk segementType offset virtualAddress segmentFileSize segmentMemSize =>
      obtain
        ⟨typeFits, typeNamed, offsetFits, addressFits, fileSizeFits,
          memSizeFits⟩ :=
          packable
      have typeRead :
          leValue (leBytes 4 segementType.raw) = segementType.raw :=
        leValue_leBytes_of_lt typeFits
      have offsetRead : leValue (leBytes 8 offset) = offset :=
        leValue_leBytes_of_lt offsetFits
      have addressRead : leValue (leBytes 8 virtualAddress) = virtualAddress :=
        leValue_leBytes_of_lt addressFits
      have fileSizeRead :
          leValue (leBytes 8 segmentFileSize) = segmentFileSize :=
        leValue_leBytes_of_lt fileSizeFits
      have memSizeRead :
          leValue (leBytes 8 segmentMemSize) = segmentMemSize :=
        leValue_leBytes_of_lt memSizeFits
      simp only [ProgramHeader.ofBytes, ProgramHeader.bytes,
        bytesAt_append_right, bytesAt_front, leBytes_length, typeRead,
        typeNamed, offsetRead, addressRead, fileSizeRead, memSizeRead,
        Nat.reduceSub, Nat.reduceLeDiff]

theorem ElfFile.layOut_length
    (entry : Nat) (headers : List ProgramHeader) (body : List UInt8) :
    (ElfFile.layOut entry headers body).data.length =
      64 + (programHeaderSize * headers.length + body.length) := by
  simp only [ElfFile.layOut, List.length_append, Header.bytes_length]
  rw [flatMap_length fun header _ => header.bytes_length]

section Layout

variable {entry : Nat} {headers : List ProgramHeader} {body : List UInt8}

theorem ElfFile.header_layOut
    (entryFits : entry < 2 ^ 64) (countFits : headers.length < 2 ^ 16) :
    (ElfFile.layOut entry headers body).header =
      .ok ⟨entry, 64, programHeaderSize, headers.length⟩ := by
  have long := ElfFile.layOut_length entry headers body
  have first :
      ∃ byte, indexByte (ElfFile.layOut entry headers body).data 0 =
        .ok byte := by
    unfold indexByte
    rw [List.getElem?_eq_getElem (by omega)]
    exact ⟨_, rfl⟩
  obtain ⟨byte, first⟩ := first
  have read :
      rawRead (ElfFile.layOut entry headers body).data 0 64 =
        .ok (Header.bytes entry headers.length) := by
    unfold rawRead
    rw [if_pos (by omega)]
    unfold ElfFile.layOut
    rw [bytesAt_front (Header.bytes_length _ _)]
  have entryRead : leValue (leBytes 8 entry) = entry :=
    leValue_leBytes_of_lt (by omega)
  have countRead : leValue (leBytes 2 headers.length) = headers.length :=
    leValue_leBytes_of_lt (by omega)
  unfold ElfFile.header
  rw [first, read]
  simp only [Header.ofBytes, Header.bytes, bind, Except.bind, pure,
    Except.pure, bytesAt_append_right, bytesAt_front, leBytes_length,
    entryRead, countRead, programHeaderSize, Nat.reduceSub, Nat.reduceLeDiff]
  rfl

theorem ElfFile.progamHeader_layOut
    (packable : ∀ header ∈ headers, header.Packable)
    {index : Nat} {header : ProgramHeader}
    (found : headers[index]? = some header) :
    (ElfFile.layOut entry headers body).progamHeader 64 index =
      .ok header := by
  have inTable : index < headers.length :=
    (List.getElem?_eq_some_iff.mp found).1
  have long := ElfFile.layOut_length entry headers body
  have read :
      rawRead (ElfFile.layOut entry headers body).data
          (64 + programHeaderSize * index) programHeaderSize =
        .ok header.bytes := by
    unfold rawRead
    rw [if_pos (by simp only [programHeaderSize] at *; omega)]
    unfold ElfFile.layOut
    rw [bytesAt_behind (Header.bytes_length _ _),
      bytesAt_flatMap (fun header _ => header.bytes_length) found]
  unfold ElfFile.progamHeader
  rw [read]
  exact congrArg Except.ok
    (ProgramHeader.ofBytes_bytes (packable header
      (List.mem_of_getElem? found)))

/-- The program headers of a laid out file are those that were put in. -/
theorem ElfFile.progamHeaders_layOut
    (table : LoadTable entry headers body) :
    (ElfFile.layOut entry headers body).progamHeaders =
      .ok (headers.map .ok) := by
  have long := ElfFile.layOut_length entry headers body
  have positive : 0 < headers.length := List.length_pos_iff.mpr table.nonempty
  have first :
      ∃ byte, indexByte (ElfFile.layOut entry headers body).data 64 =
        .ok byte := by
    unfold indexByte
    rw [List.getElem?_eq_getElem
      (by simp only [programHeaderSize] at long; omega)]
    exact ⟨_, rfl⟩
  obtain ⟨byte, first⟩ := first
  have reads :
      (List.range headers.length).map
          ((ElfFile.layOut entry headers body).progamHeader 64) =
        headers.map .ok := by
    apply List.ext_getElem
    · simp
    · intro index _ inTable
      rw [List.length_map] at inTable
      simp only [List.getElem_map, List.getElem_range]
      exact ElfFile.progamHeader_layOut table.packable
        (List.getElem?_eq_getElem inTable)
  unfold ElfFile.progamHeaders
  rw [ElfFile.header_layOut table.entryFits table.countFits]
  simp only [bind, Except.bind, first, true_or, if_true, pure, Except.pure,
    reads]

theorem ElfFile.readHeaders_layOut
    (table : LoadTable entry headers body) :
    (ElfFile.layOut entry headers body).readHeaders = headers := by
  unfold ElfFile.readHeaders
  rw [ElfFile.progamHeaders_layOut table]
  simp only [List.filterMap_map]
  exact List.filterMap_some

theorem ElfFile.loadHeaders_layOut
    (table : LoadTable entry headers body) :
    (ElfFile.layOut entry headers body).loadHeaders = headers := by
  unfold ElfFile.loadHeaders
  rw [ElfFile.readHeaders_layOut table,
    List.filter_eq_self]
  intro header member
  simpa using table.allLoad header member

theorem ElfFile.readable_layOut
    (table : LoadTable entry headers body) :
    (ElfFile.layOut entry headers body).Readable := by
  unfold ElfFile.Readable
  rw [ElfFile.progamHeaders_layOut table,
    ElfFile.readHeaders_layOut table]

theorem ProgramHeader.segmentPages_of_lt {header : ProgramHeader}
    (low : header.virtualAddress + header.segmentMemSize < 2 ^ 48) :
    header.segmentPages = .ok header.pages := by
  have lowStart : header.virtualAddress < 2 ^ 48 := by omega
  have added :
      checkedAdd header.virtualAddress header.segmentMemSize =
        .ok (header.virtualAddress + header.segmentMemSize) :=
    checkedAdd_eq_ok.mpr ⟨by unfold wordSize; omega, rfl⟩
  unfold ProgramHeader.segmentPages ProgramHeader.pages
    ProgramHeader.firstPage ProgramHeader.lastPage
  rw [added]
  simp only [VirtAddr.new, lowStart, low, dif_pos, bind, Except.bind, pure,
    Except.pure, Page.containingAddress, PageSize.bytes, Nat.mod_eq_of_lt]

/-- A laid out file can be loaded. -/
theorem loadable_layOut
    (table : LoadTable entry headers body) :
    Loadable (ElfFile.layOut entry headers body) := by
  have long := ElfFile.layOut_length entry headers body
  have listed := ElfFile.loadHeaders_layOut table
  have short := table.short
  refine ⟨ElfFile.readable_layOut table, ?_, ?_⟩
  · intro header member
    rw [listed] at member
    exact ProgramHeader.segmentPages_of_lt (table.low header member)
  · intro header member positive
    rw [listed] at member
    apply ElfFile.segment_of_within positive
    · rw [long]
      exact table.within header member
    · omega

end Layout

end RustKernel.Loader
