import RustKernel.Foundations.Refinement
import RustKernel.Loader.SegmentImage
import RustKernel.Paging.StoredTable
import RustKernel.Paging.Translation

/-!
# Copies through the active address space

The loaders write to a frame at its own address, through whatever the active
table maps there, and the physical memory that they reach also stores the page
tables.  `throughActive` is that write.  When the allocator gives frames that
are unused, the page at the address of each of them is free or maps it, and
every segment fits, the copies land in their frames and touch no table: the
loaders then run as they do with `toFrames`.
-/

namespace RustKernel.Loader

open RustKernel.Foundations
open RustKernel.Machine
open RustKernel.Memory
open RustKernel.Paging

/-! ## The copy loop on the processor -/

section Copy

variable {T C : Type} [StoredMapper T] [StoredMapper C]

/-- The bytes of a store have been written to physical memory; the tables are
read from there. -/
def Machine.written (store : Store Origin) (state : Machine T C) :
    Machine T C :=
  { state with
    table := struck ⟨(), store.address, store.bytes⟩ state.table
    current := struck ⟨(), store.address, store.bytes⟩ state.current
    stores := state.stores ++ [store] }

/-- The part of a copy that lies in one page of the active address space. -/
def writePart (origin : Origin) (pointer : Nat) (bytes : List UInt8) :
    EStateM Panic (Machine T C) Unit := do
  if bytes = [] then return ()
  let state ← get
  match translatePointer state.current pointer with
  | some target => set (state.written ⟨origin, target, bytes⟩)
  | none => throw .pageFault

/-- `copy_from_slice` to the address of the frame; the copy begins at the
offset of the segment in its first page. -/
def copyThrough (header : ProgramHeader) (page : Page .size4KiB)
    (frame : PhysFrame .size4KiB) (bytes : List UInt8) :
    EStateM Panic (Machine T C) Unit := do
  let offset := header.virtualAddress % 4096
  let origin := Origin.segmentCopy header page frame
  writePart origin (frame.startAddress + offset) (bytes.take (4096 - offset))
  writePart origin (frame.startAddress + 4096) (bytes.drop (4096 - offset))

/-- `identity_map`: a physical address from `2 ^ 48` on is no virtual one. -/
def identityMapThrough (frame : PhysFrame .size4KiB) :
    EStateM Panic (Machine T C) Unit :=
  if frame.startAddress < 2 ^ 48 then modify (Machine.identityMapped frame)
  else throw .virtAddrInvalid

def throughActive : FrameWriter T C where
  identityMap := identityMapThrough
  copy := copyThrough

end Copy

/-! ## Frames at their own addresses -/

section Ready

variable {T : Type} [Mapper T]

/-- The table maps the addresses of the frame to the frame. -/
def ShowsFrame (table : T) (frame : PhysFrame .size4KiB) : Prop :=
  ∀ offset < 4096,
    translateAddr table (frame.startAddress + offset) =
      some (frame.startAddress + offset)

/-- `identity_map` reaches the frame: the page at its address is free, or maps
it already. -/
def IdentityReady (table : T) (frame : PhysFrame .size4KiB) : Prop :=
  Unmapped table (identityPage frame) ∨ ShowsFrame table frame

variable [LawfulMapper T]

variable {before : T} {supply : FrameAllocator} {frame : PhysFrame .size4KiB}

theorem ShowsFrame.of_leaf {flags : PageTableFlags}
    (leaf : entry before .size4KiB (identityPage frame) = .leaf frame flags) :
    ShowsFrame before frame := by
  intro offset inPage
  have inside :
      (frame.startAddress + offset) / 4096 = (identityPage frame).number := by
    simp only [identityPage, PhysFrame.startAddress, PageSize.bytes]
    omega
  have remainder : (frame.startAddress + offset) % 4096 = offset := by
    simp only [PhysFrame.startAddress, PageSize.bytes]
    omega
  rw [translateAddr_of_leaf leaf inside, remainder]

/-- Behind `identity_map`, a frame that was ready is at its address, unless
the allocator has refused a frame for a table. -/
theorem IdentityReady.shown_or_refused
    {outcome : MapOutcome T .size4KiB}
    (effect :
      MapToEffect (identityPage frame) frame presentWritable before supply
        outcome)
    (ready : IdentityReady before frame) :
    ShowsFrame outcome.table frame ∨
      Unmapped outcome.table (identityPage frame) ∧
        supply.Answered outcome.allocator none := by
  rcases ready with unmapped | shown
  · by_cases succeeded : outcome.result = .ok ()
    · exact Or.inl (ShowsFrame.of_leaf (effect.mapped succeeded).2)
    · right
      refine ⟨⟨?_, ?_⟩, ?_⟩
      · rw [effect.targetKept succeeded]
        exact unmapped.unused
      · exact effect.noHugeParent_kept (Nat.le_refl _) unmapped.noHugeParent
      · by_contra neverOut
        exact succeeded (effect.ok_of_unmapped unmapped neverOut)
  · left
    intro offset inPage
    exact effect.translateAddr_kept (shown offset inPage)

/-- `identity_map` for one frame leaves every frame ready. -/
theorem IdentityReady.identityMapped
    {target : PhysFrame .size4KiB} {outcome : MapOutcome T .size4KiB}
    (effect :
      MapToEffect (identityPage target) target presentWritable before supply
        outcome)
    (ready : IdentityReady before frame) :
    IdentityReady outcome.table frame := by
  by_cases same : frame = target
  · subst same
    rcases ready.shown_or_refused effect with shown | ⟨unmapped, _⟩
    · exact Or.inr shown
    · exact Or.inl unmapped
  rcases ready with unmapped | shown
  · left
    apply effect.unmapped_kept unmapped
    rw [apart_iff_ne]
    intro samePage
    apply same
    cases frame
    cases target
    exact (congrArg PhysFrame.mk (Page.mk.inj samePage)).symm
  · right
    intro offset inPage
    exact effect.translateAddr_kept (shown offset inPage)

end Ready

/-! ## Copies that land in their frames -/

section Land

variable {T C : Type} [StoredMapper T] [StoredMapper C]
variable {begun : FrameAllocator} {state : Machine T C}
variable {frame : PhysFrame .size4KiB}

/-- The frames still to be drawn are unused and can be reached, and the copies
so far are in their frames. -/
structure Clear (begun : FrameAllocator) (state : Machine T C) : Prop where
  advances : begun.Advances state.allocator
  fresh : Fresh state
  ready :
    ∀ index frame, state.allocator.drawn ≤ index →
      state.allocator.answers index = some frame →
        IdentityReady state.current frame
  inside : CopiesInside state.stores

/-- The frame has just been drawn. -/
structure Drawn (begun : FrameAllocator) (frame : PhysFrame .size4KiB)
    (state : Machine T C) : Prop extends Clear begun state where
  settled : Settled frame state
  given : begun.Answered state.allocator (some frame)
  reached : IdentityReady state.current frame

/-- `identity_map` has been called for the frame. -/
structure Reached (begun : FrameAllocator) (frame : PhysFrame .size4KiB)
    (state : Machine T C) : Prop extends Clear begun state where
  settled : Settled frame state
  given : begun.Answered state.allocator (some frame)
  shown :
    ShowsFrame state.current frame ∨
      Unmapped state.current (identityPage frame) ∧
        begun.Answered state.allocator none
  low : frame.startAddress < 2 ^ 48

/-- A frame was refused, or one was given whose address is no virtual address
of the lower half. -/
def Lost (begun : FrameAllocator) (state : Machine T C) : Prop :=
  begun.Answered state.allocator none ∨
    ∃ frame, begun.Answered state.allocator (some frame) ∧
      2 ^ 47 ≤ frame.startAddress

section Steps

variable [LawfulMapper T] [LawfulMapper C]

/-- What a step that copies nothing keeps. -/
def KeepsClear (begun : FrameAllocator) (before after : Machine T C) : Prop :=
  Clear begun before → Clear begun after

/-- The frames that can be reached stay so. -/
def KeepsReady (before after : Machine T C) : Prop :=
  ∀ frame, IdentityReady before.current frame →
    IdentityReady after.current frame

omit [StoredMapper T] [LawfulMapper T] in
theorem keepsReady_identityMapped (target : PhysFrame .size4KiB)
    (state : Machine T C) :
    KeepsReady state (state.identityMapped target) :=
  fun _ ready =>
    ready.identityMapped
      (LawfulMapper.mapTo_effect state.current state.allocator
        (identityPage target) target presentWritable rfl)

instance : LoaderRelation (KeepsReady (T := T) (C := C)) where
  refl := fun _ _ ready => ready
  trans := fun earlier later frame ready => later frame (earlier frame ready)
  drawFrame := fun _ _ ready => ready
  mapped := fun _ _ _ _ _ _ ready => ready
  identityMapped := keepsReady_identityMapped

omit [LawfulMapper T] [LawfulMapper C] in
theorem Clear.of_grows {before after : Machine T C}
    (clear : Clear begun before) (grown : Grows before after)
    (kept : KeepsReady before after) (inside : KeepsInside before after) :
    Clear begun after where
  advances := clear.advances.trans grown.advances
  fresh := clear.fresh.grows grown
  ready := by
    intro index frame lower given
    rw [grown.advances.answers_eq] at given
    exact kept frame
      (clear.ready index frame (Nat.le_trans grown.advances.drawn_le lower)
        given)
  inside := inside clear.inside

instance : LoaderRelation (KeepsClear (T := T) (C := C) begun) where
  refl := fun _ clear => clear
  trans := fun earlier later clear => later (earlier clear)
  drawFrame := fun state clear =>
    clear.of_grows (PassRelation.drawFrame state) (fun _ ready => ready)
      (fun inside => inside)
  mapped := fun page frame flags present state clear =>
    clear.of_grows (PassRelation.mapped page frame flags present state)
      (fun _ ready => ready)
      (keepsInside_of_append rfl (copiesInside_tableStores _))
  identityMapped := fun frame state clear =>
    clear.of_grows (LoaderRelation.identityMapped frame state)
      (keepsReady_identityMapped frame state)
      (keepsInside_of_append rfl (copiesInside_tableStores _))

theorem Clear.drawn (clear : Clear begun state)
    (answer : state.allocator.answers state.allocator.drawn = some frame) :
    Drawn begun frame state.drawFrame where
  toClear := PassRelation.drawFrame (R := KeepsClear begun) state clear
  settled := clear.fresh.settled answer
  given :=
    ⟨state.allocator.drawn, clear.advances.drawn_le, Nat.lt_succ_self _, by
      rw [← clear.advances.answers_eq]
      exact answer⟩
  reached := clear.ready _ frame (Nat.le_refl _) answer

theorem Drawn.identityMapped (drawn : Drawn begun frame state)
    (low : frame.startAddress < 2 ^ 48) :
    Reached begun frame (state.identityMapped frame) := by
  have effect :=
    LawfulMapper.mapTo_effect state.current state.allocator
      (identityPage frame) frame presentWritable rfl
  have clear : Clear begun (state.identityMapped frame) :=
    LoaderRelation.identityMapped (R := KeepsClear begun) frame state
      drawn.toClear
  refine ⟨clear, ?_, ?_, ?_, low⟩
  · exact drawn.settled.grows (LoaderRelation.identityMapped frame state)
  · exact drawn.given.earlier effect.advances
  · rcases drawn.reached.shown_or_refused effect with
      shown | ⟨unmapped, refused⟩
    · exact Or.inl shown
    · exact Or.inr ⟨unmapped, refused.later drawn.advances⟩

end Steps

variable {header : ProgramHeader} {page : Page .size4KiB}
variable {bytes : List UInt8}

theorem Reached.copied (reached : Reached begun frame state)
    (fits : header.virtualAddress % 4096 + bytes.length ≤ 4096) :
    Clear begun (state.copied header page frame bytes) where
  advances := reached.advances
  fresh := reached.fresh
  ready := reached.ready
  inside := keepsInside_copied fits state reached.inside

omit [StoredMapper T] [StoredMapper C] in
theorem writePart_run [StoredMapper T] [StoredMapper C] (origin : Origin)
    (pointer : Nat) (nonempty : bytes ≠ []) (state : Machine T C) :
    (writePart origin pointer bytes).run state =
      match translatePointer state.current pointer with
      | some target => .ok () (state.written ⟨origin, target, bytes⟩)
      | none => .error .pageFault state := by
  unfold writePart
  rw [if_neg nonempty, bind_run, get_run]
  dsimp only
  cases translatePointer state.current pointer with
  | some target => rfl
  | none => rfl

/-- A pointer into the frame leads to the frame, or the run is lost. -/
theorem Reached.translatePointer [LawfulMapper C]
    (reached : Reached begun frame state) {offset : Nat}
    (inPage : offset < 4096) :
    translatePointer state.current (frame.startAddress + offset) =
        some (frame.startAddress + offset) ∨
      translatePointer state.current (frame.startAddress + offset) = none ∧
        Lost begun state := by
  have low := reached.low
  have whole : frame.startAddress % 4096 = 0 := by
    simp [PhysFrame.startAddress, PageSize.bytes]
  unfold Paging.translatePointer
  by_cases canonical : IsCanonical (frame.startAddress + offset)
  · have same :
        (frame.startAddress + offset) % 2 ^ 48 =
          frame.startAddress + offset := by
      omega
    rw [if_pos canonical, same]
    rcases reached.shown with shown | ⟨unmapped, refused⟩
    · exact Or.inl (shown offset inPage)
    · right
      have page :
          (⟨(frame.startAddress + offset) / PageSize.size4KiB.bytes⟩ :
            Page .size4KiB) = identityPage frame := by
        simp only [identityPage, PhysFrame.startAddress, PageSize.bytes,
          Page.mk.injEq]
        omega
      rw [← page] at unmapped
      rw [translateAddr_eq, translate_of_unmapped unmapped]
      exact ⟨rfl, Or.inl refused⟩
  · refine Or.inr ⟨if_neg canonical, Or.inr ⟨frame, reached.given, ?_⟩⟩
    unfold IsCanonical at canonical
    omega

variable [LawfulStoredMapper T] [LawfulStoredMapper C]

/-- A store inside a frame that stores no table. -/
theorem Reached.written_eq (reached : Reached begun frame state)
    (fits : header.virtualAddress % 4096 + bytes.length ≤ 4096) :
    state.written
        ⟨.segmentCopy header page frame,
          frame.startAddress + header.virtualAddress % 4096, bytes⟩ =
      state.copied header page frame bytes := by
  have inFrame :
      ∀ target,
        (⟨(), frame.startAddress + header.virtualAddress % 4096, bytes⟩ :
          Store Unit).Covers target → frame.Holds target := by
    intro target covered
    simp only [Store.Covers] at covered
    simp only [PhysFrame.Holds, PageSize.bytes]
    omega
  unfold Machine.written Machine.copied
  rw [LawfulStoredMapper.struck_elsewhere, LawfulStoredMapper.struck_elsewhere]
  · intro held stored target covered holds
    rw [PhysFrame.eq_of_holds holds (inFrame target covered)] at stored
    exact reached.settled.notCurrent stored
  · intro held stored target covered holds
    rw [PhysFrame.eq_of_holds holds (inFrame target covered)] at stored
    exact reached.settled.notTable stored

/-- A copy that ends in its page lands in its frame. -/
theorem refines_copyThrough [LawfulMapper C] (nonempty : bytes ≠ [])
    (fits : header.virtualAddress % 4096 + bytes.length ≤ 4096) :
    Refines (Reached (T := T) (C := C) begun frame)
      (fun _ => Clear begun) (fun final => CopiesInside final.stores)
      (Lost begun) (copyThrough header page frame bytes)
      (toFrames.copy header page frame bytes) := by
  intro state reached
  have inPage : header.virtualAddress % 4096 < 4096 :=
    Nat.mod_lt _ (by decide)
  have taken : bytes.take (4096 - header.virtualAddress % 4096) = bytes :=
    List.take_of_length_le (by omega)
  have nothing : bytes.drop (4096 - header.virtualAddress % 4096) = [] :=
    List.drop_eq_nil_of_le (by omega)
  have written :=
    writePart_run (.segmentCopy header page frame)
      (frame.startAddress + header.virtualAddress % 4096) nonempty state
  unfold copyThrough
  dsimp only
  rw [taken, nothing, bind_run, written]
  rcases reached.translatePointer inPage with found | ⟨none, lost⟩
  · rw [found]
    dsimp only
    rw [reached.written_eq fits]
    exact ⟨rfl, reached.copied fits⟩
  · rw [none]
    exact ⟨reached.inside, Or.inr lost⟩

end Land

/-! ## The loaders on the processor -/

section Loaders

variable {T C : Type} [StoredMapper T] [StoredMapper C]
variable [LawfulMapper T] [LawfulMapper C]
variable {begun : FrameAllocator}

omit [LawfulMapper T] [LawfulMapper C] in
theorem Clear.kept {α : Type} {Before : Machine T C → Prop}
    {After : α → Machine T C → Prop}
    {program : EStateM Panic (Machine T C) α}
    (preserved : Preserves (KeepsClear (T := T) (C := C) begun) program)
    (before : ∀ state, Before state → Clear begun state)
    (after :
      ∀ state value final, Before state →
        program.run state = .ok value final → Clear begun final →
          After value final) :
    Refines Before After (fun final => CopiesInside final.stores)
      (Lost begun) program program :=
  Refines.of_preserves preserved
    (fun state value final held returned kept =>
      after state value final held returned (kept (before state held)))
    (fun state _ held kept => (kept (before state held)).inside)

theorem refines_allocateFrame (text : String) :
    Refines (Clear (T := T) (C := C) begun) (Drawn begun)
      (fun final => CopiesInside final.stores) (Lost begun)
      (allocateFrame text) (allocateFrame text) := by
  apply Clear.kept (preserves_allocateFrame text) fun _ clear => clear
  intro _ frame _ clear returned _
  obtain ⟨answer, rfl⟩ := allocateFrame_run_ok.mp returned
  exact clear.drawn answer

theorem refines_identityMap (frame : PhysFrame .size4KiB) :
    Refines (Drawn (T := T) (C := C) begun frame)
      (fun _ => Reached begun frame)
      (fun final => CopiesInside final.stores) (Lost begun)
      (identityMapThrough frame) (toFrames.identityMap frame) := by
  intro state drawn
  unfold identityMapThrough
  by_cases low : frame.startAddress < 2 ^ 48
  · rw [if_pos low, modify_run]
    exact ⟨rfl, drawn.identityMapped low⟩
  · rw [if_neg low]
    exact ⟨drawn.inside, Or.inr (Or.inr ⟨frame, drawn.given, by omega⟩)⟩

variable [LawfulStoredMapper T] [LawfulStoredMapper C]
variable {header : ProgramHeader} {afterMap : AfterMap}

/-- A page turn whose chunk ends in its page. -/
theorem refines_copyPage {data : List UInt8} {fileSize : Nat}
    {page : Page .size4KiB} (positive : 0 < fileSize)
    (fits : header.virtualAddress % 4096 + min fileSize 4096 ≤ 4096) :
    Refines (Clear (T := T) (C := C) begun)
      (fun next state => Clear begun state ∧ next = nextFileSize fileSize)
      (fun final => CopiesInside final.stores) (Lost begun)
      (throughActive.copyPage header data afterMap fileSize page)
      (toFrames.copyPage header data afterMap fileSize page) := by
  apply Refines.bind (refines_allocateFrame _)
  intro frame
  apply Refines.bind (refines_identityMap frame)
  intro _
  apply Refines.ofExcept_bind fun _ reached => reached.inside
  intro bytes sliced
  have length : bytes.length = min fileSize 4096 := by
    rw [slice_eq_ok] at sliced
    rw [sliced.2, bytesAt_length (by omega)]
    omega
  have nonempty : bytes ≠ [] := by
    intro empty
    rw [empty, List.length_nil] at length
    omega
  apply Refines.bind (refines_copyThrough nonempty (by omega))
  intro _
  apply Refines.bind
    (Clear.kept (preserves_mapNew page frame rfl) (fun _ clear => clear)
      fun _ _ _ _ _ clear => clear)
  intro answer
  apply Refines.ofExcept_bind fun _ clear => clear.inside
  intro _ _
  exact Refines.pure fun _ clear => ⟨clear, rfl⟩

theorem nextFileSize_pos {fileSize : Nat} (positive : 0 < fileSize) :
    0 < nextFileSize fileSize := by
  unfold nextFileSize
  split <;> omega

/-- Segments that fit are loaded as if every copy were sent to its frame. -/
theorem refines_loadSegments {elf : ElfFile}
    (fits : ∀ header ∈ elf.loadHeaders, FitsFrame header) :
    Refines (Clear (T := T) (C := C) begun) (fun _ => Clear begun)
      (fun final => CopiesInside final.stores) (Lost begun)
      (throughActive.loadSegments elf afterMap) (loadSegments elf afterMap) := by
  apply Refines.ofExcept_bind fun _ clear => clear.inside
  intro reads listed
  apply Refines.forM
  intro read member
  unfold onLoad
  apply Refines.ofExcept_bind fun _ clear => clear.inside
  intro header found
  split
  · next isLoad =>
      have loads : header ∈ elf.loadHeaders := by
        rw [ElfFile.mem_loadHeaders]
        refine ⟨?_, isLoad⟩
        simp only [ElfFile.readHeaders, listed, List.mem_filterMap]
        exact ⟨read, member, by simp [found, Except.toOption]⟩
      apply Refines.ofExcept_bind fun _ clear => clear.inside
      intro pages computed
      rw [ProgramHeader.segmentPages_eq_ok computed]
      apply Refines.ofExcept_bind fun _ clear => clear.inside
      intro data segment
      cases data with
      | none => exact Refines.pure fun _ clear => clear
      | some data =>
          have positive := (ElfFile.segment_eq_some segment).1
          have looped :
              Refines (Clear (T := T) (C := C) begun) (fun _ => Clear begun)
                (fun final => CopiesInside final.stores) (Lost begun)
                (header.pages.foldlM
                  (throughActive.copyPage header data afterMap)
                  header.segmentFileSize)
                (header.pages.foldlM (toFrames.copyPage header data afterMap)
                  header.segmentFileSize) := by
            apply Refines.foldlM
              (fun fileSize =>
                0 < fileSize ∧
                  min fileSize 4096 ≤ min header.segmentFileSize 4096)
              ⟨positive, Nat.le_refl _⟩
            rintro page inRange fileSize ⟨left, bounded⟩
            have fitting :
                header.virtualAddress % 4096 + min fileSize 4096 ≤ 4096 := by
              rcases fits header loads with empty | fitting
              · rw [empty] at inRange
                cases inRange
              · omega
            apply (refines_copyPage left fitting).mono
            rintro next state ⟨clear, rfl⟩
            exact ⟨clear, nextFileSize_pos left,
              Nat.le_trans (min_nextFileSize_le fileSize) bounded⟩
          exact Refines.bind looped fun _ => Refines.pure fun _ clear => clear
  · exact Refines.pure fun _ clear => clear

theorem refines_kernelFromElf {elf : ElfFile}
    (descriptors : List MemoryDescriptor)
    (kernelStackStart kernelStackEnd mem : Nat)
    (fits : ∀ header ∈ elf.loadHeaders, FitsFrame header) :
    Refines (Clear (T := T) (C := C) begun) (fun _ => Clear begun)
      (fun final => CopiesInside final.stores) (Lost begun)
      (throughActive.kernelFromElf descriptors elf kernelStackStart
        kernelStackEnd mem)
      (kernelFromElf descriptors elf kernelStackStart kernelStackEnd mem) := by
  apply Refines.bind
    (Clear.kept (preserves_kernelSetup _ _ _ _) (fun _ clear => clear)
      fun _ _ _ _ _ clear => clear)
  intro _
  apply Refines.ofExcept_bind fun _ clear => clear.inside
  intro header _
  apply Refines.bind (refines_loadSegments fits)
  intro _
  exact Clear.kept (preserves_makeProcess header) (fun _ clear => clear)
    fun _ _ _ _ _ clear => clear

theorem refines_fromElf {elf : ElfFile} (kernel : ElfFile)
    (kernelStackStart kernelStackEnd mem : Nat)
    (fits : ∀ header ∈ elf.loadHeaders, FitsFrame header) :
    Refines (Clear (T := T) (C := C) begun) (fun _ => Clear begun)
      (fun final => CopiesInside final.stores) (Lost begun)
      (throughActive.fromElf elf kernel kernelStackStart kernelStackEnd mem)
      (fromElf elf kernel kernelStackStart kernelStackEnd mem) := by
  apply Refines.bind
    (Clear.kept (preserves_userSetup _ _ _) (fun _ clear => clear)
      fun _ _ _ _ _ clear => clear)
  intro _
  apply Refines.ofExcept_bind fun _ clear => clear.inside
  intro _ _
  apply Refines.bind
    (Clear.kept (preserves_mapKernel kernel) (fun _ clear => clear)
      fun _ _ _ _ _ clear => clear)
  intro _
  apply Refines.ofExcept_bind fun _ clear => clear.inside
  intro header _
  apply Refines.bind (refines_loadSegments fits)
  intro _
  exact Clear.kept (preserves_makeProcess header) (fun _ clear => clear)
    fun _ _ _ _ _ clear => clear

omit [LawfulMapper T] [LawfulStoredMapper T] [LawfulStoredMapper C] in
/-- Copies that are sent to their frames leave the active table alone. -/
theorem keepsReady_fromElf {elf kernel : ElfFile}
    {kernelStackStart kernelStackEnd mem : Nat} :
    Preserves (KeepsReady (T := T) (C := C))
      (fromElf elf kernel kernelStackStart kernelStackEnd mem) := by
  apply preserves_fromElf
  apply preserves_loadSegments
  intro header _ data fileSize page _ _
  apply preserves_copyPage
  intro frame bytes _ state other ready
  exact ready

end Loaders

end RustKernel.Loader
