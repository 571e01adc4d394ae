import RustKernel.Loader.ActiveCopy

/-!
# Copies that leave their frames

The part of a copy that is behind its frame goes to the next page of the
active address space.  When that page does not lead back to the frame, a run
that goes on has written to other memory, and the log shows it for good: a run
that returns has kept its copies inside only if every segment fits.
-/

namespace RustKernel.Loader

open RustKernel.Foundations
open RustKernel.Machine
open RustKernel.Memory
open RustKernel.Paging

/-! ## The page behind a frame -/

section Behind

variable {T : Type} [Mapper T]

/-- The page behind the address of the frame does not lead back to it. -/
def LeadsOn (table : T) (frame : PhysFrame .size4KiB) : Prop :=
  ∀ physical, translateAddr table (frame.startAddress + 4096) = some physical →
    ¬ frame.Holds physical

theorem LeadsOn.of_empty [LawfulMapper T] {table : T} (empty : Empty table)
    (frame : PhysFrame .size4KiB) : LeadsOn table frame := by
  intro physical translated
  have noLeaf : translate table (frame.startAddress + 4096) = none :=
    translate_of_unmapped (unmapped_of_empty empty _)
  rw [translateAddr_eq, noLeaf] at translated
  cases translated

/-- `identity_map` leads to other frames only at their own addresses. -/
theorem LeadsOn.identityMapped [LawfulMapper T] {before : T}
    {supply : FrameAllocator} {frame target : PhysFrame .size4KiB}
    {outcome : MapOutcome T .size4KiB}
    (effect :
      MapToEffect (identityPage target) target presentWritable before supply
        outcome)
    (leads : LeadsOn before frame) : LeadsOn outcome.table frame := by
  intro physical translated inside
  rw [translateAddr_eq, Option.map_eq_some_iff] at translated
  obtain ⟨⟨_, flags⟩, translated, rfl⟩ := translated
  obtain ⟨size, held, leaf, rfl⟩ := translate_eq_some.mp translated
  have old :
      ∀ (size : PageSize) (other : Page size) held given,
        entry before size other = .leaf held given →
          other.number = (frame.startAddress + 4096) / size.bytes →
            ¬ frame.Holds
              (held.startAddress + (frame.startAddress + 4096) %
                size.bytes) := by
    intro size other held given leaf numbered
    apply leads
    have here :
        entry before size ⟨(frame.startAddress + 4096) / size.bytes⟩ =
          .leaf held given := by
      rw [← numbered]
      exact leaf
    rw [translateAddr_eq, translate_of_leaf here]
    rfl
  refine effect.leaves_after old ?_ ?_ leaf rfl inside
  · intro _ numbered holds
    simp only [identityPage, PhysFrame.Holds, PhysFrame.startAddress,
      PageSize.bytes] at numbered holds
    omega
  · exact fun _ _ _ _ _ _ same => same

end Behind

/-! ## The log -/

section Log

variable {T C : Type} [StoredMapper T] [StoredMapper C]

/-- Stores are logged for good. -/
def KeepsStores (before after : Machine T C) : Prop :=
  ∀ store ∈ before.stores, store ∈ after.stores

instance : LoaderRelation (KeepsStores (T := T) (C := C)) where
  refl := fun _ _ member => member
  trans := fun earlier later store member =>
    later store (earlier store member)
  drawFrame := fun _ _ member => member
  mapped := fun _ _ _ _ _ _ member => List.mem_append_left _ member
  identityMapped := fun _ _ _ member => List.mem_append_left _ member

omit [StoredMapper T] [StoredMapper C] in
theorem KeepsStores.spilled {before after : Machine T C}
    (kept : KeepsStores before after)
    (spilled : ¬ CopiesInside before.stores) : ¬ CopiesInside after.stores :=
  fun inside => spilled fun store member => inside store (kept store member)

theorem keepsStores_writePart (origin : Origin) (pointer : Nat)
    (bytes : List UInt8) :
    Preserves (KeepsStores (T := T) (C := C))
      (writePart origin pointer bytes) := by
  by_cases nonempty : bytes = []
  · rw [writePart, if_pos nonempty]
    exact Preserves.pure ()
  · intro state
    rw [writePart_run origin pointer nonempty]
    cases translatePointer state.current pointer with
    | some target => exact fun _ member => List.mem_append_left _ member
    | none => exact fun _ member => member

theorem keepsStores_mapTurn {afterMap : AfterMap} {fileSize : Nat}
    (page : Page .size4KiB) (frame : PhysFrame .size4KiB) :
    Preserves (KeepsStores (T := T) (C := C))
      (do
        let answer ← mapNew page frame presentWritableUser
        MonadExcept.ofExcept (afterMap answer)
        return nextFileSize fileSize) := by
  refine Preserves.bind (preserves_mapNew page frame rfl) ?_
  intro answer
  apply Preserves.ofExcept_bind
  intro _ _
  exact Preserves.pure _

theorem keepsStores_copyPage {header : ProgramHeader} {data : List UInt8}
    {afterMap : AfterMap} {fileSize : Nat} {page : Page .size4KiB} :
    Preserves (KeepsStores (T := T) (C := C))
      (throughActive.copyPage header data afterMap fileSize page) := by
  refine Preserves.bind (preserves_allocateFrame _) ?_
  intro frame
  have identity :
      Preserves (KeepsStores (T := T) (C := C)) (identityMapThrough frame) := by
    unfold identityMapThrough
    split
    · exact fun state => LoaderRelation.identityMapped frame state
    · exact Preserves.throw _
  refine Preserves.bind identity ?_
  intro _
  apply Preserves.ofExcept_bind
  intro bytes _
  have copy :
      Preserves (KeepsStores (T := T) (C := C))
        (copyThrough header page frame bytes) :=
    Preserves.bind (keepsStores_writePart _ _ _) fun _ =>
      keepsStores_writePart _ _ _
  exact Preserves.bind copy fun _ => keepsStores_mapTurn page frame

theorem keepsStores_copyPages {header : ProgramHeader} {data : List UInt8}
    {afterMap : AfterMap} {fileSize : Nat} (pages : List (Page .size4KiB)) :
    Preserves (KeepsStores (T := T) (C := C))
      (pages.foldlM (throughActive.copyPage header data afterMap)
        fileSize) :=
  Preserves.foldlM (fun _ => True) trivial
    (fun _ _ _ _ => keepsStores_copyPage) (fun _ _ _ _ _ _ _ => trivial)

theorem keepsStores_loadSegment {elf : ElfFile} {afterMap : AfterMap}
    (header : ProgramHeader) :
    Preserves (KeepsStores (T := T) (C := C))
      (throughActive.loadSegment elf afterMap header) := by
  apply Preserves.ofExcept_bind
  intro pages _
  apply Preserves.ofExcept_bind
  intro data _
  cases data with
  | none => exact Preserves.pure ()
  | some data =>
      exact Preserves.bind (keepsStores_copyPages pages) fun _ =>
        Preserves.pure ()

end Log

/-! ## Runs that return -/

section Fate

variable {T C : Type} [StoredMapper T] [StoredMapper C]
variable {begun : FrameAllocator} {state final : Machine T C}

/-- The pages behind the frames still to be drawn do not lead back to them. -/
structure Ahead (begun : FrameAllocator) (state : Machine T C) : Prop
    extends Clear begun state where
  leads :
    ∀ index frame, state.allocator.drawn ≤ index →
      state.allocator.answers index = some frame →
        LeadsOn state.current frame

/-- All copies were made in their frames, or one was not. -/
def Fate (begun : FrameAllocator) (state : Machine T C) : Prop :=
  Ahead begun state ∨ ¬ CopiesInside state.stores

/-- What leads on goes on to do so. -/
def KeepsLeading (before after : Machine T C) : Prop :=
  ∀ frame, LeadsOn before.current frame → LeadsOn after.current frame

variable [LawfulMapper T] [LawfulMapper C]

omit [StoredMapper T] [LawfulMapper T] in
theorem keepsLeading_identityMapped (target : PhysFrame .size4KiB)
    (state : Machine T C) :
    KeepsLeading state (state.identityMapped target) :=
  fun _ leads =>
    leads.identityMapped
      (LawfulMapper.mapTo_effect state.current state.allocator
        (identityPage target) target presentWritable rfl)

instance : LoaderRelation (KeepsLeading (T := T) (C := C)) where
  refl := fun _ _ leads => leads
  trans := fun earlier later frame leads => later frame (earlier frame leads)
  drawFrame := fun _ _ leads => leads
  mapped := fun _ _ _ _ _ _ leads => leads
  identityMapped := keepsLeading_identityMapped

omit [LawfulMapper T] [LawfulMapper C] in
theorem Ahead.of_clear (ahead : Ahead begun state) (clear : Clear begun final)
    (advances : state.allocator.Advances final.allocator)
    (kept : KeepsLeading state final) : Ahead begun final where
  toClear := clear
  leads := by
    intro index frame lower given
    rw [advances.answers_eq] at given
    exact kept frame
      (ahead.leads index frame (Nat.le_trans advances.drawn_le lower) given)

/-- What a step that copies nothing keeps. -/
def KeepsAhead (begun : FrameAllocator) (before after : Machine T C) : Prop :=
  Ahead begun before → Ahead begun after

instance : LoaderRelation (KeepsAhead (T := T) (C := C) begun) where
  refl := fun _ ahead => ahead
  trans := fun earlier later ahead => later (earlier ahead)
  drawFrame := fun state ahead =>
    ahead.of_clear
      (PassRelation.drawFrame (R := KeepsClear begun) state ahead.toClear)
      (PassRelation.drawFrame (R := Grows) state).advances
      fun _ leads => leads
  mapped := fun page frame flags present state ahead =>
    ahead.of_clear
      (PassRelation.mapped (R := KeepsClear begun) page frame flags present
        state ahead.toClear)
      (PassRelation.mapped (R := Grows) page frame flags present
        state).advances
      fun _ leads => leads
  identityMapped := fun frame state ahead =>
    ahead.of_clear
      (LoaderRelation.identityMapped (R := KeepsClear begun) frame state
        ahead.toClear)
      (LoaderRelation.identityMapped (R := Grows) frame state).advances
      (keepsLeading_identityMapped frame state)

variable [LawfulStoredMapper T] [LawfulStoredMapper C]
variable {header : ProgramHeader} {afterMap : AfterMap}
variable {page : Page .size4KiB} {bytes : List UInt8}
variable {frame : PhysFrame .size4KiB}

omit [LawfulMapper T] in
/-- A copy that does not end in its page and returns has left its frame. -/
theorem copyThrough_spills {result : Unit}
    (reached : Reached begun frame state)
    (leads : LeadsOn state.current frame)
    (spills : 4096 < header.virtualAddress % 4096 + bytes.length)
    (returned :
      (copyThrough header page frame bytes).run state = .ok result final) :
    ¬ CopiesInside final.stores := by
  have inPage : header.virtualAddress % 4096 < 4096 :=
    Nat.mod_lt _ (by decide)
  have length :
      (bytes.take (4096 - header.virtualAddress % 4096)).length =
        4096 - header.virtualAddress % 4096 := by
    rw [List.length_take]
    omega
  have front : bytes.take (4096 - header.virtualAddress % 4096) ≠ [] := by
    intro empty
    rw [empty, List.length_nil] at length
    omega
  have back : bytes.drop (4096 - header.virtualAddress % 4096) ≠ [] := by
    rw [ne_eq, List.drop_eq_nil_iff]
    omega
  unfold copyThrough at returned
  rw [bind_run_ok] at returned
  obtain ⟨_, middle, first, second⟩ := returned
  rw [writePart_run _ _ front] at first
  rcases reached.translatePointer inPage with found | ⟨none, _⟩
  · rw [found] at first
    dsimp only at first
    rw [reached.written_eq (by rw [length]; omega)] at first
    cases first
    rw [writePart_run _ _ back] at second
    cases behind :
        translatePointer
          (state.copied header page frame
            (bytes.take (4096 - header.virtualAddress % 4096))).current
          (frame.startAddress + 4096) with
    | none =>
        rw [behind] at second
        cases second
    | some target =>
        rw [behind] at second
        cases second
        intro inside
        have low := reached.low
        obtain ⟨canonical, translated⟩ :
            IsCanonical (frame.startAddress + 4096) ∧
              translateAddr state.current
                ((frame.startAddress + 4096) % 2 ^ 48) = some target := by
          unfold translatePointer at behind
          split at behind
          · next canonical => exact ⟨canonical, behind⟩
          · cases behind
        have same :
            (frame.startAddress + 4096) % 2 ^ 48 =
              frame.startAddress + 4096 := by
          unfold IsCanonical at canonical
          omega
        rw [same] at translated
        apply leads target translated
        have positive := List.length_pos_iff.mpr back
        exact inside _
          (List.mem_append_right _ (List.mem_singleton_self _)) header page
          frame rfl target ⟨Nat.le_refl _, by simp only; omega⟩
  · rw [none] at first
    cases first

/-- A page turn that returns has copied into its frame, and its chunk ended
there, or it has left the frame. -/
theorem copyPage_fate {data : List UInt8} {fileSize next : Nat}
    (ahead : Ahead begun state) (positive : 0 < fileSize)
    (returned :
      (throughActive.copyPage header data afterMap fileSize page).run state =
        .ok next final) :
    Ahead begun final ∧
        header.virtualAddress % 4096 + min fileSize 4096 ≤ 4096 ∨
      ¬ CopiesInside final.stores := by
  by_cases fits : header.virtualAddress % 4096 + min fileSize 4096 ≤ 4096
  · left
    obtain ⟨copied, clear, _⟩ :=
      (refines_copyPage positive fits).of_run_ok ahead.toClear returned
    have grown : Grows state final :=
      (preserves_copyPage (R := Grows) fun frame bytes _ middle =>
        grows_copied header page frame bytes middle).of_run_ok copied
    have kept : KeepsLeading state final :=
      (preserves_copyPage (R := KeepsLeading)
        fun _ _ _ _ _ leads => leads).of_run_ok copied
    exact ⟨ahead.of_clear clear grown.advances kept, fits⟩
  · right
    unfold FrameWriter.copyPage at returned
    rw [bind_run_ok] at returned
    obtain ⟨frame, drawn, answered, returned⟩ := returned
    obtain ⟨answer, rfl⟩ := allocateFrame_run_ok.mp answered
    unfold FrameWriter.copyInto at returned
    rw [bind_run_ok] at returned
    obtain ⟨_, shown, identity, returned⟩ := returned
    change (identityMapThrough frame).run _ = _ at identity
    unfold identityMapThrough at identity
    split at identity
    · next low =>
        cases identity
        have reached := (ahead.toClear.drawn answer).identityMapped low
        have leads :
            LeadsOn (state.drawFrame.identityMapped frame).current frame :=
          keepsLeading_identityMapped frame state.drawFrame frame
            (ahead.leads _ frame (Nat.le_refl _) answer)
        rw [bind_run_ok] at returned
        obtain ⟨bytes, _, sliced, returned⟩ := returned
        rw [ofExcept_run_ok] at sliced
        obtain ⟨sliced, rfl⟩ := sliced
        have length : bytes.length = min fileSize 4096 := by
          rw [slice_eq_ok] at sliced
          rw [sliced.2, bytesAt_length (by omega)]
          omega
        rw [bind_run_ok] at returned
        obtain ⟨_, copied, copying, returned⟩ := returned
        have spilled :=
          copyThrough_spills reached leads (by omega) copying
        have rest : KeepsStores copied final :=
          (keepsStores_mapTurn page frame).of_run_ok returned
        exact rest.spilled spilled
    · cases identity

theorem copyPages_fate {data : List UInt8} {fileSize next : Nat}
    {pages : List (Page .size4KiB)} (fate : Fate begun state)
    (positive : 0 < fileSize)
    (returned :
      (pages.foldlM (throughActive.copyPage header data afterMap)
        fileSize).run state = .ok next final) :
    Fate begun final := by
  rcases fate with ahead | spilled
  · induction pages generalizing state fileSize with
    | nil =>
        rw [List.foldlM_nil, pure_run_ok] at returned
        exact Or.inl (returned.2 ▸ ahead)
    | cons page rest inductionHypothesis =>
        rw [List.foldlM_cons, bind_run_ok] at returned
        obtain ⟨left, middle, turned, ended⟩ := returned
        have isNext := FrameWriter.copyPage_returns_nextFileSize turned
        rcases copyPage_fate ahead positive turned with ⟨ahead, _⟩ | spilled
        · refine inductionHypothesis ?_ ended ahead
          rw [isNext]
          exact nextFileSize_pos positive
        · exact Or.inr
            (((keepsStores_copyPages rest).of_run_ok ended).spilled spilled)
  · exact Or.inr
      (((keepsStores_copyPages pages).of_run_ok returned).spilled spilled)

/-- The first chunk of a segment that does not fit leaves its frame. -/
theorem copyPages_spill {data : List UInt8} {next : Nat}
    (fate : Fate begun state) (positive : 0 < header.segmentFileSize)
    (spills : ¬ FitsFrame header)
    (returned :
      (header.pages.foldlM (throughActive.copyPage header data afterMap)
        header.segmentFileSize).run state = .ok next final) :
    ¬ CopiesInside final.stores := by
  unfold FitsFrame at spills
  rw [not_or] at spills
  obtain ⟨nonempty, long⟩ := spills
  cases listed : header.pages with
  | nil => exact absurd listed nonempty
  | cons page rest =>
      rw [listed, List.foldlM_cons, bind_run_ok] at returned
      obtain ⟨left, middle, turned, ended⟩ := returned
      apply ((keepsStores_copyPages rest).of_run_ok ended).spilled
      rcases fate with ahead | spilled
      · rcases copyPage_fate ahead positive turned with ⟨_, fits⟩ | spilled
        · exact absurd fits long
        · exact spilled
      · exact (keepsStores_copyPage.of_run_ok turned).spilled spilled

theorem loadSegment_fate {elf : ElfFile} {result : Unit}
    (fate : Fate begun state)
    (returned :
      (throughActive.loadSegment elf afterMap header).run state =
        .ok result final) :
    Fate begun final ∧
      (¬ FitsFrame header → ¬ CopiesInside final.stores) := by
  unfold FrameWriter.loadSegment at returned
  rw [bind_run_ok] at returned
  obtain ⟨pages, _, computed, returned⟩ := returned
  rw [ofExcept_run_ok] at computed
  obtain ⟨computed, rfl⟩ := computed
  rw [ProgramHeader.segmentPages_eq_ok computed] at returned
  rw [bind_run_ok] at returned
  obtain ⟨data, _, found, returned⟩ := returned
  rw [ofExcept_run_ok] at found
  obtain ⟨found, rfl⟩ := found
  cases data with
  | none =>
      rw [pure_run_ok] at returned
      refine ⟨returned.2 ▸ fate, ?_⟩
      intro spills
      have empty := ElfFile.segment_eq_none found
      have inPage : header.virtualAddress % 4096 < 4096 :=
        Nat.mod_lt _ (by decide)
      exact absurd (Or.inr (by omega)) spills
  | some data =>
      have positive := (ElfFile.segment_eq_some found).1
      rw [bind_run_ok] at returned
      obtain ⟨next, middle, looped, closed⟩ := returned
      rw [pure_run_ok] at closed
      obtain ⟨_, rfl⟩ := closed
      exact ⟨copyPages_fate fate positive looped,
        fun spills => copyPages_spill fate positive spills looped⟩

/-- A loop that returns with its copies inside has loaded segments that
fit. -/
theorem fits_of_copiesInside {elf : ElfFile} {result : Unit}
    (ahead : Ahead begun state)
    (returned :
      (throughActive.loadSegments elf afterMap).run state =
        .ok result final)
    (inside : CopiesInside final.stores) :
    ∀ header ∈ elf.loadHeaders, FitsFrame header := by
  intro header member
  by_contra spills
  obtain ⟨_, looped⟩ := forLoadSegments_run_ok returned
  obtain ⟨front, back, split⟩ := List.append_of_mem member
  rw [split, forM_append_run_ok] at looped
  obtain ⟨before, begin, looped⟩ := looped
  rw [forM_cons_run_ok] at looped
  obtain ⟨after, turned, ended⟩ := looped
  have fate : Fate begun before :=
    forM_invariant (Fate begun)
      (fun _ _ _ _ fate taken => (loadSegment_fate fate taken).1)
      (Or.inl ahead) begin
  have kept : KeepsStores after final :=
    (Preserves.forM fun other _ =>
      keepsStores_loadSegment other).of_run_ok ended
  exact kept.spilled ((loadSegment_fate fate turned).2 spills) inside

end Fate

end RustKernel.Loader
