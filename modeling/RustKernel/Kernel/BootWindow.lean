import RustKernel.Kernel.MapVirt

/-!
# The window on the boot image

`_start` maps the boot image twice: `map_virt` pairs the frames of the image
with the pages from `BOOT_IMAGE` on, as many as the length of the image covers
from an aligned start, and an explicit loop maps every frame of the image
again, with its results discarded.  When the image does not start on a frame of
2 MiB, the last frame may be left to the loop.
-/

namespace RustKernel.Kernel

open RustKernel.Foundations
open RustKernel.Machine
open RustKernel.Paging

/-- `BOOT_IMAGE`. -/
def bootImage : Nat := sizeGb 100

section Start

variable {T : Type} [Mapper T]

/-- `Result::unwrap`. -/
def unwrap {size : PageSize} :
    Except (MapToError size) Unit → Except Panic Unit
  | .ok value => .ok value
  | .error _ => .error .unwrap

/-- A turn of the loop, for a frame of the image that begins in the frame
`pt`. -/
def mapImageFrame (pt frame : PhysFrame .size2MiB) :
    EStateM Panic (ConfigMachine T) Unit := do
  let relative ←
    MonadExcept.ofExcept (checkedSub frame.startAddress pt.startAddress)
  let raw ← MonadExcept.ofExcept (checkedAdd relative bootImage)
  let virt ← MonadExcept.ofExcept (VirtAddr.new raw)
  modify fun state => state.mapped (Page.containingAddress virt) frame

/-- The part of `_start` that maps the boot image. -/
def mapBootImage (address length : Nat) :
    EStateM Panic (ConfigMachine T) Unit := do
  let phys ← MonadExcept.ofExcept (PhysAddr.new address)
  let virt ← MonadExcept.ofExcept (VirtAddr.new bootImage)
  let answer ← mapVirt .size2MiB phys virt length
  MonadExcept.ofExcept (unwrap answer)
  let sum ← MonadExcept.ofExcept (checkedAdd address length)
  let physEnd ← MonadExcept.ofExcept (PhysAddr.new sum)
  (PhysFrame.rangeInclusive (PhysFrame.containingAddress phys)
    (PhysFrame.containingAddress physEnd)).forM
      (mapImageFrame (PhysFrame.containingAddress phys))

/-- Where the kernel reads the image. -/
def imagePointer (address : Nat) : Nat :=
  bootImage + address - address / PageSize.size2MiB.bytes *
    PageSize.size2MiB.bytes

end Start

/-! ## The loop -/

section Loop

variable {T : Type} [Mapper T] [LawfulMapper T]

/-- The page behind the start of the window. -/
def windowPage (distance : Nat) : Page .size2MiB :=
  ⟨bootImage / PageSize.size2MiB.bytes + distance⟩

/-- A page of the window shows the frame at its distance. -/
def Shows (table : T) (first distance : Nat) : Prop :=
  ∃ flags,
    entry table .size2MiB (windowPage distance) =
      .leaf ⟨first + distance⟩ flags

variable {state : ConfigMachine T} {first distance : Nat}

omit [LawfulMapper T] in
/-- A turn maps the page at the distance of its frame. -/
theorem mapImageFrame_run
    (fits : bootImage + distance * PageSize.size2MiB.bytes < 2 ^ 48)
    (state : ConfigMachine T) :
    (mapImageFrame ⟨first⟩ ⟨first + distance⟩).run state =
      .ok () (state.mapped (windowPage distance) ⟨first + distance⟩) := by
  have relative :
      checkedSub (⟨first + distance⟩ : PhysFrame .size2MiB).startAddress
          (⟨first⟩ : PhysFrame .size2MiB).startAddress =
        .ok (distance * PageSize.size2MiB.bytes) := by
    simp only [checkedSub_eq_ok, PhysFrame.startAddress, Nat.add_mul]
    omega
  have summed :
      checkedAdd (distance * PageSize.size2MiB.bytes) bootImage =
        .ok (bootImage + distance * PageSize.size2MiB.bytes) := by
    rw [checkedAdd_eq_ok, wordSize]
    omega
  have created :
      VirtAddr.new (bootImage + distance * PageSize.size2MiB.bytes) =
        .ok ⟨bootImage + distance * PageSize.size2MiB.bytes, fits⟩ := by
    rw [VirtAddr.new, dif_pos fits]
  have page :
      Page.containingAddress
          ⟨bootImage + distance * PageSize.size2MiB.bytes, fits⟩ =
        windowPage distance := by
    rw [Page.containingAddress, windowPage,
      Nat.add_mul_div_right _ _ (PageSize.bytes_pos _)]
  rw [mapImageFrame, relative, bind_run_of_ok _ (ofExcept_run (.ok _) state),
    summed, bind_run_of_ok _ (ofExcept_run (.ok _) state), created,
    bind_run_of_ok _ (ofExcept_run (.ok _) state), modify_run, page]

theorem shows_kept (page : Page .size2MiB) (frame : PhysFrame .size2MiB)
    (shows : Shows state.table first distance) :
    Shows (state.mapped page frame).table first distance := by
  obtain ⟨flags, leaf⟩ := shows
  obtain ⟨new, kept, _⟩ := (mapped_effect page frame state).leaf_kept leaf
  exact ⟨new, kept⟩

/-- Whether or not the frame is shown already, the turn leaves it shown. -/
theorem shows_mapped (supplied : Supplied state.allocator)
    (ready :
      Shows state.table first distance ∨
        Unmapped state.table (windowPage distance)) :
    Shows (state.mapped (windowPage distance) ⟨first + distance⟩).table
      first distance := by
  rcases ready with shown | unmapped
  · exact shows_kept _ _ shown
  · have effect := mapped_effect (windowPage distance) ⟨first + distance⟩ state
    have succeeded := effect.ok_of_unmapped unmapped supplied.not_out
    exact ⟨_, (effect.mapped succeeded).2⟩

/-- The loop shows every frame that it meets, next to those already shown. -/
theorem mapImageFrames_show {count : Nat} {distances : List Nat}
    (within : ∀ distance ∈ distances, distance ≤ count)
    (fits : bootImage + count * PageSize.size2MiB.bytes < 2 ^ 48)
    (ready :
      ∀ distance ≤ count,
        Shows state.table first distance ∨
          Unmapped state.table (windowPage distance))
    (supplied : Supplied state.allocator) :
    ∃ final,
      ((distances.map fun distance =>
          (⟨first + distance⟩ : PhysFrame .size2MiB)).forM
        (mapImageFrame ⟨first⟩)).run state = .ok () final ∧
      ∀ distance ≤ count,
        Shows state.table first distance ∨ distance ∈ distances →
          Shows final.table first distance := by
  induction distances generalizing state with
  | nil =>
      refine ⟨state, forM_nil_run_ok.mpr rfl, ?_⟩
      intro distance _ shown
      simpa using shown
  | cons head rest inductionHypothesis =>
      have headWithin : head ≤ count := within head (by simp)
      have headFits :
          bootImage + head * PageSize.size2MiB.bytes < 2 ^ 48 := by
        have scaled :=
          Nat.mul_le_mul_right PageSize.size2MiB.bytes headWithin
        omega
      have effect := mapped_effect (windowPage head) ⟨first + head⟩ state
      have shown := shows_mapped supplied (ready head headWithin)
      have readyNext :
          ∀ distance ≤ count,
            Shows (state.mapped (windowPage head) ⟨first + head⟩).table first
                distance ∨
              Unmapped (state.mapped (windowPage head) ⟨first + head⟩).table
                (windowPage distance) := by
        intro distance bounded
        by_cases same : distance = head
        · subst same
          exact Or.inl shown
        · rcases ready distance bounded with was | unmapped
          · exact Or.inl (shows_kept _ _ was)
          · refine Or.inr (effect.unmapped_kept unmapped ?_)
            rw [apart_iff_ne, windowPage, windowPage, ne_eq, Page.mk.injEq]
            omega
      obtain ⟨final, looped, covered⟩ :=
        inductionHypothesis
          (fun distance member => within distance (by simp [member])) readyNext
          (supplied.later effect.advances)
      refine ⟨final, ?_, ?_⟩
      · rw [List.map_cons, forM_cons_run_ok]
        exact ⟨_, mapImageFrame_run headFits state, looped⟩
      · intro distance bounded present
        apply covered distance bounded
        rcases present with was | member
        · exact Or.inl (shows_kept _ _ was)
        · rcases List.mem_cons.mp member with rfl | later
          · exact Or.inl shown
          · exact Or.inr later

end Loop

/-! ## The two passes -/

section Passes

variable {T : Type} [Mapper T] [LawfulMapper T]
variable {address length : Nat} {state : ConfigMachine T}

/-- The frames of the image, by their distance from the first one. -/
theorem imageFrames_eq {first last : Nat} :
    PhysFrame.rangeInclusive (⟨first⟩ : PhysFrame .size2MiB) ⟨last⟩ =
      (List.range (last + 1 - first)).map fun distance => ⟨first + distance⟩ := by
  rw [PhysFrame.rangeInclusive, List.range'_eq_map_range, List.map_map]
  rfl

omit [Mapper T] [LawfulMapper T] in
theorem imagePointer_eq (address : Nat) :
    imagePointer address = bootImage + address % PageSize.size2MiB.bytes := by
  unfold imagePointer
  have split := Nat.div_add_mod' address PageSize.size2MiB.bytes
  omega

/-- The first pass shows a frame, or leaves its page to the second. -/
theorem mapVirt_ready
    {phys : PhysAddr} {virt : VirtAddr} {first distance : Nat}
    {middle : ConfigMachine T}
    (atWindow : virt.low48 = bootImage)
    (firstFrame : phys.value / PageSize.size2MiB.bytes = first)
    (inImage :
      first + distance ≤
        (phys.value + length) / PageSize.size2MiB.bytes)
    (mapped :
      (mapVirt .size2MiB phys virt length).run state = .ok (.ok ()) middle)
    (others :
      (∀ pair ∈ mapVirtPairs .size2MiB phys virt length,
        pair.2 ≠ windowPage distance) →
          Unmapped middle.table (windowPage distance)) :
    Shows middle.table first distance ∨
      Unmapped middle.table (windowPage distance) := by
  by_cases paired :
      bootImage / PageSize.size2MiB.bytes + distance ≤
        (bootImage + length) / PageSize.size2MiB.bytes
  · have member :
        (⟨first + distance⟩, windowPage distance) ∈
          mapVirtPairs .size2MiB phys virt length := by
      rw [mem_mapVirtPairs, atWindow, firstFrame]
      exact ⟨distance, inImage, paired, rfl⟩
    exact Or.inl ⟨_, mapPairs_leaves (mapVirt_run_ok.mp mapped).2.2 member⟩
  · refine Or.inr (others ?_)
    intro pair member samePage
    rw [mem_mapVirtPairs, atWindow] at member
    obtain ⟨other, _, bounded, rfl⟩ := member
    simp only [windowPage, Page.mk.injEq] at samePage
    omega

omit [Mapper T] [LawfulMapper T] in
/-- The page at the distance of a frame of the image lies in the window. -/
theorem windowPage_bounds {distance : Nat}
    (inImage :
      address / PageSize.size2MiB.bytes + distance ≤
        (address + length) / PageSize.size2MiB.bytes) :
    bootImage + distance * PageSize.size2MiB.bytes ≤
      imagePointer address + length := by
  rw [imagePointer_eq]
  simp only [PageSize.bytes] at inImage ⊢
  omega

omit [LawfulMapper T] in
/-- The steps of the boot, put together. -/
theorem mapBootImage_run_of {phys : PhysAddr} {virt : VirtAddr}
    {middle final : ConfigMachine T}
    (atAddress : phys.value = address) (atWindow : virt.low48 = bootImage)
    (physFits : address + length < 2 ^ 52)
    (mapped :
      (mapVirt .size2MiB phys virt length).run state = .ok (.ok ()) middle)
    (looped :
      (((List.range
            ((address + length) / PageSize.size2MiB.bytes + 1 -
              address / PageSize.size2MiB.bytes)).map fun distance =>
          (⟨address / PageSize.size2MiB.bytes + distance⟩ :
            PhysFrame .size2MiB)).forM
        (mapImageFrame ⟨address / PageSize.size2MiB.bytes⟩)).run middle =
          .ok () final) :
    (mapBootImage address length).run state = .ok () final := by
  have physCreated : PhysAddr.new address = .ok phys :=
    PhysAddr.new_eq_ok.mpr atAddress
  have virtCreated : VirtAddr.new bootImage = .ok virt := by
    have windowFits : bootImage < 2 ^ 48 := by decide
    have same : virt = ⟨bootImage, windowFits⟩ := by
      cases virt
      simpa using atWindow
    rw [VirtAddr.new, dif_pos windowFits, same]
  have summed : checkedAdd address length = .ok (address + length) := by
    rw [checkedAdd_eq_ok, wordSize]
    omega
  have endCreated :
      PhysAddr.new (address + length) = .ok ⟨address + length, physFits⟩ :=
    PhysAddr.new_eq_ok.mpr rfl
  rw [mapBootImage, physCreated,
    bind_run_of_ok _ (ofExcept_run (.ok _) state), virtCreated,
    bind_run_of_ok _ (ofExcept_run (.ok _) state), bind_run_of_ok _ mapped,
    unwrap, bind_run_of_ok _ (ofExcept_run (.ok _) middle), summed,
    bind_run_of_ok _ (ofExcept_run (.ok _) middle), endCreated,
    bind_run_of_ok _ (ofExcept_run (.ok _) middle)]
  simp only [PhysFrame.containingAddress, imageFrames_eq, atAddress]
  exact looped

/-- Both passes together show every frame of the image. -/
theorem mapBootImage_shows
    (physFits : address + length < 2 ^ 52)
    (virtFits : imagePointer address + length < 2 ^ 48)
    (unmapped :
      ∀ page : Page .size2MiB,
        bootImage / PageSize.size2MiB.bytes ≤ page.number →
          page.number ≤
              (imagePointer address + length) / PageSize.size2MiB.bytes →
            Unmapped state.table page)
    (supplied : Supplied state.allocator) :
    ∃ final, (mapBootImage address length).run state = .ok () final ∧
      ∀ distance,
        address / PageSize.size2MiB.bytes + distance ≤
            (address + length) / PageSize.size2MiB.bytes →
          Shows final.table (address / PageSize.size2MiB.bytes) distance := by
  have positive := PageSize.size2MiB.bytes_pos
  have windowFits : bootImage < 2 ^ 48 := by decide
  have addressFits : address < 2 ^ 52 := by omega
  have lengthFits : bootImage + length ≤ imagePointer address + length := by
    rw [imagePointer_eq]
    omega
  have pairsUnmapped :
      ∀ pair ∈
          mapVirtPairs .size2MiB ⟨address, addressFits⟩
            ⟨bootImage, windowFits⟩ length,
        Unmapped state.table pair.2 := by
    intro pair member
    rw [mem_mapVirtPairs] at member
    obtain ⟨distance, _, bounded, rfl⟩ := member
    exact unmapped _ (Nat.le_add_right _ _)
      (Nat.le_trans bounded (Nat.div_le_div_right lengthFits))
  obtain ⟨middle, mapped, middleSupplied, others⟩ :=
    mapVirt_returns physFits (Nat.lt_of_le_of_lt lengthFits virtFits)
      pairsUnmapped supplied
  have first_le :
      address / PageSize.size2MiB.bytes ≤
        (address + length) / PageSize.size2MiB.bytes :=
    Nat.div_le_div_right (Nat.le_add_right address length)
  have ready :
      ∀ distance ≤
          (address + length) / PageSize.size2MiB.bytes -
            address / PageSize.size2MiB.bytes,
        Shows middle.table (address / PageSize.size2MiB.bytes) distance ∨
          Unmapped middle.table (windowPage distance) := by
    intro distance bounded
    have inImage :
        address / PageSize.size2MiB.bytes + distance ≤
          (address + length) / PageSize.size2MiB.bytes := by
      omega
    apply mapVirt_ready rfl rfl inImage mapped
    intro unpaired
    apply others _ _ unpaired
    apply unmapped _ (Nat.le_add_right _ _)
    change bootImage / PageSize.size2MiB.bytes + distance ≤ _
    rw [← Nat.add_mul_div_right _ _ positive]
    exact Nat.div_le_div_right (windowPage_bounds inImage)
  have lastFits :=
    Nat.lt_of_le_of_lt
      (windowPage_bounds (Nat.le_of_eq (Nat.add_sub_cancel' first_le))) virtFits
  have within :
      ∀ distance ∈
          List.range
            ((address + length) / PageSize.size2MiB.bytes + 1 -
              address / PageSize.size2MiB.bytes),
        distance ≤
          (address + length) / PageSize.size2MiB.bytes -
            address / PageSize.size2MiB.bytes := by
    intro distance member
    rw [List.mem_range] at member
    omega
  obtain ⟨final, looped, shown⟩ :=
    mapImageFrames_show within lastFits ready middleSupplied
  refine ⟨final, mapBootImage_run_of rfl rfl physFits mapped looped, ?_⟩
  intro distance inImage
  apply shown distance (by omega)
  right
  rw [List.mem_range]
  omega

/-- Byte `index` of the image is read at `index` behind the image pointer. -/
theorem bootImage_window
    (physFits : address + length < 2 ^ 52)
    (virtFits : imagePointer address + length < 2 ^ 48)
    (unmapped :
      ∀ page : Page .size2MiB,
        bootImage / PageSize.size2MiB.bytes ≤ page.number →
          page.number ≤
              (imagePointer address + length) / PageSize.size2MiB.bytes →
            Unmapped state.table page)
    (supplied : Supplied state.allocator) :
    ∃ final, (mapBootImage address length).run state = .ok () final ∧
      ∀ index < length, ∃ flags,
        translate final.table (imagePointer address + index) =
          some (address + index, flags) := by
  obtain ⟨final, mapped, shown⟩ :=
    mapBootImage_shows physFits virtFits unmapped supplied
  refine ⟨final, mapped, ?_⟩
  intro index within
  have windowAligned : bootImage % PageSize.size2MiB.bytes = 0 := by decide
  obtain ⟨flags, leaf⟩ :=
    shown
      ((address % PageSize.size2MiB.bytes + index) / PageSize.size2MiB.bytes)
      (by simp only [PageSize.bytes]; omega)
  have pageEq :
      windowPage
          ((address % PageSize.size2MiB.bytes + index) /
            PageSize.size2MiB.bytes) =
        ⟨(imagePointer address + index) / PageSize.size2MiB.bytes⟩ := by
    rw [imagePointer_eq, windowPage, Page.mk.injEq]
    simp only [PageSize.bytes] at windowAligned ⊢
    omega
  have frameEq :
      address / PageSize.size2MiB.bytes +
          (address % PageSize.size2MiB.bytes + index) /
            PageSize.size2MiB.bytes =
        (address + index) / PageSize.size2MiB.bytes := by
    simp only [PageSize.bytes]
    omega
  have sameOffset :
      (imagePointer address + index) % PageSize.size2MiB.bytes =
        (address + index) % PageSize.size2MiB.bytes := by
    rw [imagePointer_eq]
    simp only [PageSize.bytes] at windowAligned ⊢
    omega
  rw [pageEq, frameEq] at leaf
  exact ⟨flags, translate_of_agree sameOffset leaf⟩

/-- The image begins in the middle of a frame and ends in the next one, which
only the second pass maps. -/
theorem bootImage_window_unaligned :
    ∃ final,
      (mapBootImage 0x40300000 0x180000).run freshWindow = .ok () final ∧
        ∀ index < 0x180000, ∃ flags,
          translate final.table (imagePointer 0x40300000 + index) =
            some (0x40300000 + index, flags) :=
  bootImage_window (by decide) (by decide)
    (fun page _ _ => unmapped_of_empty (RadixTable.new_empty _) page)
    (fun index _ => by simp [freshWindow])

end Passes

end RustKernel.Kernel
