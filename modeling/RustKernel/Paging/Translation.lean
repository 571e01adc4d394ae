import RustKernel.Paging.Mapper

/-!
# Translations with their flags

What a table makes of an address, together with the flags of the mapping that
is used.  A call of `map_to` that succeeds changes the translation of the
addresses of its page only.
-/

namespace RustKernel.Paging

open RustKernel.Machine

section Walk

variable {T : Type} [Mapper T]

/-- `Translate::translate`, for an address given by its low 48 bits: where the
address leads, and the flags of the mapping. -/
def translate (table : T) (address : Nat) : Option (Nat × PageTableFlags) :=
  match entry table .size1GiB ⟨address / PageSize.size1GiB.bytes⟩ with
  | .unused => none
  | .leaf frame flags =>
      some (frame.startAddress + address % PageSize.size1GiB.bytes, flags)
  | .table =>
      match entry table .size2MiB ⟨address / PageSize.size2MiB.bytes⟩ with
      | .unused => none
      | .leaf frame flags =>
          some (frame.startAddress + address % PageSize.size2MiB.bytes, flags)
      | .table =>
          match entry table .size4KiB ⟨address / PageSize.size4KiB.bytes⟩ with
          | .leaf frame flags =>
              some
                (frame.startAddress + address % PageSize.size4KiB.bytes, flags)
          | _ => none

/-- `translate_addr` is `translate` without the flags. -/
theorem translateAddr_eq (table : T) (address : Nat) :
    translateAddr table address = (translate table address).map Prod.fst := by
  unfold translateAddr translate
  cases entry table .size1GiB ⟨address / PageSize.size1GiB.bytes⟩ with
  | unused => rfl
  | leaf frame flags => rfl
  | table =>
      dsimp only
      cases entry table .size2MiB ⟨address / PageSize.size2MiB.bytes⟩ with
      | unused => rfl
      | leaf frame flags => rfl
      | table =>
          dsimp only
          cases entry table .size4KiB ⟨address / PageSize.size4KiB.bytes⟩ with
          | unused => rfl
          | leaf frame flags => rfl
          | table => rfl

/-- The page of each size around an address, one within the other. -/
theorem enclosing_page {size larger : PageSize} (address : Nat)
    (grows : size.bytes < larger.bytes) :
    enclosing larger (⟨address / size.bytes⟩ : Page size) =
      ⟨address / larger.bytes⟩ := by
  cases size <;> cases larger <;>
    simp only [enclosing, PageSize.bytes, Page.mk.injEq] at grows ⊢ <;> omega

/-- A translation is made by the mapping of some page around the address. -/
theorem leaf_of_translate {table : T} {address target : Nat}
    {flags : PageTableFlags}
    (translated : translate table address = some (target, flags)) :
    ∃ (size : PageSize) (frame : PhysFrame size),
      entry table size ⟨address / size.bytes⟩ = .leaf frame flags ∧
        target = frame.startAddress + address % size.bytes := by
  unfold translate at translated
  cases giB : entry table .size1GiB ⟨address / PageSize.size1GiB.bytes⟩ with
  | unused =>
      rw [giB] at translated
      cases translated
  | leaf frame given =>
      rw [giB] at translated
      cases translated
      exact ⟨_, frame, giB, rfl⟩
  | table =>
      rw [giB] at translated
      cases miB :
          entry table .size2MiB ⟨address / PageSize.size2MiB.bytes⟩ with
      | unused =>
          simp only [miB] at translated
          cases translated
      | leaf frame given =>
          simp only [miB] at translated
          cases translated
          exact ⟨_, frame, miB, rfl⟩
      | table =>
          simp only [miB] at translated
          cases kiB :
              entry table .size4KiB ⟨address / PageSize.size4KiB.bytes⟩ with
          | unused =>
              simp only [kiB] at translated
              cases translated
          | table =>
              simp only [kiB] at translated
              cases translated
          | leaf frame given =>
              simp only [kiB] at translated
              cases translated
              exact ⟨_, frame, kiB, rfl⟩

end Walk

section Lawful

variable {T : Type} [Mapper T] [LawfulMapper T]

/-- A mapping of any size translates every address of its page. -/
theorem translate_of_leaf {table : T} {size : PageSize} {address : Nat}
    {frame : PhysFrame size} {flags : PageTableFlags}
    (leaf : entry table size ⟨address / size.bytes⟩ = .leaf frame flags) :
    translate table address =
      some (frame.startAddress + address % size.bytes, flags) := by
  have around :
      ∀ larger : PageSize, size.bytes < larger.bytes →
        entry table larger ⟨address / larger.bytes⟩ = .table := by
    intro larger grows
    rw [← enclosing_page address grows]
    apply LawfulMapper.enclosing_table table larger _ _ grows
    rw [leaf]
    simp
  unfold translate
  cases size with
  | size1GiB =>
      rw [leaf]
  | size2MiB =>
      rw [around .size1GiB (by decide)]
      simp only [leaf]
  | size4KiB =>
      rw [around .size1GiB (by decide)]
      simp only [around .size2MiB (by decide), leaf]

theorem translate_eq_some {table : T} {address target : Nat}
    {flags : PageTableFlags} :
    translate table address = some (target, flags) ↔
      ∃ (size : PageSize) (frame : PhysFrame size),
        entry table size ⟨address / size.bytes⟩ = .leaf frame flags ∧
          target = frame.startAddress + address % size.bytes := by
  constructor
  · exact leaf_of_translate
  · intro mapped
    obtain ⟨size, frame, leaf, rfl⟩ := mapped
    exact translate_of_leaf leaf

/-- Without a translation, no page around the address is mapped. -/
theorem translate_eq_none {table : T} {address : Nat} :
    translate table address = none ↔
      ∀ (size : PageSize) (frame : PhysFrame size) (flags : PageTableFlags),
        entry table size ⟨address / size.bytes⟩ ≠ .leaf frame flags := by
  constructor
  · intro absent size frame flags leaf
    rw [translate_of_leaf leaf] at absent
    cases absent
  · intro noLeaf
    by_contra present
    obtain ⟨⟨target, flags⟩, translated⟩ := Option.ne_none_iff_exists'.mp present
    obtain ⟨size, frame, leaf, _⟩ := leaf_of_translate translated
    exact noLeaf size frame flags leaf

/-- The addresses of an unmapped small page lead nowhere. -/
theorem translate_of_unmapped {table : T} {address : Nat}
    (unmapped :
      Unmapped table (⟨address / PageSize.size4KiB.bytes⟩ : Page .size4KiB)) :
    translate table address = none := by
  rw [translate_eq_none]
  intro size frame flags leaf
  by_cases larger : PageSize.size4KiB.bytes < size.bytes
  · rw [← enclosing_page address larger] at leaf
    exact unmapped.noHugeParent size frame flags larger leaf
  · obtain rfl : size = .size4KiB := by
      cases size <;> simp [PageSize.bytes] at larger ⊢
    rw [unmapped.unused] at leaf
    cases leaf

theorem translate_ext {before after : T} {address : Nat}
    (same :
      ∀ (size : PageSize) (frame : PhysFrame size) (flags : PageTableFlags),
        entry after size ⟨address / size.bytes⟩ = .leaf frame flags ↔
          entry before size ⟨address / size.bytes⟩ = .leaf frame flags) :
    translate after address = translate before address := by
  apply Option.ext
  intro result
  obtain ⟨target, flags⟩ := result
  simp only [translate_eq_some, same]

/-- A call that succeeds keeps the translation of every address outside its
page. -/
theorem MapToEffect.translate_kept {size : PageSize}
    {page : Page size} {frame : PhysFrame size} {flags : PageTableFlags}
    {before : T} {supply : FrameAllocator} {outcome : MapOutcome T size}
    (effect : MapToEffect page frame flags before supply outcome)
    (succeeded : outcome.result = .ok ())
    {address : Nat} (outside : address / size.bytes ≠ page.number) :
    translate outcome.table address = translate before address := by
  have notHuge : outcome.result ≠ .error .parentEntryHugePage := by
    rw [succeeded]
    simp
  have kept :
      ∀ (size' : PageSize) (other : Page size') held given,
        entry before size' other = .leaf held given →
          other.number = address / size'.bytes →
            entry before size' other = .leaf held given :=
    fun _ _ _ _ leaf _ => leaf
  apply translate_ext
  intro size' held given
  constructor
  · intro leaf
    refine effect.leaves_after kept ?_ ?_ leaf rfl
    · intro _ inPage
      exact absurd inPage.symm outside
    · intro huge
      exact absurd huge notHuge
  · intro leaf
    obtain ⟨new, kept, same⟩ := effect.leaf_kept leaf
    rw [kept, same notHuge]

/-- A call of `map_to` takes no translation away. -/
theorem MapToEffect.translateAddr_kept {size : PageSize} {page : Page size}
    {frame : PhysFrame size} {flags : PageTableFlags} {before : T}
    {supply : FrameAllocator} {outcome : MapOutcome T size}
    (effect : MapToEffect page frame flags before supply outcome)
    {address physical : Nat}
    (translated : translateAddr before address = some physical) :
    translateAddr outcome.table address = some physical := by
  rw [translateAddr_eq, Option.map_eq_some_iff] at translated
  obtain ⟨⟨_, old⟩, translated, rfl⟩ := translated
  obtain ⟨size', held, leaf, rfl⟩ := translate_eq_some.mp translated
  obtain ⟨new, leaf, _⟩ := effect.leaf_kept leaf
  rw [translateAddr_eq, translate_of_leaf leaf]
  rfl

end Lawful

end RustKernel.Paging
