import RustKernel.Loader.Completion

/-!
# Where the segment copies go

Every page of a segment is copied to the offset that the segment has in its
first page, and up to a whole page is copied at once.  A copy stays in its
frame exactly when offset and length together fit in a page, and then so do
all later copies of the segment, because the length never grows.
-/

namespace RustKernel.Loader

open RustKernel.Foundations
open RustKernel.Machine
open RustKernel.Memory
open RustKernel.Paging

/-- Every byte that a segment copy wrote lies in the frame drawn for it. -/
def CopiesInside (stores : List (Store Origin)) : Prop :=
  ∀ store ∈ stores, ∀ header page frame,
    store.origin = .segmentCopy header page frame →
      ∀ target, store.Covers target → frame.Holds target

/-- The first copy of the segment, if there is one, ends in its page. -/
def FitsFrame (header : ProgramHeader) : Prop :=
  header.pages = [] ∨
    header.virtualAddress % 4096 + min header.segmentFileSize 4096 ≤ 4096

instance (header : ProgramHeader) : Decidable (FitsFrame header) :=
  inferInstanceAs (Decidable (_ ∨ _))

/-- Copies that were inside stay inside, and new ones are. -/
def KeepsInside {T C : Type} (before after : Machine T C) : Prop :=
  CopiesInside before.stores → CopiesInside after.stores

section Relations

variable {T C : Type} [Mapper T] [Mapper C]

omit [Mapper T] [Mapper C] in
theorem keepsInside_of_append {before after : Machine T C}
    {added : List (Store Origin)}
    (appended : after.stores = before.stores ++ added)
    (inside : CopiesInside added) :
    KeepsInside before after := by
  intro earlier store member
  rw [appended] at member
  rcases List.mem_append.mp member with old | new
  · exact earlier store old
  · exact inside store new

theorem copiesInside_tableStores (stores : List (Store Unit)) :
    CopiesInside (stores.map tableStore) := by
  intro store member header page frame origin
  obtain ⟨original, _, rfl⟩ := List.mem_map.mp member
  cases origin

instance : LoaderRelation (KeepsInside (T := T) (C := C)) where
  refl := fun _ inside => inside
  trans := fun earlier later inside => later (earlier inside)
  drawFrame := fun _ inside => inside
  mapped := fun _ _ _ _ _ =>
    keepsInside_of_append rfl (copiesInside_tableStores _)
  identityMapped := fun _ _ =>
    keepsInside_of_append rfl (copiesInside_tableStores _)

omit [Mapper T] [Mapper C] in
theorem keepsInside_copied
    {header : ProgramHeader} {page : Page .size4KiB}
    {frame : PhysFrame .size4KiB} {bytes : List UInt8}
    (fits : header.virtualAddress % 4096 + bytes.length ≤ 4096)
    (state : Machine T C) :
    KeepsInside state (state.copied header page frame bytes) := by
  apply keepsInside_of_append rfl
  intro store member other otherPage otherFrame origin target covered
  rw [List.mem_singleton] at member
  subst member
  cases origin
  simp only [Store.Covers] at covered
  simp only [PhysFrame.Holds, PageSize.bytes]
  omega

end Relations

end RustKernel.Loader
