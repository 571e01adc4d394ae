import RustKernel.Foundations.Utf8
import RustKernel.Iso.Entries

/-!
# Names cut to eight and three bytes

`convert_name` cuts the first two components of a name at fixed bytes.  A cut
inside of a character panics, so the conversion returns exactly for the names
with a character boundary at the two bytes.
-/

namespace RustKernel.Iso

open RustKernel.Foundations
open RustKernel.Machine

/-- The part of a name between two dots. -/
def nameComponent (text : List Char) (index : Nat) : List Char :=
  ((text.splitOn '.')[index]?).getD []

/-- The conversion returns the first component cut to eight bytes and, when
there is a second one, a dot and that one cut to three bytes. -/
def ConvertsName (text : List Char) : Prop :=
  ∃ fileName extension,
    IsCut 8 (nameComponent text 0) fileName ∧
      IsCut 3 (nameComponent text 1) extension ∧
      convertName (encoded text) =
        .ok (encoded fileName ++
          if nameComponent text 1 = [] then [] else 0x2E :: encoded extension)

/-! ## Cuts of a text -/

theorem isCharBoundary_encoded {text : List Char} {index : Nat} :
    isCharBoundary (encoded text) index = true ↔ Boundary text index := by
  rw [boundary_iff, isCharBoundary]
  cases found : (encoded text)[index]? with
  | none => simp
  | some byte =>
      obtain ⟨inside, _⟩ := List.getElem?_eq_some_iff.mp found
      have ongoing : index ≠ (encoded text).length := Nat.ne_of_lt inside
      simp [ongoing, Leads]

theorem strPrefix_of_boundary {text : List Char} {count : Nat}
    (boundary : Boundary text count) :
    ∃ cut,
      cut <+: text ∧ (encoded cut).length = count ∧
        strPrefix (encoded text) count = .ok (encoded cut) := by
  have told := isCharBoundary_encoded.mpr boundary
  obtain ⟨front, back, split, reached⟩ := boundary
  refine ⟨front, ⟨back, split.symm⟩, reached, ?_⟩
  rw [strPrefix, if_pos (Or.inr told), split, encoded_append,
    List.take_left' reached]

theorem boundary_of_strPrefix {text : List Char} {count : Nat} {cut : Name}
    (taken : strPrefix (encoded text) count = .ok cut) :
    Boundary text count := by
  unfold strPrefix at taken
  split at taken
  · next allowed =>
      rcases allowed with none | boundary
      · rw [none]
        exact boundary_zero text
      · exact isCharBoundary_encoded.mp boundary
  · cases taken

/-! ## The conversion -/

theorem dotComponent_eq (text : List Char) (index : Nat) :
    (((encoded text).splitOn 0x2E)[index]?).getD [] =
      encoded (nameComponent text index) := by
  have split := splitOn_encoded (by decide : '.'.toNat < 128) text
  have dot : UInt8.ofNat '.'.toNat = 0x2E := rfl
  rw [dot] at split
  rw [split, List.getElem?_map, nameComponent]
  cases (text.splitOn '.')[index]? with
  | none => rfl
  | some part => rfl

/-- `convert_name` on the components of a name. -/
theorem convertName_encoded (text : List Char) :
    convertName (encoded text) =
      (strPrefix (encoded (nameComponent text 0))
          (min 8 (encoded (nameComponent text 0)).length) >>= fun result =>
        if nameComponent text 1 = [] then
          .ok result
        else
          strPrefix (encoded (nameComponent text 1))
              (min 3 (encoded (nameComponent text 1)).length) >>=
            fun extension => .ok (result ++ 0x2E :: extension)) := by
  have first := dotComponent_eq text 0
  rw [← List.head?_eq_getElem?, ← List.headD_eq_head?_getD] at first
  have eight : ∀ length, (if 8 ≤ length then 8 else length) = min 8 length := by
    intro length
    split <;> omega
  have three : ∀ length, (if 3 < length then 3 else length) = min 3 length := by
    intro length
    split <;> omega
  unfold convertName
  simp only
  rw [first, dotComponent_eq text 1, eight, three]
  congr 1
  funext result
  by_cases none : nameComponent text 1 = []
  · rw [if_pos none, none]
    rfl
  · have some : encoded (nameComponent text 1) ≠ [] :=
      fun empty => none (encoded_eq_nil.mp empty)
    have long := List.length_pos_iff.mpr some
    rw [if_neg none, if_pos (by omega)]
    rfl

theorem cutsAt_of_converts {text : List Char} {fixed : Name}
    (converted : convertName (encoded text) = .ok fixed) :
    CutsAt 8 (nameComponent text 0) ∧ CutsAt 3 (nameComponent text 1) := by
  rw [convertName_encoded, except_bind_eq_ok] at converted
  obtain ⟨result, taken, converted⟩ := converted
  refine ⟨cutsAt_iff.mpr (boundary_of_strPrefix taken), ?_⟩
  by_cases none : nameComponent text 1 = []
  · rw [none]
    exact Or.inl (Nat.zero_le 3)
  · rw [if_neg none, except_bind_eq_ok] at converted
    obtain ⟨extension, takenExtension, _⟩ := converted
    exact cutsAt_iff.mpr (boundary_of_strPrefix takenExtension)

theorem converts_of_cutsAt {text : List Char}
    (firstCuts : CutsAt 8 (nameComponent text 0))
    (secondCuts : CutsAt 3 (nameComponent text 1)) : ConvertsName text := by
  obtain ⟨fileName, front, reached, taken⟩ :=
    strPrefix_of_boundary (cutsAt_iff.mp firstCuts)
  obtain ⟨extension, frontExtension, reachedExtension, takenExtension⟩ :=
    strPrefix_of_boundary (cutsAt_iff.mp secondCuts)
  refine ⟨fileName, extension, isCut_of_min front reached,
    isCut_of_min frontExtension reachedExtension, ?_⟩
  rw [convertName_encoded, taken]
  by_cases none : nameComponent text 1 = []
  · rw [if_pos none, List.append_nil]
    exact if_pos none
  · rw [if_neg none, takenExtension]
    exact if_neg none

/-- A name is converted exactly if no character reaches over one of the two
bytes at which its components are cut. -/
theorem convertsName_iff (text : List Char) :
    ConvertsName text ↔
      CutsAt 8 (nameComponent text 0) ∧ CutsAt 3 (nameComponent text 1) := by
  constructor
  · rintro ⟨_, _, _, _, converted⟩
    exact cutsAt_of_converts converted
  · rintro ⟨firstCuts, secondCuts⟩
    exact converts_of_cutsAt firstCuts secondCuts

/-- Seven bytes and then a character of two. -/
theorem accentedName_not_converted :
    (encoded "resume-é.txt".toList).length ≤ 251 ∧
      convertName (encoded "resume-é.txt".toList) =
        .error (.panic .sliceIndex) ∧
      ¬ ConvertsName "resume-é.txt".toList := by
  have panics :
      convertName (encoded "resume-é.txt".toList) =
        .error (.panic .sliceIndex) := by
    with_unfolding_all decide
  refine ⟨by with_unfolding_all decide, panics, ?_⟩
  rintro ⟨_, _, _, _, converted⟩
  rw [panics] at converted
  cases converted

end RustKernel.Iso
