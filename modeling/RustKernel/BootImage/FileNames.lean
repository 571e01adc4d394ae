import RustKernel.BootImage.RoundTrip
import RustKernel.Foundations.Utf8

/-!
# The names in a boot image

The generator cuts a file name to 16 bytes wherever they end, and the loader
and the kernel read the 16 bytes back as UTF-8 when they list the files.
-/

namespace RustKernel.BootImage

open RustKernel.Foundations
open RustKernel.Machine

/-- `FileHeader::name`. -/
def FileHeader.nameText (header : FileHeader) : Except Panic (List Char) :=
  match decoded header.name with
  | some text => .ok text
  | none => .error (.message "Unable to get string from file name!")

/-- The header shows the beginning of a file name, and zeros behind it. -/
def NameReadable (fileName : List Char) (header : FileHeader) : Prop :=
  header.name.length = 16 ∧
    ∃ front count,
      front <+: fileName ∧
        header.nameText = .ok (front ++ List.replicate count '\x00')

theorem nameText_eq_ok {header : FileHeader} {text : List Char} :
    header.nameText = .ok text ↔ header.name = encoded text := by
  rw [← decoded_eq_some, FileHeader.nameText]
  cases decoded header.name with
  | none => simp
  | some other => simp

theorem encoded_zeros (count : Nat) :
    encoded (List.replicate count '\x00') = List.replicate count 0 := by
  induction count with
  | zero => rfl
  | succ count inductionHypothesis =>
      rw [List.replicate_succ, encoded_cons, inductionHypothesis,
        utf8EncodeChar_ascii (by decide), List.replicate_succ]
      rfl

/-- A name of 16 bytes or fewer is there as a whole, and a longer one up to
the cut. -/
theorem paddedName_of_cutsAt {fileName : List Char}
    (cuts : CutsAt 16 fileName) :
    ∃ front count,
      front <+: fileName ∧
        paddedName (encoded fileName) =
          encoded (front ++ List.replicate count '\x00') := by
  rcases Nat.le_total (encoded fileName).length 16 with short | long
  · refine ⟨fileName, 16 - (encoded fileName).length,
      List.prefix_refl fileName, ?_⟩
    rw [paddedName, List.take_of_length_le short, encoded_append,
      encoded_zeros]
  · rw [cutsAt_iff, Nat.min_eq_left long] at cuts
    obtain ⟨front, back, rfl, reached⟩ := cuts
    refine ⟨front, 0, ⟨back, rfl⟩, ?_⟩
    rw [paddedName, Nat.sub_eq_zero_of_le long, encoded_append,
      List.take_left' reached, encoded_append, encoded_zeros]

theorem cutsAt_of_paddedName {fileName text : List Char}
    (valid : paddedName (encoded fileName) = encoded text) :
    CutsAt 16 fileName := by
  rcases Nat.le_total (encoded fileName).length 16 with short | long
  · exact Or.inl short
  · rw [paddedName, Nat.sub_eq_zero_of_le long, List.replicate_zero,
      List.append_nil] at valid
    exact Or.inr (boundary_of_take long valid)

theorem nameReadable_paddedName {fileName : List Char} {header : FileHeader}
    (named : header.name = paddedName (encoded fileName)) :
    NameReadable fileName header ↔ CutsAt 16 fileName := by
  simp only [NameReadable, nameText_eq_ok, named]
  constructor
  · rintro ⟨_, front, count, _, valid⟩
    exact cutsAt_of_paddedName valid
  · intro cuts
    exact ⟨paddedName_length _, paddedName_of_cutsAt cuts⟩

theorem fileHeaders_names {files : List InputFile} {offset : Nat}
    {headers : List FileHeader}
    (built : fileHeaders files offset = .ok headers) :
    List.Forall₂ (fun file header => header.name = paddedName file.name) files
      headers := by
  induction files generalizing offset headers with
  | nil =>
      cases built
      exact List.Forall₂.nil
  | cons file files inductionHypothesis =>
      rw [fileHeaders, except_bind_eq_ok] at built
      obtain ⟨next, _, built⟩ := built
      rw [except_bind_eq_ok] at built
      obtain ⟨rest, looped, closed⟩ := built
      cases closed
      refine List.Forall₂.cons ?_ (inductionHypothesis looped)
      exact overwriteName_replicate file.name 16

/-- The header of a file can be listed exactly if no character of its name
reaches over the 16th byte. -/
theorem headerNames_readable_iff {files : List InputFile} {offset : Nat}
    {headers : List FileHeader}
    (built : fileHeaders files offset = .ok headers) :
    List.Forall₂
      (fun file header =>
        ∀ fileName, file.name = encoded fileName →
          (NameReadable fileName header ↔ CutsAt 16 fileName))
      files headers := by
  refine (fileHeaders_names built).imp ?_
  intro file header named fileName valid
  rw [valid] at named
  exact nameReadable_paddedName named

/-- A kernel and a driver. -/
def listedFiles : List InputFile :=
  [⟨encoded "kernel".toList, [7]⟩, ⟨encoded "libpci.a".toList, []⟩]

theorem headerNames_readable_iff_listedFiles :
    ∃ kernel driver,
      fileHeaders listedFiles contentStart = .ok [kernel, driver] ∧
        NameReadable "kernel".toList kernel ∧
        NameReadable "libpci.a".toList driver := by
  obtain ⟨headers, built⟩ :
      ∃ headers, fileHeaders listedFiles contentStart = .ok headers :=
    ⟨_, rfl⟩
  have each := headerNames_readable_iff built
  cases each with
  | cons first rest =>
      cases rest with
      | cons second none =>
          cases none
          exact ⟨_, _, built, (first _ rfl).mpr (by decide),
            (second _ rfl).mpr (by decide)⟩

/-- 15 bytes and then a character of two. -/
def accentedName : List Char := "boot-animationsé.o".toList

theorem accentedName_not_readable :
    ∃ header,
      fileHeaders [⟨encoded accentedName, [7]⟩] contentStart =
          .ok [header] ∧
        header.nameText =
          .error (.message "Unable to get string from file name!") ∧
        ¬ NameReadable accentedName header := by
  obtain ⟨header, built⟩ :
      ∃ header,
        fileHeaders [⟨encoded accentedName, [7]⟩] contentStart =
          .ok [header] :=
    ⟨_, rfl⟩
  have named : header.name = paddedName (encoded accentedName) := by
    cases fileHeaders_names built with
    | cons first _ => exact first
  have unreadable : ¬ NameReadable accentedName header := by
    rw [nameReadable_paddedName named]
    decide
  refine ⟨header, built, ?_, unreadable⟩
  cases shown : header.nameText with
  | ok text =>
      rw [nameText_eq_ok, named] at shown
      have cuts := cutsAt_of_paddedName shown
      rw [← nameReadable_paddedName named] at cuts
      exact absurd cuts unreadable
  | error fault =>
      rw [FileHeader.nameText] at shown
      split at shown
      · cases shown
      · exact shown.symm

end RustKernel.BootImage
