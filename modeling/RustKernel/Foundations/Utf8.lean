import Mathlib.Tactic.Common

/-!
# Texts in UTF-8

The encoding of a text, the places in it where a character begins, and what a
cut or a split of the encoding does to the text.
-/

namespace RustKernel.Foundations

/-- The UTF-8 encoding of a text. -/
def encoded (text : List Char) : List UInt8 :=
  text.flatMap String.utf8EncodeChar

@[simp]
theorem encoded_nil : encoded [] = [] := rfl

@[simp]
theorem encoded_cons (char : Char) (text : List Char) :
    encoded (char :: text) = String.utf8EncodeChar char ++ encoded text :=
  rfl

@[simp]
theorem encoded_append (front back : List Char) :
    encoded (front ++ back) = encoded front ++ encoded back :=
  List.flatMap_append

/-! ## The bytes of one character -/

/-- The byte does not continue a character. -/
def Leads (byte : UInt8) : Prop := byte < 0x80 ∨ 0xC0 ≤ byte

instance (byte : UInt8) : Decidable (Leads byte) :=
  inferInstanceAs (Decidable (byte < 0x80 ∨ 0xC0 ≤ byte))

theorem leads_ofNat {value : Nat} (fits : value < 256) :
    Leads (UInt8.ofNat value) ↔ value < 128 ∨ 192 ≤ value := by
  have same : (UInt8.ofNat value).toNat = value := by
    rw [UInt8.toNat_ofNat']
    omega
  rw [Leads, UInt8.lt_iff_toNat_lt, UInt8.le_iff_toNat_le, same]
  rfl

theorem utf8EncodeChar_ascii {char : Char} (ascii : char.toNat < 128) :
    String.utf8EncodeChar char = [UInt8.ofNat char.toNat] := by
  have small : char.val.toNat ≤ 127 := Nat.le_of_lt_succ ascii
  unfold String.utf8EncodeChar
  simp only
  rw [if_pos small]
  rfl

/-- The bytes of a character that is not of ASCII: one that leads, and then
those that continue it. -/
theorem utf8EncodeChar_wide {char : Char} (wide : 128 ≤ char.toNat) :
    ∃ head tail,
      String.utf8EncodeChar char = UInt8.ofNat head :: tail ∧
        192 ≤ head ∧ head < 256 ∧
        ∀ byte ∈ tail, ∃ value,
          byte = UInt8.ofNat value ∧ 128 ≤ value ∧ value < 192 := by
  have above : ¬ char.val.toNat ≤ 127 := Nat.not_le_of_lt wide
  unfold String.utf8EncodeChar
  simp only
  rw [if_neg above]
  split
  · refine ⟨_, _, rfl, by omega, by omega, ?_⟩
    intro byte member
    rw [List.mem_singleton] at member
    exact ⟨_, member, by omega, by omega⟩
  · split
    · refine ⟨_, _, rfl, by omega, by omega, ?_⟩
      intro byte member
      rw [List.mem_cons, List.mem_singleton] at member
      rcases member with first | second
      · exact ⟨_, first, by omega, by omega⟩
      · exact ⟨_, second, by omega, by omega⟩
    · refine ⟨_, _, rfl, by omega, by omega, ?_⟩
      intro byte member
      rw [List.mem_cons, List.mem_cons, List.mem_singleton] at member
      rcases member with first | second | third
      · exact ⟨_, first, by omega, by omega⟩
      · exact ⟨_, second, by omega, by omega⟩
      · exact ⟨_, third, by omega, by omega⟩

theorem utf8EncodeChar_shape (char : Char) :
    ∃ head tail,
      String.utf8EncodeChar char = head :: tail ∧ Leads head ∧
        ∀ byte ∈ tail, ¬ Leads byte := by
  by_cases ascii : char.toNat < 128
  · refine ⟨_, [], utf8EncodeChar_ascii ascii, ?_, by simp⟩
    exact (leads_ofNat (by omega)).mpr (Or.inl ascii)
  · obtain ⟨head, tail, shape, low, high, continues⟩ :=
      utf8EncodeChar_wide (Nat.le_of_not_lt ascii)
    refine ⟨_, tail, shape, (leads_ofNat high).mpr (Or.inr low), ?_⟩
    intro byte member leads
    obtain ⟨value, rfl, least, below⟩ := continues byte member
    rcases (leads_ofNat (by omega)).mp leads with small | large <;> omega

theorem utf8EncodeChar_ne_nil (char : Char) :
    String.utf8EncodeChar char ≠ [] := by
  obtain ⟨head, tail, shape, _, _⟩ := utf8EncodeChar_shape char
  rw [shape]
  exact List.cons_ne_nil head tail

/-- A byte of ASCII occurs in the encoding of its own character alone. -/
theorem ascii_mem_utf8EncodeChar {char : Char} {value : Nat}
    (ascii : value < 128)
    (member : UInt8.ofNat value ∈ String.utf8EncodeChar char) :
    char.toNat = value := by
  have apart :
      ∀ other, 128 ≤ other → other < 256 →
        UInt8.ofNat value ≠ UInt8.ofNat other := by
    intro other low high same
    have values := congrArg UInt8.toNat same
    rw [UInt8.toNat_ofNat', UInt8.toNat_ofNat'] at values
    omega
  by_cases own : char.toNat < 128
  · rw [utf8EncodeChar_ascii own, List.mem_singleton] at member
    have values := congrArg UInt8.toNat member
    rw [UInt8.toNat_ofNat', UInt8.toNat_ofNat'] at values
    omega
  · obtain ⟨head, tail, shape, low, high, continues⟩ :=
      utf8EncodeChar_wide (Nat.le_of_not_lt own)
    rw [shape, List.mem_cons] at member
    rcases member with first | later
    · exact absurd first (apart head (by omega) high)
    · obtain ⟨other, same, least, below⟩ := continues _ later
      exact absurd same (apart other least (by omega))

/-! ## Decoding -/

/-- The characters of a byte string, if it is valid. -/
def decoded (bytes : List UInt8) : Option (List Char) :=
  (String.fromUTF8? bytes.toByteArray).map String.toList

/-- No encoding of a character is the beginning of another. -/
theorem utf8EncodeChar_append_inj {first second : Char}
    {front back : List UInt8}
    (same :
      String.utf8EncodeChar first ++ front =
        String.utf8EncodeChar second ++ back) :
    first = second := by
  have bytes := congrArg List.toByteArray same
  rw [List.toByteArray_append, List.toByteArray_append] at bytes
  have chars :=
    congrArg (fun data : ByteArray => data.utf8DecodeChar? 0) bytes
  simp only [ByteArray.utf8DecodeChar?_utf8EncodeChar_append] at chars
  exact Option.some.inj chars

theorem encoded_eq_append {text front : List Char} {rest : List UInt8}
    (same : encoded text = encoded front ++ rest) :
    ∃ back, text = front ++ back ∧ rest = encoded back := by
  induction front generalizing text with
  | nil => exact ⟨text, rfl, same.symm⟩
  | cons char front inductionHypothesis =>
      rw [encoded_cons, List.append_assoc] at same
      cases text with
      | nil =>
          have none := List.append_eq_nil_iff.mp same.symm
          exact absurd none.1 (utf8EncodeChar_ne_nil char)
      | cons other text =>
          rw [encoded_cons] at same
          have chars := utf8EncodeChar_append_inj same
          subst chars
          obtain ⟨back, split, behind⟩ :=
            inductionHypothesis (List.append_cancel_left same)
          exact ⟨back, by rw [split, List.cons_append], behind⟩

theorem encoded_injective {first second : List Char}
    (same : encoded first = encoded second) : first = second := by
  obtain ⟨back, split, none⟩ :=
    encoded_eq_append (same.trans (List.append_nil _).symm)
  cases back with
  | nil => rw [split, List.append_nil]
  | cons char back =>
      rw [encoded_cons] at none
      exact absurd (List.append_eq_nil_iff.mp none.symm).1
        (utf8EncodeChar_ne_nil char)

theorem encoded_eq_nil {text : List Char} : encoded text = [] ↔ text = [] :=
  ⟨fun none => encoded_injective none, fun none => none ▸ rfl⟩

theorem decoded_eq_some {bytes : List UInt8} {text : List Char} :
    decoded bytes = some text ↔ bytes = encoded text := by
  have encodes :
      ∀ chars : List Char,
        bytes.toByteArray = chars.utf8Encode ↔ bytes = encoded chars := by
    intro chars
    constructor
    · intro same
      have lists := congrArg (fun data : ByteArray => data.data.toList) same
      simpa [List.utf8Encode, encoded] using lists
    · intro same
      rw [same]
      rfl
  unfold decoded String.fromUTF8?
  by_cases valid : bytes.toByteArray.IsValidUTF8
  · rw [dif_pos valid, Option.map_some, Option.some.injEq]
    have whole :
        bytes = encoded (String.fromUTF8 bytes.toByteArray valid).toList := by
      rw [← encodes, String.utf8Encode_toList]
      rfl
    constructor
    · intro same
      rw [whole, same]
    · intro same
      rw [whole] at same
      exact encoded_injective same
  · rw [dif_neg valid, Option.map_none]
    constructor
    · intro absent
      cases absent
    · intro same
      exact absurd ⟨text, (encodes text).mpr same⟩ valid

/-! ## Boundaries -/

/-- A character of the text begins at the byte, or the text ends there. -/
def Boundary (text : List Char) (index : Nat) : Prop :=
  ∃ front back, text = front ++ back ∧ (encoded front).length = index

theorem boundary_zero (text : List Char) : Boundary text 0 :=
  ⟨[], text, rfl, rfl⟩

theorem boundary_length (text : List Char) :
    Boundary text (encoded text).length :=
  ⟨text, [], (List.append_nil text).symm, rfl⟩

theorem boundary_cons {char : Char} {text : List Char} {index : Nat}
    (boundary : Boundary text index) :
    Boundary (char :: text)
      ((String.utf8EncodeChar char).length + index) := by
  obtain ⟨front, back, split, reached⟩ := boundary
  refine ⟨char :: front, back, by rw [split, List.cons_append], ?_⟩
  rw [encoded_cons, List.length_append, reached]

/-- Boundaries are told by the byte that follows. -/
theorem boundary_iff {text : List Char} {index : Nat} :
    Boundary text index ↔
      index = (encoded text).length ∨
        ∃ byte, (encoded text)[index]? = some byte ∧ Leads byte := by
  constructor
  · rintro ⟨front, back, rfl, rfl⟩
    cases back with
    | nil => simp
    | cons char back =>
        obtain ⟨head, tail, shape, leads, _⟩ := utf8EncodeChar_shape char
        refine Or.inr ⟨head, ?_, leads⟩
        rw [encoded_append, encoded_cons, shape,
          List.getElem?_append_right (Nat.le_refl _), Nat.sub_self]
        rfl
  · induction text generalizing index with
    | nil =>
        rintro (ended | ⟨byte, found, _⟩)
        · rw [ended]
          exact boundary_zero []
        · cases found
    | cons char text inductionHypothesis =>
        obtain ⟨head, tail, shape, _, continues⟩ := utf8EncodeChar_shape char
        intro told
        rcases Nat.lt_or_ge index (String.utf8EncodeChar char).length with
          inside | behind
        · cases index with
          | zero => exact boundary_zero _
          | succ index =>
              rcases told with ended | ⟨byte, found, leads⟩
              · rw [encoded_cons, List.length_append] at ended
                omega
              · rw [encoded_cons, List.getElem?_append_left inside, shape,
                  List.getElem?_cons_succ] at found
                exact absurd leads
                  (continues byte (List.mem_of_getElem? found))
        · obtain ⟨rest, rfl⟩ := Nat.exists_eq_add_of_le behind
          apply boundary_cons
          apply inductionHypothesis
          rw [encoded_cons, List.length_append,
            List.getElem?_append_right behind,
            Nat.add_sub_cancel_left] at told
          exact told.imp_left (by omega)

instance (text : List Char) (index : Nat) : Decidable (Boundary text index) :=
  decidable_of_iff
    (index = (encoded text).length ∨
      ∃ byte ∈ (encoded text)[index]?, Leads byte)
    boundary_iff.symm

/-- What a valid beginning of an encoding has encoded. -/
theorem boundary_of_take {text front : List Char} {index : Nat}
    (within : index ≤ (encoded text).length)
    (taken : (encoded text).take index = encoded front) :
    Boundary text index := by
  have split :
      encoded text = encoded front ++ (encoded text).drop index := by
    rw [← taken, List.take_append_drop]
  obtain ⟨back, whole, _⟩ := encoded_eq_append split
  refine ⟨front, back, whole, ?_⟩
  rw [← taken, List.length_take, Nat.min_eq_left within]

/-! ## Cuts -/

/-- The longest beginning of a text that takes so many bytes at most. -/
structure IsCut (limit : Nat) (text cut : List Char) : Prop where
  front : cut <+: text
  short : (encoded cut).length ≤ limit
  longest :
    ∀ longer, longer <+: text → (encoded longer).length ≤ limit →
      longer.length ≤ cut.length

theorem isCut_whole {limit : Nat} {text : List Char}
    (short : (encoded text).length ≤ limit) : IsCut limit text text where
  front := List.prefix_refl text
  short := short
  longest := fun _ front _ => front.length_le

theorem isCut_of_length {limit : Nat} {text cut : List Char}
    (front : cut <+: text) (exact : (encoded cut).length = limit) :
    IsCut limit text cut where
  front := front
  short := Nat.le_of_eq exact
  longest := by
    intro longer other fits
    by_contra more
    obtain ⟨rest, rfl⟩ :=
      List.prefix_of_prefix_length_le front other (by omega)
    cases rest with
    | nil =>
        rw [List.append_nil] at more
        omega
    | cons char rest =>
        have some :=
          List.length_pos_iff.mpr (utf8EncodeChar_ne_nil char)
        rw [encoded_append, encoded_cons, List.length_append,
          List.length_append] at fits
        omega

/-- The text is short enough, or a character begins behind so many bytes. -/
def CutsAt (limit : Nat) (text : List Char) : Prop :=
  (encoded text).length ≤ limit ∨ Boundary text limit

instance (limit : Nat) (text : List Char) : Decidable (CutsAt limit text) :=
  inferInstanceAs
    (Decidable ((encoded text).length ≤ limit ∨ Boundary text limit))

theorem cutsAt_iff {limit : Nat} {text : List Char} :
    CutsAt limit text ↔ Boundary text (min limit (encoded text).length) := by
  rcases Nat.le_total (encoded text).length limit with short | long
  · rw [Nat.min_eq_right short]
    exact ⟨fun _ => boundary_length text, fun _ => Or.inl short⟩
  · rw [Nat.min_eq_left long]
    constructor
    · rintro (short | boundary)
      · rw [Nat.le_antisymm long short]
        exact boundary_length text
      · exact boundary
    · exact Or.inr

theorem isCut_of_min {limit : Nat} {text cut : List Char} (front : cut <+: text)
    (reached : (encoded cut).length = min limit (encoded text).length) :
    IsCut limit text cut := by
  rcases Nat.le_total (encoded text).length limit with short | long
  · rw [Nat.min_eq_right short] at reached
    obtain ⟨back, rfl⟩ := front
    rw [encoded_append, List.length_append] at reached
    have none : encoded back = [] := List.eq_nil_of_length_eq_zero (by omega)
    have empty : back = [] := encoded_eq_nil.mp none
    rw [empty, List.append_nil] at short ⊢
    exact isCut_whole short
  · rw [Nat.min_eq_left long] at reached
    exact isCut_of_length front reached

/-! ## Splits -/

theorem splitOn_append_of_not_mem {α : Type} [BEq α] [LawfulBEq α]
    {separator : α} {front : List α} (absent : separator ∉ front)
    (back : List α) :
    (front ++ back).splitOn separator =
      (back.splitOn separator).modifyHead (front ++ ·) := by
  induction front with
  | nil =>
      rw [List.nil_append]
      cases back.splitOn separator with
      | nil => rfl
      | cons head tail => rfl
  | cons item front inductionHypothesis =>
      rw [List.mem_cons, not_or] at absent
      have other : (item == separator) = false :=
        beq_eq_false_iff_ne.mpr (Ne.symm absent.1)
      rw [List.cons_append, List.splitOn_cons_eq_if_modifyHead, other,
        inductionHypothesis absent.2]
      cases back.splitOn separator with
      | nil => rfl
      | cons head tail => rfl

/-- A split at a character of ASCII is a split of the bytes. -/
theorem splitOn_encoded {separator : Char} (ascii : separator.toNat < 128)
    (text : List Char) :
    (encoded text).splitOn (UInt8.ofNat separator.toNat) =
      (text.splitOn separator).map encoded := by
  induction text with
  | nil => rfl
  | cons char text inductionHypothesis =>
      rw [encoded_cons, List.splitOn_cons_eq_if_modifyHead]
      by_cases same : char = separator
      · subst same
        rw [utf8EncodeChar_ascii ascii, List.singleton_append,
          List.splitOn_cons_eq_if_modifyHead, beq_self_eq_true,
          beq_self_eq_true, if_pos rfl, if_pos rfl, inductionHypothesis,
          List.map_cons, encoded_nil]
      · have absent :
            UInt8.ofNat separator.toNat ∉ String.utf8EncodeChar char := by
          intro member
          apply same
          apply Char.toNat_inj.mp
          exact ascii_mem_utf8EncodeChar ascii member
        rw [splitOn_append_of_not_mem absent, inductionHypothesis,
          if_neg (by simpa using same)]
        cases text.splitOn separator with
        | nil => rfl
        | cons head tail => rfl

end RustKernel.Foundations
