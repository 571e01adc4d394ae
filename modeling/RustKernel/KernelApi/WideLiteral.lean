import RustKernel.Foundations.Run
import RustKernel.Foundations.Utf8
import RustKernel.Machine.Address

/-!
# Literals of 16-bit characters

`wchar!` turns a string literal into the text of an array of `u16`.  It takes
the two bytes of the UTF-8 encoding of a character for the two bytes of its
UTF-16 unit, which is right for ASCII only.
-/

namespace RustKernel.KernelApi

open RustKernel.Foundations
open RustKernel.Machine

/-! ## The macro -/

/-- A `TokenTree` by its text. -/
inductive TokenTree where
  | literal (text : List Char)
  | other (text : List Char)
  deriving DecidableEq, Repr

/-- `s.encode_utf8(&mut b)`, for a buffer of two zeros. -/
def encodeUtf8 (s : Char) : Except Panic (UInt8 × UInt8) :=
  match String.utf8EncodeChar s with
  | [first] => .ok (first, 0)
  | [first, second] => .ok (first, second)
  | _ => .error .sliceIndex

/-- `format!("{:x}", byte)`. -/
def lowerHex (byte : UInt8) : List Char := Nat.toDigits 16 byte.toNat

/-- The digits of `format!("0x{:x}{:x}, ", b[1], b[0])`. -/
def unitDigits (b : UInt8 × UInt8) : List Char :=
  ['0', 'x'] ++ lowerHex b.2 ++ lowerHex b.1

/-- The loop of `wchar`. -/
def pushUnits (dstr : List Char) : List Char → Except Panic (List Char)
  | [] => .ok dstr
  | s :: estr => do
      let b ← encodeUtf8 s
      pushUnits (dstr ++ (unitDigits b ++ [',', ' '])) estr

/-- `wchar`, on the tokens of its argument. -/
def wchar (unescape : List Char → Option (List Char)) :
    List TokenTree → Except Panic (List Char)
  | [] => .ok []
  | .other text :: _ => .ok text
  | .literal text :: _ =>
      let rstr := (text.drop 1).dropLast
      match unescape rstr with
      | none => .error .unwrap
      | some estr => do
          let dstr ← pushUnits ['&', '['] estr
          return dstr ++ ['0', 'x', '0', '0', 'u', '1', '6', ']']

/-! ## The array of a text -/

def hexDigit (char : Char) : Option Nat :=
  if 48 ≤ char.toNat ∧ char.toNat ≤ 57 then
    some (char.toNat - 48)
  else if 97 ≤ char.toNat ∧ char.toNat ≤ 102 then
    some (char.toNat - 87)
  else
    none

/-- The number of hexadecimal digits, with or without the suffix `u16`. -/
def readDigits (value : Nat) : List Char → Option Nat
  | [] => some value
  | char :: rest =>
      if char = 'u' then
        if rest = ['1', '6'] then some value else none
      else do
        let digit ← hexDigit char
        readDigits (16 * value + digit) rest

/-- A literal of `u16`. -/
def literalUnit : List Char → Option Nat
  | '0' :: 'x' :: digits => do
      let value ← readDigits 0 digits
      if value < 2 ^ 16 then some value else none
  | _ => none

/-- The elements of `&[..]`. -/
def arrayUnits : List Char → Option (List Nat)
  | '&' :: '[' :: body =>
      if body.getLast? = some ']' then
        (body.dropLast.splitOn ',').mapM fun item =>
          literalUnit (item.dropWhile (· = ' '))
      else
        none
  | _ => none

/-- `char::encode_utf16`. -/
def encodeUtf16 (char : Char) : List Nat :=
  if char.toNat < 0x10000 then
    [char.toNat]
  else
    [0xD800 + (char.toNat - 0x10000) / 0x400,
      0xDC00 + (char.toNat - 0x10000) % 0x400]

/-- The macro returns the text of the UTF-16 units of the content and a zero
behind them. -/
def WideLiteral (unescape : List Char → Option (List Char))
    (text content : List Char) : Prop :=
  ∃ array,
    wchar unescape [.literal text] = .ok array ∧
      arrayUnits array = some (content.flatMap encodeUtf16 ++ [0])

/-! ## Digits -/

theorem hexDigit_digitChar {digit : Nat} (small : digit < 16) :
    hexDigit digit.digitChar = some digit := by
  have all : ∀ digit < 16, hexDigit (Nat.digitChar digit) = some digit := by
    decide
  exact all digit small

theorem digitChar_letter {digit : Nat} (small : digit < 16) :
    digit.digitChar ≠ 'u' ∧ digit.digitChar ≠ ',' := by
  have all :
      ∀ digit < 16, Nat.digitChar digit ≠ 'u' ∧ Nat.digitChar digit ≠ ',' := by
    decide
  exact all digit small

theorem lowerHex_eq (byte : UInt8) :
    lowerHex byte =
      if byte.toNat < 16 then
        [Nat.digitChar byte.toNat]
      else
        [Nat.digitChar (byte.toNat / 16), Nat.digitChar (byte.toNat % 16)] := by
  have byteSize := byte.toNat_lt
  rw [lowerHex, Nat.toDigits_eq_if (by decide)]
  by_cases small : byte.toNat < 16
  · rw [if_pos small, if_pos small]
  · rw [if_neg small, if_neg small, Nat.toDigits_of_lt_base (by omega)]
    rfl

theorem readDigits_digit {digit : Nat} (small : digit < 16) (value : Nat)
    (rest : List Char) :
    readDigits value (digit.digitChar :: rest) =
      readDigits (16 * value + digit) rest := by
  rw [readDigits, if_neg (digitChar_letter small).1, hexDigit_digitChar small]
  rfl

/-- Two bytes are glued together without a zero between them. -/
theorem readDigits_lowerHex (value : Nat) (byte : UInt8) (rest : List Char) :
    readDigits value (lowerHex byte ++ rest) =
      readDigits
        ((if byte.toNat < 16 then 16 else 256) * value + byte.toNat) rest := by
  have byteSize := byte.toNat_lt
  rw [lowerHex_eq]
  by_cases small : byte.toNat < 16
  · rw [if_pos small, if_pos small, List.singleton_append,
      readDigits_digit small]
  · rw [if_neg small, if_neg small, List.cons_append, List.singleton_append,
      readDigits_digit (by omega), readDigits_digit (by omega)]
    congr 1
    omega

theorem comma_not_mem_lowerHex (byte : UInt8) : ',' ∉ lowerHex byte := by
  have byteSize := byte.toNat_lt
  rw [lowerHex_eq]
  split
  · next small =>
      rw [List.mem_singleton]
      exact (digitChar_letter small).2.symm
  · next large =>
      have high : byte.toNat / 16 < 16 := by omega
      have low : byte.toNat % 16 < 16 := by omega
      rw [List.mem_cons, List.mem_singleton, not_or]
      exact ⟨(digitChar_letter high).2.symm, (digitChar_letter low).2.symm⟩

/-- The number that the digits of two bytes show. -/
def shownUnit (b : UInt8 × UInt8) : Nat :=
  (if b.1.toNat < 16 then 16 else 256) * b.2.toNat + b.1.toNat

theorem literalUnit_unitDigits (b : UInt8 × UInt8) :
    literalUnit (unitDigits b) = some (shownUnit b) := by
  have lowSize := b.1.toNat_lt
  have highSize := b.2.toNat_lt
  have digits :
      readDigits 0 (lowerHex b.2 ++ lowerHex b.1) = some (shownUnit b) := by
    rw [← List.append_nil (lowerHex b.1), readDigits_lowerHex,
      readDigits_lowerHex, Nat.mul_zero, Nat.zero_add]
    rfl
  have fits : shownUnit b < 2 ^ 16 := by
    unfold shownUnit
    split <;> omega
  change (readDigits 0 (lowerHex b.2 ++ lowerHex b.1) >>= _) = _
  rw [digits]
  exact if_pos fits

/-! ## The text of the array -/

theorem dropBlanks {front : List Char} (blank : ∀ char ∈ front, char = ' ')
    {char : Char} (other : char ≠ ' ') (rest : List Char) :
    (front ++ char :: rest).dropWhile (· = ' ') = char :: rest := by
  induction front with
  | nil => simp [other]
  | cons head front inductionHypothesis =>
      rw [List.forall_mem_cons] at blank
      rw [List.cons_append, List.dropWhile_cons, if_pos (by simp [blank.1]),
        inductionHypothesis blank.2]

theorem readItems {front : List Char} (blank : ∀ char ∈ front, char = ' ')
    (units : List (UInt8 × UInt8)) :
    ((front ++ (units.flatMap (fun b => unitDigits b ++ [',', ' ']) ++
        ['0', 'x', '0', '0', 'u', '1', '6'])).splitOn ',').mapM
        (fun item => literalUnit (item.dropWhile (· = ' '))) =
      some (units.map shownUnit ++ [0]) := by
  induction units generalizing front with
  | nil =>
      have absent :
          ',' ∉ front ++ ['0', 'x', '0', '0', 'u', '1', '6'] := by
        intro member
        rcases List.mem_append.mp member with early | late
        · exact absurd (blank _ early) (by decide)
        · exact absurd late (by decide)
      rw [List.flatMap_nil, List.nil_append, List.splitOn_eq_singleton absent,
        List.mapM_cons, dropBlanks blank (by decide)]
      rfl
  | cons b units inductionHypothesis =>
      have absent : ',' ∉ front ++ unitDigits b := by
        intro member
        rcases List.mem_append.mp member with early | late
        · exact absurd (blank _ early) (by decide)
        · simp [unitDigits, comma_not_mem_lowerHex] at late
      have split :
          front ++ (List.flatMap (fun b => unitDigits b ++ [',', ' '])
              (b :: units) ++ ['0', 'x', '0', '0', 'u', '1', '6']) =
            (front ++ unitDigits b) ++ ',' :: ([' '] ++
              (units.flatMap (fun b => unitDigits b ++ [',', ' ']) ++
                ['0', 'x', '0', '0', 'u', '1', '6'])) := by
        simp
      have own :
          (front ++ unitDigits b).dropWhile (· = ' ') = unitDigits b :=
        dropBlanks blank (by decide) _
      rw [split, List.splitOn_append_cons_self_of_not_mem absent,
        List.mapM_cons, own, literalUnit_unitDigits,
        inductionHypothesis (by simp)]
      rfl

theorem arrayUnits_of_units (units : List (UInt8 × UInt8)) :
    arrayUnits
        (['&', '['] ++ units.flatMap (fun b => unitDigits b ++ [',', ' ']) ++
          ['0', 'x', '0', '0', 'u', '1', '6', ']']) =
      some (units.map shownUnit ++ [0]) := by
  have items := readItems (List.forall_mem_nil _) units
  rw [List.nil_append] at items
  rw [List.append_assoc, List.cons_append, List.cons_append, List.nil_append,
    arrayUnits]
  have closing :
      units.flatMap (fun b => unitDigits b ++ [',', ' ']) ++
          ['0', 'x', '0', '0', 'u', '1', '6', ']'] =
        (units.flatMap (fun b => unitDigits b ++ [',', ' ']) ++
          ['0', 'x', '0', '0', 'u', '1', '6']) ++ [']'] := by
    simp
  rw [closing, List.getLast?_concat, if_pos rfl, List.dropLast_concat, items]

theorem pushUnits_eq_ok {dstr estr text : List Char} :
    pushUnits dstr estr = .ok text ↔
      ∃ units,
        List.Forall₂ (fun s b => encodeUtf8 s = .ok b) estr units ∧
          text = dstr ++ units.flatMap fun b => unitDigits b ++ [',', ' '] := by
  induction estr generalizing dstr with
  | nil =>
      rw [pushUnits, Except.ok.injEq]
      constructor
      · intro same
        exact ⟨[], List.Forall₂.nil, by simp [same]⟩
      · rintro ⟨units, each, rfl⟩
        cases each
        simp
  | cons s estr inductionHypothesis =>
      rw [pushUnits, except_bind_eq_ok]
      constructor
      · rintro ⟨b, encoded, pushed⟩
        obtain ⟨units, each, rfl⟩ := inductionHypothesis.mp pushed
        exact ⟨b :: units, List.Forall₂.cons encoded each, by simp⟩
      · rintro ⟨units, each, rfl⟩
        cases each with
        | cons encoded each =>
            exact ⟨_, encoded, inductionHypothesis.mpr ⟨_, each, by simp⟩⟩

/-! ## The units of the characters -/

theorem encodeUtf8_ascii {s : Char} (ascii : s.toNat < 128) :
    encodeUtf8 s = .ok (UInt8.ofNat s.toNat, 0) := by
  rw [encodeUtf8, utf8EncodeChar_ascii ascii]

/-- Two bytes, of which the second one is taken for the high byte. -/
theorem encodeUtf8_two {s : Char} (wide : 128 ≤ s.toNat)
    (small : s.toNat < 0x800) :
    encodeUtf8 s =
      .ok (UInt8.ofNat (s.toNat / 64 % 32 + 192),
        UInt8.ofNat (s.toNat % 64 + 128)) := by
  have above : ¬ s.val.toNat ≤ 127 := Nat.not_le_of_lt wide
  have below : s.val.toNat ≤ 2047 := Nat.le_of_lt_succ small
  unfold encodeUtf8 String.utf8EncodeChar
  simp only
  rw [if_neg above, if_pos below]
  rfl

theorem encodeUtf8_beyond {s : Char} (beyond : 0x800 ≤ s.toNat) :
    encodeUtf8 s = .error .sliceIndex := by
  have above : ¬ s.val.toNat ≤ 127 := by
    change ¬ s.toNat ≤ 127
    omega
  have large : ¬ s.val.toNat ≤ 2047 := Nat.not_le_of_lt beyond
  unfold encodeUtf8 String.utf8EncodeChar
  simp only
  rw [if_neg above, if_neg large]
  by_cases three : s.val.toNat ≤ 65535
  · rw [if_pos three]
  · rw [if_neg three]

/-- The digits of a character that fits the buffer show its unit exactly if it
is of ASCII. -/
theorem encodeUtf16_iff {s : Char} {b : UInt8 × UInt8}
    (encoded : encodeUtf8 s = .ok b) :
    s.toNat < 0x800 ∧ (shownUnit b = s.toNat ↔ s.toNat < 128) := by
  rcases Nat.lt_or_ge s.toNat 128 with ascii | wide
  · rw [encodeUtf8_ascii ascii] at encoded
    cases encoded
    have shown : shownUnit (UInt8.ofNat s.toNat, 0) = s.toNat := by
      unfold shownUnit
      simp only [UInt8.toNat_ofNat', UInt8.toNat_ofNat]
      omega
    exact ⟨by omega, fun _ => ascii, fun _ => shown⟩
  · rcases Nat.lt_or_ge s.toNat 0x800 with small | beyond
    · rw [encodeUtf8_two wide small] at encoded
      cases encoded
      have large :
          128 * 256 ≤
            shownUnit (UInt8.ofNat (s.toNat / 64 % 32 + 192),
              UInt8.ofNat (s.toNat % 64 + 128)) := by
        unfold shownUnit
        simp only [UInt8.toNat_ofNat']
        rw [if_neg (by omega)]
        omega
      exact ⟨small, by omega, by omega⟩
    · rw [encodeUtf8_beyond beyond] at encoded
      cases encoded

theorem units_iff {content : List Char} {units : List (UInt8 × UInt8)}
    (each : List.Forall₂ (fun s b => encodeUtf8 s = .ok b) content units) :
    units.map shownUnit = content.flatMap encodeUtf16 ↔
      ∀ s ∈ content, s.toNat < 128 := by
  induction each with
  | nil => simp
  | @cons s b content units encoded _ inductionHypothesis =>
      obtain ⟨small, shown⟩ := encodeUtf16_iff encoded
      have unit : encodeUtf16 s = [s.toNat] := if_pos (by omega)
      rw [List.map_cons, List.flatMap_cons, unit, List.singleton_append,
        List.cons_eq_cons, shown, inductionHypothesis, List.forall_mem_cons]

theorem exists_units {content : List Char}
    (ascii : ∀ s ∈ content, s.toNat < 128) :
    ∃ units,
      List.Forall₂ (fun s b => encodeUtf8 s = .ok b) content units := by
  induction content with
  | nil => exact ⟨[], List.Forall₂.nil⟩
  | cons s content inductionHypothesis =>
      rw [List.forall_mem_cons] at ascii
      obtain ⟨units, each⟩ := inductionHypothesis ascii.2
      exact ⟨_, List.Forall₂.cons (encodeUtf8_ascii ascii.1) each⟩

/-! ## The macro on a literal -/

theorem wchar_literal {unescape : List Char → Option (List Char)}
    {text content array : List Char}
    (unescaped : unescape (text.drop 1).dropLast = some content) :
    wchar unescape [.literal text] = .ok array ↔
      ∃ units,
        List.Forall₂ (fun s b => encodeUtf8 s = .ok b) content units ∧
          array =
            ['&', '['] ++
              units.flatMap (fun b => unitDigits b ++ [',', ' ']) ++
              ['0', 'x', '0', '0', 'u', '1', '6', ']'] := by
  have returned :
      wchar unescape [.literal text] =
        (pushUnits ['&', '['] content >>= fun dstr =>
          .ok (dstr ++ ['0', 'x', '0', '0', 'u', '1', '6', ']'])) := by
    rw [wchar]
    simp only [unescaped]
    rfl
  rw [returned, except_bind_eq_ok]
  constructor
  · rintro ⟨dstr, pushed, closed⟩
    obtain ⟨units, each, rfl⟩ := pushUnits_eq_ok.mp pushed
    cases closed
    exact ⟨units, each, rfl⟩
  · rintro ⟨units, each, rfl⟩
    exact ⟨_, pushUnits_eq_ok.mpr ⟨units, each, rfl⟩, rfl⟩

/-- A literal gets the right array exactly if its content is of ASCII. -/
theorem wideLiteral_iff {unescape : List Char → Option (List Char)}
    {text content : List Char}
    (unescaped : unescape (text.drop 1).dropLast = some content) :
    WideLiteral unescape text content ↔ ∀ s ∈ content, s.toNat < 128 := by
  constructor
  · rintro ⟨array, returned, shown⟩
    obtain ⟨units, each, rfl⟩ := (wchar_literal unescaped).mp returned
    rw [arrayUnits_of_units, Option.some.injEq] at shown
    exact (units_iff each).mp (List.append_cancel_right shown)
  · intro ascii
    obtain ⟨units, each⟩ := exists_units ascii
    refine ⟨_, (wchar_literal unescaped).mpr ⟨units, each, rfl⟩, ?_⟩
    rw [arrayUnits_of_units, (units_iff each).mpr ascii]

/-- The literal of the path of the boot image, with its escapes. -/
def bootPathLiteral : List Char := "\"efi\\\\boot\\\\btimg.bin\"".toList

def bootPath : List Char := "efi\\boot\\btimg.bin".toList

/-- `unescape::unescape`, for backslashes. -/
def unescapeBackslashes : List Char → Option (List Char)
  | [] => some []
  | ['\\'] => none
  | '\\' :: next :: rest =>
      if next = '\\' then ('\\' :: ·) <$> unescapeBackslashes rest else none
  | char :: rest => (char :: ·) <$> unescapeBackslashes rest

theorem wideLiteral_iff_bootPath :
    WideLiteral unescapeBackslashes bootPathLiteral bootPath := by
  have unescaped :
      unescapeBackslashes (bootPathLiteral.drop 1).dropLast =
        some bootPath := by
    with_unfolding_all decide
  have ascii : bootPath.all (fun s => s.toNat < 128) = true := by
    with_unfolding_all decide
  exact (wideLiteral_iff unescaped).mpr fun s member =>
    of_decide_eq_true (List.all_eq_true.mp ascii s member)

/-- A character of two bytes, whose units come out as 0xA9C3. -/
theorem accentedLiteral_misread :
    wchar some [.literal "\"é\"".toList] =
        .ok "&[0xa9c3, 0x00u16]".toList ∧
      arrayUnits "&[0xa9c3, 0x00u16]".toList = some [0xA9C3, 0] ∧
      "é".toList.flatMap encodeUtf16 = [0xE9] ∧
      ¬ WideLiteral some "\"é\"".toList "é".toList := by
  have returned :
      wchar some [.literal "\"é\"".toList] =
        .ok "&[0xa9c3, 0x00u16]".toList := by
    with_unfolding_all decide
  have read :
      arrayUnits "&[0xa9c3, 0x00u16]".toList = some [0xA9C3, 0] := by
    with_unfolding_all decide
  have units : "é".toList.flatMap encodeUtf16 = [0xE9] := by
    with_unfolding_all decide
  refine ⟨returned, read, units, ?_⟩
  rintro ⟨array, returnedAgain, shown⟩
  rw [returned] at returnedAgain
  cases returnedAgain
  rw [read, units] at shown
  exact absurd shown (by decide)

end RustKernel.KernelApi
