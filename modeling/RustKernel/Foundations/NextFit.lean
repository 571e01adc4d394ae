import RustKernel.Foundations.Bytes

/-!
# Records that do not cross sectors

Records are written one behind the other; one that does not fit into what is
left of its sector goes to the start of the next, and the rest is filled with
zeros.  How many sectors that takes is counted step by step, and a reader that
knows only the length byte of each record finds all of them again.
-/

namespace RustKernel.Foundations

/-- The bytes between a position and the next sector. -/
def restOf (sector position : Nat) : Nat :=
  (sector - position % sector) % sector

/-- The zeros in front of a record. -/
def gap (sector position size : Nat) : Nat :=
  if restOf sector position < size ∧ restOf sector position ≠ 0 then
    restOf sector position
  else
    0

/-- The position behind a record. -/
def advance (sector position size : Nat) : Nat :=
  position + gap sector position size + size

/-- The position behind a list of records. -/
def endOf (sector position : Nat) (sizes : List Nat) : Nat :=
  sizes.foldl (advance sector) position

/-- The number of sectors up to a position. -/
def sectorsTo (sector position : Nat) : Nat :=
  (position + (sector - 1)) / sector

/-- The number of records that have zeros in front of them. -/
def gaps (sector : Nat) : Nat → List Nat → Nat
  | _, [] => 0
  | position, size :: sizes =>
      (if gap sector position size = 0 then 0 else 1) +
        gaps sector (advance sector position size) sizes

/-- The number of records that start a sector without zeros in front. -/
def exactFills (sector : Nat) : Nat → List Nat → Nat
  | _, [] => 0
  | position, size :: sizes =>
      (if position % sector = 0 then 1 else 0) +
        exactFills sector (advance sector position size) sizes

section Positions

variable {sector : Nat}

theorem restOf_cases (positive : 0 < sector) (position : Nat) :
    (position % sector = 0 ∧ restOf sector position = 0) ∨
      (0 < position % sector ∧
        restOf sector position = sector - position % sector) := by
  have below := Nat.mod_lt position positive
  by_cases aligned : position % sector = 0
  · left
    refine ⟨aligned, ?_⟩
    rw [restOf, aligned, Nat.sub_zero, Nat.mod_self]
  · right
    refine ⟨Nat.pos_of_ne_zero aligned, ?_⟩
    rw [restOf, Nat.mod_eq_of_lt (by omega)]

/-- A record starts a sector, or it fits into what is left of its sector, or
it goes to the next one. -/
theorem advance_cases (positive : 0 < sector) (position size : Nat) :
    (position % sector = 0 ∧ gap sector position size = 0 ∧
        advance sector position size =
          sector * (position / sector) + size) ∨
      (0 < position % sector ∧ position % sector + size ≤ sector ∧
        gap sector position size = 0 ∧
        advance sector position size =
          sector * (position / sector) + position % sector + size) ∨
      (0 < position % sector ∧ sector < position % sector + size ∧
        gap sector position size = sector - position % sector ∧
        gap sector position size ≠ 0 ∧
        advance sector position size =
          sector * (position / sector) + sector + size) := by
  have below := Nat.mod_lt position positive
  have split := Nat.div_add_mod position sector
  unfold advance gap
  rcases restOf_cases positive position with ⟨aligned, rest⟩ | ⟨inside, rest⟩
  · left
    rw [rest, if_neg (by omega)]
    omega
  · right
    by_cases fits : position % sector + size ≤ sector
    · left
      rw [rest, if_neg (by omega)]
      omega
    · right
      rw [rest, if_pos (by omega)]
      omega

theorem gap_cases (positive : 0 < sector) (position size : Nat) :
    gap sector position size = 0 ∨
      gap sector position size = sector - position % sector := by
  rcases advance_cases positive position size with
    ⟨_, none, _⟩ | ⟨_, _, none, _⟩ | ⟨_, _, some, _, _⟩
  · exact Or.inl none
  · exact Or.inl none
  · exact Or.inr some

theorem advance_shift (sector count position size : Nat) :
    advance sector (sector * count + position) size =
      sector * count + advance sector position size := by
  have same :
      restOf sector (sector * count + position) = restOf sector position := by
    rw [restOf, restOf, Nat.mul_add_mod]
  rw [advance, advance, gap, gap, same]
  omega

theorem endOf_cons (sector position size : Nat) (sizes : List Nat) :
    endOf sector position (size :: sizes) =
      endOf sector (advance sector position size) sizes :=
  rfl

theorem endOf_append (sector position : Nat) (first second : List Nat) :
    endOf sector position (first ++ second) =
      endOf sector (endOf sector position first) second :=
  List.foldl_append

theorem endOf_shift (sector count position : Nat) (sizes : List Nat) :
    endOf sector (sector * count + position) sizes =
      sector * count + endOf sector position sizes := by
  induction sizes generalizing position with
  | nil => rfl
  | cons size sizes inductionHypothesis =>
      rw [endOf_cons, endOf_cons, advance_shift, inductionHypothesis]

theorem advance_mono (positive : 0 < sector) {first second : Nat}
    (ordered : first ≤ second) (size : Nat) :
    advance sector first size ≤ advance sector second size := by
  have firstSplit := Nat.div_add_mod first sector
  have secondSplit := Nat.div_add_mod second sector
  have quotients := Nat.div_le_div_right (c := sector) ordered
  rcases Nat.lt_or_eq_of_le quotients with apart | same
  · have separated :
        sector * (first / sector) + sector ≤ sector * (second / sector) := by
      rw [← Nat.mul_succ]
      exact Nat.mul_le_mul_left sector apart
    have below := Nat.mod_lt first positive
    rcases advance_cases positive first size with
      ⟨_, _, moved⟩ | ⟨_, _, _, moved⟩ | ⟨_, _, _, _, moved⟩ <;>
    rw [moved, advance] <;>
    omega
  · rw [same] at firstSplit
    rcases advance_cases positive first size with
      ⟨_, _, moved⟩ | ⟨_, _, _, moved⟩ | ⟨_, _, _, _, moved⟩
    · rw [moved, same, advance]
      omega
    · rw [moved, same, advance]
      omega
    · rcases advance_cases positive second size with
        ⟨_, _, movedLater⟩ | ⟨_, _, _, movedLater⟩ |
          ⟨_, _, _, _, movedLater⟩ <;>
      rw [moved, movedLater, same] <;>
      omega

theorem endOf_mono (positive : 0 < sector) {first second : Nat}
    (ordered : first ≤ second) (sizes : List Nat) :
    endOf sector first sizes ≤ endOf sector second sizes := by
  induction sizes generalizing first second with
  | nil => exact ordered
  | cons size sizes inductionHypothesis =>
      exact inductionHypothesis (advance_mono positive ordered size)

theorem le_endOf (sector position : Nat) (sizes : List Nat) :
    position + sizes.sum ≤ endOf sector position sizes := by
  induction sizes generalizing position with
  | nil => exact Nat.le_refl _
  | cons size sizes inductionHypothesis =>
      have later := inductionHypothesis (advance sector position size)
      rw [List.sum_cons, endOf_cons]
      unfold advance at later ⊢
      omega

/-! ## Sectors -/

theorem sectorsTo_multiple (positive : 0 < sector) (count : Nat) :
    sectorsTo sector (sector * count) = count := by
  rw [sectorsTo, Nat.mul_add_div positive,
    Nat.div_eq_of_lt (by omega), Nat.add_zero]

theorem sectorsTo_inside {count offset : Nat} (inside : 0 < offset)
    (within : offset ≤ sector) :
    sectorsTo sector (sector * count + offset) = count + 1 := by
  have positive : 0 < sector := Nat.lt_of_lt_of_le inside within
  have more : offset + (sector - 1) = sector * 1 + (offset - 1) := by
    omega
  rw [sectorsTo, Nat.add_assoc, more, Nat.mul_add_div positive,
    Nat.mul_add_div positive, Nat.div_eq_of_lt (by omega)]

theorem sectorsTo_advance {position size : Nat} (inside : 0 < size)
    (within : size ≤ sector) :
    sectorsTo sector (advance sector position size) =
      sectorsTo sector position +
        (if gap sector position size = 0 then 0 else 1) +
        (if position % sector = 0 then 1 else 0) := by
  have positive : 0 < sector := Nat.lt_of_lt_of_le inside within
  have split := Nat.div_add_mod position sector
  have below := Nat.mod_lt position positive
  rcases advance_cases positive position size with
    ⟨aligned, none, moved⟩ | ⟨started, fits, none, moved⟩ |
      ⟨started, _, _, some, moved⟩
  · rw [aligned, Nat.add_zero] at split
    rw [moved, sectorsTo_inside inside within, if_pos none, if_pos aligned]
    nth_rewrite 2 [← split]
    rw [sectorsTo_multiple positive]
  · rw [moved, Nat.add_assoc, sectorsTo_inside (by omega) fits, if_pos none,
      if_neg (Nat.pos_iff_ne_zero.mp started)]
    nth_rewrite 2 [← split]
    rw [sectorsTo_inside started (by omega)]
  · have next :
        sector * (position / sector) + sector =
          sector * (position / sector + 1) := by
      rw [Nat.mul_succ]
    rw [moved, next, sectorsTo_inside inside within, if_neg some,
      if_neg (Nat.pos_iff_ne_zero.mp started)]
    nth_rewrite 2 [← split]
    rw [sectorsTo_inside started (by omega)]

/-- Every new sector comes from a gap or from a sector that was filled
exactly. -/
theorem sectorsTo_endOf {sizes : List Nat}
    (bounded : ∀ size ∈ sizes, 0 < size ∧ size ≤ sector) (position : Nat) :
    sectorsTo sector (endOf sector position sizes) =
      sectorsTo sector position + gaps sector position sizes +
        exactFills sector position sizes := by
  induction sizes generalizing position with
  | nil => rfl
  | cons size sizes inductionHypothesis =>
      have own := bounded size (by simp)
      change
        sectorsTo sector
            (endOf sector (advance sector position size) sizes) = _
      rw [inductionHypothesis fun later member =>
          bounded later (by simp [member]),
        sectorsTo_advance own.1 own.2, gaps, exactFills]
      omega

end Positions

/-! ## The bytes -/

/-- The bytes from a position to the end of the last record. -/
def layOut (sector : Nat) : Nat → List (List UInt8) → List UInt8
  | _, [] => []
  | position, record :: records =>
      List.replicate (gap sector position record.length) 0 ++
        (record ++
          layOut sector (advance sector position record.length) records)

/-- The records with their positions. -/
def placed (sector : Nat) :
    Nat → List (List UInt8) → List (Nat × List UInt8)
  | _, [] => []
  | position, record :: records =>
      (position + gap sector position record.length, record) ::
        placed sector (advance sector position record.length) records

/-- A reader that steps by the length byte of each record and goes to the next
sector on a zero byte. -/
def scan (sector : Nat) : Nat → Nat → List UInt8 → List (Nat × List UInt8)
  | 0, _, _ => []
  | _ + 1, _, [] => []
  | fuel + 1, position, byte :: bytes =>
      if byte = 0 then
        scan sector fuel (position + (sector - position % sector))
          ((byte :: bytes).drop (sector - position % sector))
      else
        (position, (byte :: bytes).take byte.toNat) ::
          scan sector fuel (position + byte.toNat)
            ((byte :: bytes).drop byte.toNat)

section Layout

variable {sector : Nat}

theorem layOut_append (sector position : Nat)
    (first second : List (List UInt8)) :
    layOut sector position (first ++ second) =
      layOut sector position first ++
        layOut sector (endOf sector position (first.map List.length))
          second := by
  induction first generalizing position with
  | nil => rfl
  | cons record records inductionHypothesis =>
      rw [List.cons_append, layOut, layOut, inductionHypothesis,
        List.append_assoc, List.append_assoc]
      rfl

theorem layOut_length (sector position : Nat) (records : List (List UInt8)) :
    position + (layOut sector position records).length =
      endOf sector position (records.map List.length) := by
  induction records generalizing position with
  | nil => rfl
  | cons record records inductionHypothesis =>
      change
        _ = endOf sector (advance sector position record.length)
          (records.map List.length)
      rw [← inductionHypothesis, layOut, List.length_append,
        List.length_append, List.length_replicate, advance]
      omega

theorem placed_map {α : Type} (read : List UInt8 → α) (sector position : Nat)
    (records : List (List UInt8)) :
    (placed sector position records).map (fun item => read item.2) =
      records.map read := by
  induction records generalizing position with
  | nil => rfl
  | cons record records inductionHypothesis =>
      rw [placed, List.map_cons, List.map_cons, inductionHypothesis]

/-- No record crosses into the next sector. -/
theorem placed_within {records : List (List UInt8)}
    (bounded : ∀ record ∈ records, 0 < record.length ∧ record.length ≤ sector)
    (position : Nat) :
    ∀ item ∈ placed sector position records,
      item.1 % sector + item.2.length ≤ sector := by
  induction records generalizing position with
  | nil => simp [placed]
  | cons record records inductionHypothesis =>
      have own := bounded record (by simp)
      have positive : 0 < sector := Nat.lt_of_lt_of_le own.1 own.2
      refine List.forall_mem_cons.mpr ⟨?_, ?_⟩
      · have split := Nat.div_add_mod position sector
        simp only
        rcases advance_cases positive position record.length with
          ⟨aligned, none, _⟩ | ⟨_, fits, none, _⟩ | ⟨_, _, some, _, _⟩
        · rw [none, Nat.add_zero, aligned]
          omega
        · rw [none, Nat.add_zero]
          exact fits
        · have below := Nat.mod_lt position positive
          have next :
              position + (sector - position % sector) =
                sector * (position / sector + 1) := by
            rw [Nat.mul_succ]
            omega
          rw [some, next, Nat.mul_mod_right]
          omega
      · exact inductionHypothesis
          (fun later member => bounded later (by simp [member])) _

theorem scan_zeros (positive : 0 < sector) {fuel position : Nat}
    (enough : 0 < fuel) (rest : List UInt8) :
    scan sector fuel position
        (List.replicate (sector - position % sector) 0 ++ rest) =
      scan sector (fuel - 1) (position + (sector - position % sector))
        rest := by
  have below := Nat.mod_lt position positive
  obtain ⟨count, counted⟩ :
      ∃ count, sector - position % sector = count + 1 :=
    ⟨sector - position % sector - 1, by omega⟩
  obtain ⟨less, fueled⟩ : ∃ less, fuel = less + 1 :=
    ⟨fuel - 1, by omega⟩
  rw [counted, fueled, List.replicate_succ, List.cons_append, scan,
    if_pos rfl, counted, ← List.cons_append, ← List.replicate_succ,
    List.drop_left' List.length_replicate, Nat.add_sub_cancel]

theorem scan_record {fuel position : Nat} {record : List UInt8}
    (enough : 0 < fuel) (rest : List UInt8)
    (sized : record.head? = some (UInt8.ofNat record.length))
    (short : record.length ≤ 255) :
    scan sector fuel position (record ++ rest) =
      (position, record) ::
        scan sector (fuel - 1) (position + record.length) rest := by
  obtain ⟨less, fueled⟩ : ∃ less, fuel = less + 1 :=
    ⟨fuel - 1, by omega⟩
  cases record with
  | nil => cases sized
  | cons byte bytes =>
      rw [List.head?_cons, Option.some.injEq] at sized
      have value : byte.toNat = (byte :: bytes).length := by
        rw [sized, UInt8.toNat_ofNat', Nat.mod_eq_of_lt]
        rw [← sized]
        omega
      have nonzero : byte ≠ 0 := by
        intro zero
        rw [zero, List.length_cons] at value
        cases value
      rw [fueled, List.cons_append, scan, if_neg nonzero, value,
        ← List.cons_append, List.take_left' rfl, List.drop_left' rfl,
        Nat.add_sub_cancel]

/-- Nothing is found in zeros. -/
theorem scan_onlyZeros (fuel position count : Nat) :
    scan sector fuel position (List.replicate count 0) = [] := by
  induction fuel generalizing position count with
  | zero => rfl
  | succ fuel inductionHypothesis =>
      cases count with
      | zero => rfl
      | succ count =>
          rw [List.replicate_succ, scan, if_pos rfl, ← List.replicate_succ,
            List.drop_replicate]
          exact inductionHypothesis _ _

/-- The reader finds the records, each at its position, and nothing in the
zeros behind them. -/
theorem scan_layOut {records : List (List UInt8)}
    (sized :
      ∀ record ∈ records,
        record.head? = some (UInt8.ofNat record.length) ∧
          record.length ≤ 255)
    (positive : 0 < sector) {fuel position : Nat}
    (enough : (layOut sector position records).length ≤ fuel)
    (count : Nat) :
    scan sector fuel position
        (layOut sector position records ++ List.replicate count 0) =
      placed sector position records := by
  induction records generalizing fuel position with
  | nil => exact scan_onlyZeros fuel position count
  | cons record records inductionHypothesis =>
      have own := sized record (by simp)
      have nonempty : 0 < record.length := by
        cases record with
        | nil => cases own.1
        | cons byte bytes => simp
      have later :
          ∀ record ∈ records,
            record.head? = some (UInt8.ofNat record.length) ∧
              record.length ≤ 255 :=
        fun other member => sized other (by simp [member])
      rw [layOut, List.length_append, List.length_append,
        List.length_replicate] at enough
      rw [layOut, placed, List.append_assoc, List.append_assoc]
      rw [advance] at enough ⊢
      rcases gap_cases positive position record.length with none | some
      · rw [none, Nat.add_zero] at enough ⊢
        rw [List.replicate_zero, List.nil_append,
          scan_record (by omega) _ own.1 own.2,
          inductionHypothesis later (by omega)]
      · have below := Nat.mod_lt position positive
        rw [some] at enough ⊢
        rw [scan_zeros positive (by omega),
          scan_record (by omega) _ own.1 own.2,
          inductionHypothesis later (by omega)]

end Layout

end RustKernel.Foundations
