import RustKernel.Iso.Image

/-!
# Addresses by cylinder, head and sector

The protective label gives its partition by two addresses of three bytes.  The
ten bits of the cylinder are split over two of them, and what lies behind the
last cylinder is to be shown as the last address there is.
-/

namespace RustKernel.Iso

structure ChsAddress where
  cylinder : Nat
  head : Nat
  sector : Nat
  deriving DecidableEq, Repr

namespace ChsAddress

/-- The sector has the low six bits of the second byte, and the cylinder its
high two above the third one. -/
def ofBytes : List UInt8 → Option ChsAddress
  | [head, sector, cylinder] =>
      some ⟨256 * (sector.toNat / 64) + cylinder.toNat, head.toNat,
        sector.toNat % 64⟩
  | _ => none

/-- Sectors are counted from one. -/
def IsAt (address : ChsAddress) (headCount sectorCount diskLba : Nat) : Prop :=
  (address.cylinder * headCount + address.head) * sectorCount +
      address.sector =
    diskLba + 1

/-- The last address of a geometry. -/
def largest (headCount sectorCount : Nat) : ChsAddress :=
  ⟨1023, headCount - 1, sectorCount⟩

end ChsAddress

/-- The bytes show the block as long as there is a cylinder for it, and the
last address otherwise. -/
def ShowsLba (headCount sectorCount diskLba : Nat) : Prop :=
  ∃ address,
    ChsAddress.ofBytes (lbaToCls diskLba headCount sectorCount) =
        some address ∧
      if diskLba < 1024 * headCount * sectorCount then
        address.IsAt headCount sectorCount diskLba
      else
        address = .largest headCount sectorCount

/-! ## The bits of the cylinder -/

theorem and_0x300 (cylinder : Nat) :
    cylinder &&& 0x300 = 256 * (cylinder / 256 % 4) := by
  have high : (cylinder &&& 0x300) / 256 = cylinder / 256 % 4 := by
    have shifted := @Nat.and_div_two_pow cylinder 0x300 8
    have mask : cylinder / 256 &&& 3 = cylinder / 256 % 4 :=
      Nat.and_two_pow_sub_one_eq_mod (cylinder / 256) 2
    rw [← mask]
    exact shifted
  have low : (cylinder &&& 0x300) % 256 = 0 := by
    have cut := @Nat.and_mod_two_pow cylinder 0x300 8
    rw [show 0x300 % 2 ^ 8 = 0 by rfl, Nat.and_zero] at cut
    exact cut
  omega

theorem and_0xFF (cylinder : Nat) : cylinder &&& 0xFF = cylinder % 256 :=
  Nat.and_two_pow_sub_one_eq_mod cylinder 8

theorem sectorByte {sector cylinder : Nat} (small : sector < 64) :
    sector ||| (cylinder &&& 0x300) >>> 2 =
      sector + 64 * (cylinder / 256 % 4) := by
  have shifted : (cylinder &&& 0x300) >>> 2 = 2 ^ 6 * (cylinder / 256 % 4) := by
    rw [and_0x300, Nat.shiftRight_eq_div_pow]
    omega
  rw [shifted, Nat.or_comm, ← Nat.two_pow_add_eq_or_of_lt small]
  exact Nat.add_comm _ _

/-- Three numbers in their bytes. -/
theorem ofBytes_packed {head sector cylinder : Nat} (headFits : head < 256)
    (sectorFits : sector < 64) :
    ChsAddress.ofBytes
        [UInt8.ofNat head,
          UInt8.ofNat (sector ||| (cylinder &&& 0x300) >>> 2),
          UInt8.ofNat (cylinder &&& 0xFF)] =
      some ⟨cylinder % 1024, head, sector⟩ := by
  rw [sectorByte sectorFits, and_0xFF, ChsAddress.ofBytes]
  simp only [UInt8.toNat_ofNat', Option.some.injEq, ChsAddress.mk.injEq]
  omega

/-! ## The address of a block -/

section Geometry

variable {headCount sectorCount : Nat} (someHead : 1 ≤ headCount)
  (headsFit : headCount ≤ 255) (someSector : 1 ≤ sectorCount)
  (sectorsFit : sectorCount ≤ 63)

include someHead headsFit someSector sectorsFit

/-- The cylinder 1024 is not taken for one that lies behind the last. -/
theorem ofBytes_lbaToCls (diskLba : Nat) :
    ChsAddress.ofBytes (lbaToCls diskLba headCount sectorCount) =
      some (if 1024 < diskLba / sectorCount / headCount then
        ⟨1023, headCount, sectorCount⟩
      else
        ⟨diskLba / sectorCount / headCount % 1024,
          diskLba / sectorCount % headCount, diskLba % sectorCount + 1⟩) := by
  unfold lbaToCls
  simp only
  by_cases beyond : 0x400 < diskLba / sectorCount / headCount
  · rw [if_pos beyond, if_pos beyond, if_pos beyond, if_pos beyond,
      ofBytes_packed (by omega) (by omega)]
  · have head := Nat.mod_lt (diskLba / sectorCount) someHead
    have sector := Nat.mod_lt diskLba someSector
    rw [if_neg beyond, if_neg beyond, if_neg beyond, if_neg beyond,
      ofBytes_packed (by omega) (by omega)]

omit headsFit sectorsFit in
theorem cylinder_lt_iff (diskLba cylinders : Nat) :
    diskLba / sectorCount / headCount < cylinders ↔
      diskLba < cylinders * headCount * sectorCount := by
  rw [Nat.div_lt_iff_lt_mul someHead, Nat.div_lt_iff_lt_mul someSector]

omit someHead headsFit someSector sectorsFit in
theorem isAt_quotients (diskLba : Nat) :
    ChsAddress.IsAt
      ⟨diskLba / sectorCount / headCount, diskLba / sectorCount % headCount,
        diskLba % sectorCount + 1⟩
      headCount sectorCount diskLba := by
  have track :
      diskLba / sectorCount / headCount * headCount +
          diskLba / sectorCount % headCount =
        diskLba / sectorCount := by
    rw [Nat.mul_comm, Nat.div_add_mod]
  have block :
      diskLba / sectorCount * sectorCount + diskLba % sectorCount =
        diskLba := by
    rw [Nat.mul_comm, Nat.div_add_mod]
  rw [ChsAddress.IsAt]
  simp only
  rw [track, ← Nat.add_assoc, block]

/-- The three bytes are right exactly for the blocks that have a cylinder. -/
theorem showsLba_iff (diskLba : Nat) :
    ShowsLba headCount sectorCount diskLba ↔
      diskLba < 1024 * headCount * sectorCount := by
  have read :=
    ofBytes_lbaToCls someHead headsFit someSector sectorsFit diskLba
  have inside := cylinder_lt_iff someHead someSector diskLba 1024
  constructor
  · rintro ⟨address, shown, right⟩
    by_contra behind
    rw [read, Option.some.injEq] at shown
    rw [if_neg behind, ← shown] at right
    split at right
    · have heads : headCount = headCount - 1 :=
        congrArg ChsAddress.head right
      omega
    · have cylinders :
          diskLba / sectorCount / headCount % 1024 = 1023 :=
        congrArg ChsAddress.cylinder right
      omega
  · intro below
    refine ⟨_, read, ?_⟩
    have cylinder := inside.mpr below
    rw [if_pos below, if_neg (by omega), Nat.mod_eq_of_lt cylinder]
    exact isAt_quotients diskLba

end Geometry

/-- The geometry of the protective label. -/
theorem showsLba_label :
    ShowsLba 64 32 1 ∧ ShowsLba 64 32 2097151 :=
  ⟨(showsLba_iff (by decide) (by decide) (by decide) (by decide) 1).mpr
      (by decide),
    (showsLba_iff (by decide) (by decide) (by decide) (by decide)
      2097151).mpr (by decide)⟩

/-- The last block of an image of 524289 logical blocks is shown in the first
cylinder, and for larger images the head is one that does not exist. -/
theorem label_misplaced :
    lbaToCls 2097155 64 32 = [0, 4, 0] ∧ ¬ ShowsLba 64 32 2097155 ∧
      lbaToCls 2099200 64 32 = [64, 224, 255] ∧ ¬ ShowsLba 64 32 2099200 := by
  have wrapped : lbaToCls 2097155 64 32 = [0, 4, 0] := by decide
  have saturated : lbaToCls 2099200 64 32 = [64, 224, 255] := by decide
  refine ⟨wrapped, ?_, saturated, ?_⟩
  · rintro ⟨address, shown, right⟩
    rw [wrapped] at shown
    rw [if_neg (by decide), ← Option.some.inj shown] at right
    exact absurd right (by decide)
  · rintro ⟨address, shown, right⟩
    rw [saturated] at shown
    rw [if_neg (by decide), ← Option.some.inj shown] at right
    exact absurd right (by decide)

end RustKernel.Iso
