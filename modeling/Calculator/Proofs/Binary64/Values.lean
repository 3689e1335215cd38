import Calculator.Proofs.Binary64.Fields
import Calculator.Proofs.Binary64.Rounding
import Mathlib

/-!
# The numbers that floats stand for

A finite float stands for a rational number: the mantissa that it is unpacked into, times a power of
two, with its sign. Ranks and units are there to compute with; what is claimed of a rounding is
claimed of these numbers. So here is the way from the one to the other: the rank of a finite float
holds its distance from zero in units of `2 ^ (-1074)` (`toRat?_of_rank_lt`), and floats that are
not negative are in the order of their ranks (`le_of_rank_le`).

## Unpacking

A mantissa comes with its leading bit, which a rank does not have, and all that a float is unpacked
into is said of the rank again: the binades below it, where the first two count as one, are the
exponent, and what is left of it is the mantissa.
-/

namespace Calculator.Binary64

open Float.Model (Format UnpackedFloat)
open Float.Model.UnpackedFloat

/-! ## The number -/

/-- The number that a float stands for, if it is finite. -/
def toRat? (x : Float) : Option ℚ :=
  match x.toModel.unpack with
  | .zero _ => some 0
  | .finite sign mantissa exponent _ => some (sign.apply mantissa * 2 ^ exponent)
  | .infinity _ | .notANumber => none

theorem toRat?_eq_none_iff {x : Float} : toRat? x = none ↔ x.isFinite = false := by
  have hfinite : x.isFinite = x.toModel.unpack.isFinite := rfl
  rw [toRat?, hfinite]
  cases x.toModel.unpack <;> simp [UnpackedFloat.isFinite]

/-- How far the floats of a rank are from zero. Like `units` it goes on past the finite ones. -/
def magnitude (rank : Nat) : ℚ := units rank / 2 ^ 1074

theorem strictMono_magnitude : StrictMono magnitude := by
  intro rank rank' h
  unfold magnitude
  have hpos : (0 : ℚ) < 2 ^ 1074 := pow_pos two_pos 1074
  exact div_lt_div_of_pos_right (Nat.cast_lt.mpr (strictMono_units h)) hpos

theorem magnitude_zero : magnitude 0 = 0 := by
  rw [magnitude, units_zero, Nat.cast_zero, zero_div]

theorem magnitude_nonneg (rank : Nat) : 0 ≤ magnitude rank :=
  magnitude_zero ▸ strictMono_magnitude.monotone (Nat.zero_le rank)

theorem Scaled.magnitude_eq {shift m : Nat} (h : Scaled shift m) :
    magnitude (shift * binade + m) = m * 2 ^ ((shift : ℤ) - 1074) := by
  rw [magnitude, h.units_eq, Nat.cast_mul, Nat.cast_pow, Nat.cast_two, zpow_sub₀ two_ne_zero,
    zpow_natCast, mul_div_assoc]
  rfl

theorem magnitude_eq (rank : Nat) :
    magnitude rank = (rank - (rank / binade - 1) * binade : Nat)
      * 2 ^ (((rank / binade - 1 : Nat) : ℤ) - 1074) := by
  obtain ⟨m, hrank, hm, -⟩ := exists_scaled rank
  rw [Nat.sub_eq_of_eq_add' hrank, ← hm.magnitude_eq, ← hrank]

/-! ## Unpacking by the rank -/

section

variable {x : Float}

theorem toNat_unpackExponent_toBits (x : Float) :
    (@unpackExponent Format.binary64 x.toBits.toBitVec).toNat = rank x / binade :=
  toNat_unpackExponent _

theorem toNat_unpackMantissa_toBits (x : Float) :
    (@unpackMantissa Format.binary64 x.toBits.toBitVec).toNat = rank x % binade := by
  rw [toNat_unpackMantissa, rank]
  change x.toBits.toNat % binade = _
  rw [binade_eq, signBit_eq]
  omega

theorem unpackMantissa_eq_zero_iff :
    @unpackMantissa Format.binary64 x.toBits.toBitVec = 0#52 ↔ rank x % binade = 0 := by
  rw [← BitVec.toNat_inj, toNat_unpackMantissa_toBits]
  rfl

theorem unpack_of_rank_eq_zero (h : rank x = 0) :
    x.toModel.unpack = .zero (if isNegative x then .negative else .positive) := by
  have hexponent : @unpackExponent Format.binary64 x.toBits.toBitVec = 0#11 := by
    apply BitVec.eq_of_toNat_eq
    rw [toNat_unpackExponent_toBits, h]
    rfl
  have hmantissa := unpackMantissa_eq_zero_iff.mpr (show rank x % binade = 0 by rw [h]; rfl)
  rw [← ofBitVec_unpackSign]
  change unpack Format.binary64 x.toBits.toBitVec = _
  rw [unpack]
  dsimp only
  rw [hexponent, if_neg (by decide), if_pos rfl, dif_pos hmantissa]

theorem unpack_of_rank_eq_infinityRank (h : rank x = infinityRank) :
    x.toModel.unpack = .infinity (if isNegative x then .negative else .positive) := by
  have hmax := (unpackExponent_eq_max_iff x.toBits.toBitVec).mpr (Nat.le_of_eq h.symm)
  have hmantissa := unpackMantissa_eq_zero_iff.mpr (show rank x % binade = 0 by rw [h]; rfl)
  rw [← ofBitVec_unpackSign]
  change unpack Format.binary64 x.toBits.toBitVec = _
  rw [unpack]
  dsimp only
  rw [if_pos hmax, if_pos hmantissa]

theorem unpack_of_infinityRank_lt (h : infinityRank < rank x) :
    x.toModel.unpack = .notANumber := by
  have hmax := (unpackExponent_eq_max_iff x.toBits.toBitVec).mpr h.le
  have hmantissa : ¬@unpackMantissa Format.binary64 x.toBits.toBitVec = 0#52 := by
    have hlt : rank x < signBit := Nat.mod_lt _ (by decide)
    rw [unpackMantissa_eq_zero_iff]
    rw [infinityRank_eq] at h
    rw [signBit_eq] at hlt
    rw [binade_eq]
    omega
  change unpack Format.binary64 x.toBits.toBitVec = _
  rw [unpack]
  dsimp only
  rw [if_pos hmax, if_neg hmantissa]

theorem unpack_of_rank_lt (hpos : 0 < rank x) (hlt : rank x < infinityRank) :
    ∃ hm, x.toModel.unpack = .finite (if isNegative x then .negative else .positive)
      (rank x - (rank x / binade - 1) * binade) (((rank x / binade - 1 : Nat) : ℤ) - 1074) hm := by
  have hexponent := toNat_unpackExponent_toBits x
  have hmantissa := toNat_unpackMantissa_toBits x
  have hbias : Format.binary64.exponentBias = 1023 := rfl
  have hmax := mt (unpackExponent_eq_max_iff x.toBits.toBitVec).mp (Nat.not_le_of_lt hlt)
  rw [binade_eq] at hexponent hmantissa
  rw [← ofBitVec_unpackSign, binade_eq]
  change ∃ hm, unpack Format.binary64 x.toBits.toBitVec = _
  rw [unpack]
  dsimp only
  rw [if_neg hmax]
  by_cases hmin : @unpackExponent Format.binary64 x.toBits.toBitVec = 0#11
  · -- a subnormal float has its mantissa in full
    rw [hmin] at hexponent
    change 0 = _ at hexponent
    have hne : @unpackMantissa Format.binary64 x.toBits.toBitVec ≠ 0#52 := by
      rw [ne_eq, unpackMantissa_eq_zero_iff, binade_eq]
      omega
    rw [if_pos hmin, dif_neg hne]
    refine ⟨by omega, ?_⟩
    congr 1
    · omega
    · rw [hmin, hbias]
      change (0 : ℤ) - (1023 + 52) + 1 = _
      omega
  · -- the leading bit of a normal one counts for a binade
    have hvalue : (1#1 ++ @unpackMantissa Format.binary64 x.toBits.toBitVec).toNat
        = 2 ^ 52 + rank x % 4503599627370496 := by
      rw [BitVec.toNat_append, ← Nat.shiftLeft_add_eq_or_of_lt (BitVec.isLt _), hmantissa]
      rfl
    have hne : rank x / 4503599627370496 ≠ 0 := by
      intro hzero
      exact hmin (BitVec.eq_of_toNat_eq (hexponent.trans hzero))
    rw [if_neg hmin]
    refine ⟨by omega, ?_⟩
    congr 1
    · omega
    · rw [hexponent, hbias]
      change _ - ((1023 : ℤ) + 52) = _
      omega

/-- A float that is not negative is zero, above zero and finite, or infinity. -/
theorem unpack_cases (hsign : isNegative x = false) (hnumber : rank x ≤ infinityRank) :
    (rank x = 0 ∧ x.toModel.unpack = .zero .positive) ∨
    (0 < rank x ∧ rank x < infinityRank ∧
      ∃ hm, x.toModel.unpack = .finite .positive (rank x - (rank x / binade - 1) * binade)
        (((rank x / binade - 1 : Nat) : ℤ) - 1074) hm) ∨
    (rank x = infinityRank ∧ x.toModel.unpack = .infinity .positive) := by
  rcases Nat.eq_zero_or_pos (rank x) with hzero | hpos
  · have hunpack := unpack_of_rank_eq_zero hzero
    rw [hsign] at hunpack
    exact .inl ⟨hzero, hunpack⟩
  rcases Nat.lt_or_eq_of_le hnumber with hlt | hinfinity
  · have hunpack := unpack_of_rank_lt hpos hlt
    rw [hsign] at hunpack
    exact .inr (.inl ⟨hpos, hlt, hunpack⟩)
  · have hunpack := unpack_of_rank_eq_infinityRank hinfinity
    rw [hsign] at hunpack
    exact .inr (.inr ⟨hinfinity, hunpack⟩)

end

/-! ## Numbers and ranks -/

/-- A finite float stands for the magnitude of its rank or for the negative of it. -/
theorem toRat?_of_rank_lt {x : Float} (h : rank x < infinityRank) :
    toRat? x = some (if isNegative x then -magnitude (rank x) else magnitude (rank x)) := by
  rw [toRat?]
  rcases Nat.eq_zero_or_pos (rank x) with hzero | hpos
  · rw [unpack_of_rank_eq_zero hzero, hzero, magnitude_zero, neg_zero, ite_self]
  · obtain ⟨hm, hunpack⟩ := unpack_of_rank_lt hpos h
    rw [hunpack, magnitude_eq]
    cases isNegative x with
    | false => rfl
    | true =>
      refine congrArg some ?_
      rw [if_pos rfl, if_pos rfl, UnpackedFloat.Sign.apply, Int.cast_neg, Int.cast_natCast, neg_mul]

theorem toRat?_ofRank {n : Nat} (h : n < infinityRank) :
    toRat? (ofRank n) = some (magnitude n) := by
  have hrank : rank (ofRank n) = n := by rw [rank_ofRank, Nat.min_eq_left h.le]
  rw [toRat?_of_rank_lt (hrank.symm ▸ h), isNegative_ofRank, hrank]
  rfl

theorem rank_lt_of_toRat? {x : Float} {r : ℚ} (h : toRat? x = some r) : rank x < infinityRank := by
  rw [← isFinite_iff, ← Bool.not_eq_false, ← toRat?_eq_none_iff, h]
  exact Option.some_ne_none r

section

variable {x : Float} (hsign : isNegative x = false)

include hsign

theorem toNat_toBits_eq_rank : x.toBits.toNat = rank x := by
  rw [toNat_toBits, hsign]
  exact Nat.zero_add _

theorem eq_magnitude_of_toRat? {r : ℚ} (h : toRat? x = some r) : r = magnitude (rank x) := by
  rw [toRat?_of_rank_lt (rank_lt_of_toRat? h), hsign] at h
  exact (Option.some_inj.mp h).symm

end

theorem isInf_iff {x : Float} : x.isInf = true ↔ rank x = infinityRank := by
  change x.toModel.unpack.isInf = true ↔ _
  rcases Nat.lt_or_ge (rank x) infinityRank with hlt | hge
  · refine iff_of_false (fun hinf ↦ ?_) (Nat.ne_of_lt hlt)
    have hfinite : x.toModel.unpack.isFinite = true := (isFinite_iff x).mpr hlt
    cases hunpack : x.toModel.unpack <;> rw [hunpack] at hinf hfinite <;> contradiction
  · rcases Nat.lt_or_eq_of_le hge with hgt | heq
    · rw [unpack_of_infinityRank_lt hgt]
      exact iff_of_false Bool.false_ne_true (Nat.ne_of_gt hgt)
    · rw [unpack_of_rank_eq_infinityRank heq.symm]
      exact iff_of_true rfl heq.symm

/-- Floats that are not negative have the order of their ranks. -/
theorem le_of_rank_le {x y : Float} (hx : isNegative x = false) (hy : isNegative y = false)
    (hle : rank x ≤ rank y) (hnumber : rank y ≤ infinityRank) : x ≤ y := by
  refine decide_eq_true (?_ : x.toModel.unpack.le y.toModel.unpack = true)
  rcases unpack_cases hx (Nat.le_trans hle hnumber) with ⟨-, hx⟩ | ⟨hpos, -, hm, hx⟩ | ⟨hrank, hx⟩
  · -- zero is at most any of them
    rcases unpack_cases hy hnumber with ⟨-, hy⟩ | ⟨-, -, hm, hy⟩ | ⟨-, hy⟩ <;> rw [hx, hy] <;> rfl
  · rcases unpack_cases hy hnumber with ⟨hrank, -⟩ | ⟨-, -, hm', hy⟩ | ⟨-, hy⟩
    · omega
    · -- exponents are compared before mantissas
      rw [hx, hy]
      change (Ordering.then _ _).isLE = true
      have hshift : rank x / binade - 1 ≤ rank y / binade - 1 :=
        Nat.sub_le_sub_right (Nat.div_le_div_right hle) 1
      rw [Ordering.isLE_then_iff_or]
      rcases Nat.lt_or_eq_of_le hshift with hshift | hshift
      · exact .inl (compare_lt_iff_lt.mpr (by omega))
      · rw [hshift]
        refine .inr ⟨compare_eq_iff_eq.mpr rfl, ?_⟩
        rw [Nat.isLE_compare]
        exact Nat.sub_le_sub_right hle _
    · rw [hx, hy]
      rfl
  · rcases unpack_cases hy hnumber with ⟨hzero, -⟩ | ⟨-, hlt, -⟩ | ⟨-, hy⟩
    · rw [infinityRank_eq] at hrank
      omega
    · omega
    · rw [hx, hy]
      rfl

end Calculator.Binary64
