import Calculator.Proofs.Binary64.Values
import Mathlib

/-!
# Nearest floats

The float that is taken for a fraction is the nearest one among all finite floats, and of two that
are equally near the one with the even bit pattern. `IsNearest` says so of the numbers that floats
stand for, without ranks; that the reader meets it is `isNearest_nearest`. There is but one float
that does (`IsNearest.unique`).

## From the interval to the distance

The fraction lies in the interval of its rank (`RoundsTo`), which as an interval of rational numbers
goes half way to both neighbours (`Around`). All the other floats are at the neighbours or behind
them, the negative ones and negative zero too, so none of them is nearer, and one is as near only if
the fraction is at an end of the interval.

## Where a range begins

A rank is reached from half way below it on, if it is even. The rank of infinity is even, and so is
that of the least normal float; so the numbers that round to infinity and those that round to a
normal float are told from the others by one comparison each (`Around.le_rank_iff`).
-/

namespace Calculator.Binary64

/-- `IsNearest q x` says that a float is what a number that is not negative is rounded to. -/
structure IsNearest (q : ℚ) (x : Float) : Prop where
  /-- The sign bit is not set, not even on zero. -/
  isNegative_eq : isNegative x = false
  /-- Infinity is for the numbers from half way between the largest finite float and `2 ^ 1024`
  on. -/
  isInf_iff : x.isInf = true ↔ 2 ^ 1024 - 2 ^ 970 ≤ q
  /-- Zero and the subnormal floats are for the numbers up to half a step below the least normal
  one, `2 ^ (-1022)`. -/
  lt_binade_iff : x.toBits.toNat < 2 ^ 52 ↔ q < 2 ^ (-1022 : ℤ) - 2 ^ (-1075 : ℤ)
  /-- A number that does not go to infinity goes to a finite float that none is nearer than, and
  that is even if another one is as near. -/
  nearest : q < 2 ^ 1024 - 2 ^ 970 → ∃ r, toRat? x = some r ∧ ∀ y s, toRat? y = some s →
    |r - q| ≤ |s - q| ∧ (|s - q| = |r - q| → s ≠ r → x.toBits.toNat % 2 = 0)

/-! ## Distances -/

section

variable {a b q : ℚ}

theorem abs_sub_le_abs_sub_iff : |a - q| ≤ |b - q| ↔ 0 ≤ (b - a) * (a + b - 2 * q) := by
  have hsquares : (b - q) ^ 2 - (a - q) ^ 2 = (b - a) * (a + b - 2 * q) := by ring
  rw [← sq_le_sq, ← sub_nonneg, hsquares]

theorem add_eq_two_mul_of_abs_sub_eq (h : |b - q| = |a - q|) (hne : b ≠ a) : a + b = 2 * q := by
  rcases abs_eq_abs.mp h with heq | heq
  · exact absurd (sub_left_inj.mp heq) hne
  · linarith

end

/-! ## The interval of a rank -/

/-- `Around rank q` says that a number lies in the interval of a rank: at most half way to the
neighbours of its magnitude, and half way just if the rank is even. -/
structure Around (rank : Nat) (q : ℚ) : Prop where
  low : magnitude (rank - 1) + magnitude rank ≤ 2 * q
  high : 2 * q ≤ magnitude rank + magnitude (rank + 1)
  even : 2 * q = magnitude (rank - 1) + magnitude rank ∨
    2 * q = magnitude rank + magnitude (rank + 1) → rank % 2 = 0

/-- Magnitudes and a fraction can be counted in the same parts of one. -/
theorem exists_part (num : Nat) {den : Nat} (hden : 0 < den) :
    ∃ part : ℚ, 0 < part ∧ (2 : ℚ) * (num / den) = (2 * (num <<< 1074) : ℕ) * part ∧
      ∀ rank rank', magnitude rank + magnitude rank'
        = ((units rank + units rank') * den : ℕ) * part := by
  unfold magnitude
  generalize 1074 = places
  have hden : (0 : ℚ) < den := Nat.cast_pos.mpr hden
  refine ⟨1 / (den * 2 ^ places), by positivity, ?_, fun rank rank' ↦ ?_⟩
  · rw [Nat.shiftLeft_eq]
    push_cast
    field_simp
  · push_cast
    field_simp

theorem RoundsTo.around {rank num den : Nat} (h : RoundsTo rank num den) (hden : 0 < den) :
    Around rank (num / den) := by
  obtain ⟨part, hpart, hnum, hsum⟩ := exists_part num hden
  have hle {m n : ℕ} : (m : ℚ) * part ≤ n * part ↔ m ≤ n :=
    (mul_le_mul_iff_left₀ hpart).trans Nat.cast_le
  have heq {m n : ℕ} : (m : ℚ) * part = n * part ↔ m = n :=
    (mul_left_inj' hpart.ne').trans Nat.cast_inj
  unfold RoundsTo Within at h
  generalize num <<< 1074 = scaled at h hnum
  refine ⟨?_, ?_, ?_⟩
  · rw [hnum, hsum, hle]
    split at h <;> omega
  · rw [hnum, hsum, hle]
    split at h <;> omega
  · rw [hnum, hsum, hsum, heq, heq]
    split at h <;> omega

namespace Around

variable {rank bound : Nat} {q s : ℚ}

/-- Half way below an even rank is where the numbers begin that do not go to a lower one. -/
theorem le_rank_iff (h : Around rank q) (heven : bound % 2 = 0) :
    bound ≤ rank ↔ magnitude (bound - 1) + magnitude bound ≤ 2 * q := by
  have hmono := strictMono_magnitude.monotone
  constructor
  · intro hle
    exact (add_le_add (hmono (Nat.sub_le_sub_right hle 1)) (hmono hle)).trans h.low
  · intro hle
    refine Nat.le_of_not_lt fun hlt ↦ ?_
    have hpred := hmono (Nat.le_sub_one_of_lt hlt)
    have hsucc := hmono (Nat.succ_le_of_lt hlt)
    -- the number is at the end of the interval, and the rank is even as well
    have hend : 2 * q = magnitude rank + magnitude (rank + 1) :=
      h.high.antisymm ((add_le_add hpred hsucc).trans hle)
    have hbound : rank = bound - 1 :=
      strictMono_magnitude.injective (hpred.antisymm (by linarith))
    have hparity := h.even (.inr hend)
    omega

theorem nearest (h : Around rank q)
    (hs : s ≤ magnitude (rank - 1) ∨ s = magnitude rank ∨ magnitude (rank + 1) ≤ s) :
    |magnitude rank - q| ≤ |s - q| ∧
      (|s - q| = |magnitude rank - q| → s ≠ magnitude rank → rank % 2 = 0) := by
  have hpred := strictMono_magnitude.monotone (Nat.sub_le rank 1)
  have hsucc := strictMono_magnitude.monotone (Nat.le_succ rank)
  have hlow := h.low
  have hhigh := h.high
  rcases hs with hbelow | rfl | habove
  · refine ⟨abs_sub_le_abs_sub_iff.mpr (mul_nonneg_of_nonpos_of_nonpos ?_ ?_), fun heq hne ↦ ?_⟩
    · linarith
    · linarith
    · have hsum := add_eq_two_mul_of_abs_sub_eq heq hne
      exact h.even (.inl (by linarith))
  · exact ⟨le_rfl, fun _ hne ↦ absurd rfl hne⟩
  · refine ⟨abs_sub_le_abs_sub_iff.mpr (mul_nonneg ?_ ?_), fun heq hne ↦ ?_⟩
    · linarith
    · linarith
    · have hsum := add_eq_two_mul_of_abs_sub_eq heq hne
      exact h.even (.inr (by linarith))

end Around

/-- The numbers that floats stand for leave out all that is between neighbours. -/
theorem le_pred_or_eq_or_succ_le {y : Float} {s : ℚ} (h : toRat? y = some s) (rank : Nat) :
    s ≤ magnitude (rank - 1) ∨ s = magnitude rank ∨ magnitude (rank + 1) ≤ s := by
  have hvalue := (toRat?_of_rank_lt (rank_lt_of_toRat? h)).symm.trans h
  obtain rfl := Option.some_inj.mp hvalue
  have hmono := strictMono_magnitude.monotone
  split
  · exact .inl ((neg_nonpos.mpr (magnitude_nonneg _)).trans (magnitude_nonneg _))
  · rcases Nat.lt_trichotomy (Binary64.rank y) rank with hlt | heq | hgt
    · exact .inl (hmono (Nat.le_sub_one_of_lt hlt))
    · exact .inr (.inl (congrArg magnitude heq))
    · exact .inr (.inr (hmono (Nat.succ_le_of_lt hgt)))

/-! ## Where infinity and the normal floats begin -/

theorem Scaled.magnitude_add_succ {shift m : Nat} (h : Scaled shift m)
    (hsucc : Scaled shift (m + 1)) :
    magnitude (shift * binade + m) + magnitude (shift * binade + m + 1)
      = (2 * m + 1) * 2 ^ ((shift : ℤ) - 1074) := by
  rw [Nat.add_assoc, h.magnitude_eq, hsucc.magnitude_eq, ← add_mul, Nat.cast_add, Nat.cast_one,
    ← add_assoc, ← two_mul]

theorem magnitude_add_infinityRank :
    magnitude (infinityRank - 1) + magnitude infinityRank = 2 * (2 ^ 1024 - 2 ^ 970) := by
  have hpred : Scaled 2045 (2 ^ 53 - 1) := ⟨by decide, .inr (by decide)⟩
  refine (hpred.magnitude_add_succ ⟨by decide, .inr (by decide)⟩).trans ?_
  have hstep : ((2045 : ℕ) : ℤ) - 1074 = ((970 : ℕ) : ℤ) + 1 := rfl
  have hpow : (2 : ℚ) ^ 1024 = 2 ^ 54 * 2 ^ 970 := pow_add 2 54 970
  rw [hstep, zpow_add_one₀ two_ne_zero, zpow_natCast, hpow]
  generalize (2 : ℚ) ^ 970 = step
  norm_num
  ring

theorem magnitude_add_binade :
    magnitude (binade - 1) + magnitude binade = 2 * (2 ^ (-1022 : ℤ) - 2 ^ (-1075 : ℤ)) := by
  have hpred : Scaled 0 (2 ^ 52 - 1) := ⟨by decide, .inl rfl⟩
  refine (hpred.magnitude_add_succ ⟨by decide, .inl rfl⟩).trans ?_
  have hstep : ((0 : ℕ) : ℤ) - 1074 = -1075 + 1 := rfl
  have hpow : (2 : ℚ) ^ (-1022 : ℤ) = 2 ^ (53 : ℤ) * 2 ^ (-1075 : ℤ) :=
    zpow_add₀ two_ne_zero 53 (-1075)
  rw [hstep, zpow_add_one₀ two_ne_zero, hpow]
  generalize (2 : ℚ) ^ (-1075 : ℤ) = step
  norm_num
  ring

/-! ## The reader -/

/-- **The reader takes the nearest float.** -/
theorem isNearest_nearest (num : Nat) {den : Nat} (hden : 0 < den) :
    IsNearest (num / den) (nearest num den) := by
  have haround := (roundsTo_nearestRank num hden).around hden
  rw [nearest]
  have hsign := isNegative_ofRank (nearestRank num den)
  have hrank := rank_ofRank (nearestRank num den)
  have hbits := (toNat_toBits_eq_rank hsign).trans hrank
  have hinfinity := haround.le_rank_iff (show infinityRank % 2 = 0 by decide)
  have hnormal := haround.le_rank_iff (show binade % 2 = 0 by decide)
  rw [magnitude_add_infinityRank, mul_le_mul_iff_right₀ two_pos] at hinfinity
  rw [magnitude_add_binade, mul_le_mul_iff_right₀ two_pos] at hnormal
  refine ⟨hsign, ?_, ?_, fun hlt ↦ ?_⟩
  · rw [isInf_iff, ← hinfinity, hrank]
    exact min_eq_right_iff
  · rw [hbits, ← not_le, ← not_le, ← hnormal, le_min_iff]
    exact not_congr (and_iff_left (show binade ≤ infinityRank by decide))
  · have hfinite : nearestRank num den < infinityRank :=
      Nat.lt_of_not_le (mt hinfinity.mp hlt.not_ge)
    refine ⟨magnitude (nearestRank num den), toRat?_ofRank hfinite, fun y s hs ↦ ?_⟩
    rw [hbits, Nat.min_eq_left hfinite.le]
    exact haround.nearest (le_pred_or_eq_or_succ_le hs _)

namespace IsNearest

variable {q : ℚ} {x y : Float}

theorem rank_le_rank (hx : IsNearest q x) (hy : IsNearest q y) : rank y ≤ rank x := by
  rcases le_or_gt (2 ^ 1024 - 2 ^ 970) q with hge | hlt
  · rw [Binary64.isInf_iff.mp (hx.isInf_iff.mpr hge), Binary64.isInf_iff.mp (hy.isInf_iff.mpr hge)]
  obtain ⟨r, hr, hnear⟩ := hx.nearest hlt
  obtain ⟨s, hs, hnear'⟩ := hy.nearest hlt
  have hvalue := eq_magnitude_of_toRat? hx.isNegative_eq hr
  have hvalue' := eq_magnitude_of_toRat? hy.isNegative_eq hs
  refine Nat.le_of_not_lt fun hrank ↦ ?_
  have hne : s ≠ r := by
    rw [hvalue, hvalue']
    exact (strictMono_magnitude hrank).ne'
  have heq : |s - q| = |r - q| := le_antisymm (hnear' x r hr).1 (hnear y s hs).1
  have hsum := add_eq_two_mul_of_abs_sub_eq heq hne
  -- both are as near, so both are even, and a float between them is nearer
  have heven := (hnear y s hs).2 heq hne
  have heven' := (hnear' x r hr).2 heq.symm hne.symm
  rw [toNat_toBits_eq_rank hx.isNegative_eq] at heven
  rw [toNat_toBits_eq_rank hy.isNegative_eq] at heven'
  have hfinite := rank_lt_of_toRat? hs
  have hbetween := toRat?_ofRank (show rank x + 1 < infinityRank by omega)
  have habove : r < magnitude (rank x + 1) := hvalue ▸ strictMono_magnitude (Nat.lt_succ_self _)
  have hbelow : magnitude (rank x + 1) < s := hvalue' ▸ strictMono_magnitude (by omega)
  have hnearer := abs_sub_le_abs_sub_iff.mp (hnear _ _ hbetween).1
  exact hnearer.not_gt (mul_neg_of_pos_of_neg (by linarith) (by linarith))

/-- A number is rounded to one float. -/
theorem unique (hx : IsNearest q x) (hy : IsNearest q y) : x = y :=
  eq_of_rank_eq (Nat.le_antisymm (hy.rank_le_rank hx) (hx.rank_le_rank hy))
    (hx.isNegative_eq.trans hy.isNegative_eq.symm)

end IsNearest

end Calculator.Binary64
