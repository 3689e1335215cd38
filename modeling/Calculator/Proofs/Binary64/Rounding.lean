import Calculator.Binary64
import Mathlib

/-!
# The fractions of a rank

A fraction rounds to the rank whose interval it lies in: the interval reaches half way to the
neighbours, and its ends belong to it just if the rank is even. That the reader computes this rank
is `nearestRank_eq_iff`, which says everything there is to say of the reader.

## Steps

The reader scales the fraction, rounds it to a whole number `m` and counts `shift` binades up, so
the ranks are looked at in the form `shift * binade + m`. There the float is `m` steps of
`2 ^ shift` units (`Scaled`). A rank at the border of two binades has two such forms, since
`2 * binade` steps are as many units as `binade` steps of twice the width; so a carry in the
rounding needs no case of its own.

## Half way down

The neighbour below is one step away, but for the first rank of a binade it is nearer, half a step.
There the scaling itself has seen to it that the fraction is not below the float.
-/

namespace Calculator.Binary64

/-! ## Units -/

/-- `Scaled shift m` says that around the rank `shift * binade + m` a step is `2 ^ shift` units. -/
structure Scaled (shift m : Nat) : Prop where
  le : m ≤ 2 * binade
  eq_zero_or_le : shift = 0 ∨ binade ≤ m

theorem Scaled.units_eq {shift m : Nat} (h : Scaled shift m) :
    units (shift * binade + m) = m * 2 ^ shift := by
  obtain ⟨hle, hnormal⟩ := h
  rw [binade_eq] at hle hnormal
  rw [units, binade_eq, Nat.shiftLeft_eq]
  by_cases hsmall : m < 4503599627370496
  · obtain rfl : shift = 0 := by omega
    rw [if_pos (by omega)]
    omega
  rw [if_neg (by omega)]
  rcases Nat.lt_or_ge m 9007199254740992 with hlt | hge
  · congr 2 <;> omega
  · -- the border to the next binade, in the form that belongs to the lower one
    obtain rfl : m = 9007199254740992 := by omega
    have hquotient : (shift * 4503599627370496 + 9007199254740992) / 4503599627370496 - 1
        = shift + 1 := by omega
    have hrest : (shift * 4503599627370496 + 9007199254740992) % 4503599627370496 = 0 := by omega
    rw [hquotient, hrest, Nat.pow_succ]
    omega

theorem units_zero : units 0 = 0 := if_pos (by decide)

/-- Every rank stands on the steps of a binade, with a step above it. -/
theorem exists_scaled (rank : Nat) :
    ∃ m, rank = (rank / binade - 1) * binade + m ∧ Scaled (rank / binade - 1) m ∧
      Scaled (rank / binade - 1) (m + 1) := by
  refine ⟨rank - (rank / binade - 1) * binade, ?_, ⟨?_, ?_⟩, ⟨?_, ?_⟩⟩ <;>
    rw [binade_eq] <;> omega

theorem strictMono_units : StrictMono units := by
  refine strictMono_nat_of_lt_succ fun rank ↦ ?_
  obtain ⟨m, hrank, hm, hsucc⟩ := exists_scaled rank
  generalize rank / binade - 1 = shift at hrank hm hsucc
  rw [hrank, hm.units_eq, Nat.add_assoc, hsucc.units_eq]
  exact Nat.mul_lt_mul_of_pos_right (Nat.lt_succ_self m) (Nat.two_pow_pos shift)

/-! ## Intervals -/

/-- `Within rank low x high` says that `x` lies between two bounds, which count as inside just if
the rank is even. -/
def Within (rank low x high : Nat) : Prop :=
  if rank % 2 = 0 then low ≤ x ∧ x ≤ high else low < x ∧ x < high

/-- The numerator, in units, of twice a fraction lies in the interval of a rank: between the
neighbours of the rank, each half way. -/
def RoundsTo (rank num den : Nat) : Prop :=
  Within rank ((units (rank - 1) + units rank) * den) (2 * (num <<< 1074))
    ((units rank + units (rank + 1)) * den)

section

variable {rank low low' x high high' : Nat}

theorem Within.mono (h : Within rank low x high) (hlow : low' ≤ low) (hhigh : high ≤ high') :
    Within rank low' x high' := by
  unfold Within at h ⊢
  split_ifs at h ⊢ <;> omega

/-- A bound that is not met may be moved up to the number. -/
theorem Within.of_lt (h : Within rank low x high) (hlow : low' < x) : Within rank low' x high := by
  unfold Within at h ⊢
  split_ifs at h ⊢ <;> omega

theorem within_mul_iff {k : Nat} (hk : 0 < k) :
    Within rank (low * k) (x * k) (high * k) ↔ Within rank low x high := by
  simp only [Within, Nat.mul_le_mul_right_iff hk, Nat.mul_lt_mul_right hk]

theorem Within.disjoint {rank' x' : Nat} (h : Within rank low x high)
    (h' : Within rank' low' x' high') (hx : x' ≤ x) (hle : high ≤ low')
    (hsucc : high = low' → rank' = rank + 1) : False := by
  unfold Within at h h'
  split at h <;> split at h' <;> omega

end

/-! ## Rounding to a whole number -/

theorem div_le_roundHalfEven (num den : Nat) : num / den ≤ roundHalfEven num den := by
  unfold roundHalfEven
  dsimp only
  split
  · exact Nat.le_refl _
  · split <;> exact Nat.le_add_right _ _

theorem roundHalfEven_le_succ (num den : Nat) : roundHalfEven num den ≤ num / den + 1 := by
  unfold roundHalfEven
  dsimp only
  split
  · exact Nat.le_succ _
  · split <;> omega

/-- The fraction is at most a half away from the whole number, and a half only from an even one. -/
theorem within_roundHalfEven (num : Nat) {den : Nat} (hden : 0 < den) :
    Within (roundHalfEven num den) ((2 * roundHalfEven num den - 1) * den) (2 * num)
      ((2 * roundHalfEven num den + 1) * den) := by
  have hnum := Nat.div_add_mod num den
  have hrest := Nat.mod_lt num hden
  -- an odd quotient is not zero
  have hodd (h : ¬num / den % 2 = 0) : den ≤ den * (num / den) :=
    Nat.le_mul_of_pos_right den (Nat.pos_of_ne_zero fun hzero ↦ h (by rw [hzero]))
  have hlow (k : Nat) : (2 * k - 1) * den = 2 * (den * k) - den := by
    rw [Nat.sub_mul, Nat.one_mul, Nat.mul_assoc, Nat.mul_comm k]
  have hhigh (k : Nat) : (2 * k + 1) * den = 2 * (den * k) + den := by
    rw [Nat.add_mul, Nat.one_mul, Nat.mul_assoc, Nat.mul_comm k]
  rw [hlow, hhigh]
  unfold roundHalfEven Within
  dsimp only
  split
  · split
    · omega
    · next h =>
      have := hodd h
      omega
  · split
    · rw [Nat.mul_succ]
      split <;> omega
    · rcases Nat.mod_two_eq_zero_or_one (num / den) with heven | hodd
      · rw [heven, Nat.add_zero]
        split <;> omega
      · rw [hodd, Nat.mul_succ]
        split <;> omega

/-! ## The nearest rank -/

theorem Scaled.le_units_succ {shift m : Nat} (h : Scaled shift m) :
    (m + 1) * 2 ^ shift ≤ units (shift * binade + m + 1) := by
  rcases Nat.lt_or_ge m (2 * binade) with hlt | hge
  · have hsucc : Scaled shift (m + 1) :=
      ⟨hlt, h.eq_zero_or_le.imp_right (Nat.le_trans · (Nat.le_succ m))⟩
    rw [Nat.add_assoc, hsucc.units_eq]
  · obtain rfl : m = 2 * binade := Nat.le_antisymm h.le hge
    have hnext : Scaled (shift + 1) (binade + 1) := ⟨by decide, .inr (Nat.le_succ _)⟩
    have hrank : shift * binade + 2 * binade + 1 = (shift + 1) * binade + (binade + 1) := by
      rw [Nat.add_mul]
      omega
    rw [hrank, hnext.units_eq, Nat.pow_succ', ← Nat.mul_assoc]
    exact Nat.mul_le_mul_right _ (by omega)

/-- The neighbour below is a step away, unless the rank is the first of a binade. -/
theorem Scaled.units_pred_le {shift m : Nat} (h : Scaled shift m) (hne : shift = 0 ∨ m ≠ binade) :
    units (shift * binade + m - 1) ≤ (m - 1) * 2 ^ shift := by
  rcases Nat.eq_zero_or_pos m with rfl | hpos
  · obtain rfl : shift = 0 := h.eq_zero_or_le.resolve_right (by decide)
    exact Nat.zero_le _
  · have hpred : Scaled shift (m - 1) := by
      obtain ⟨hle, hnormal⟩ := h
      exact ⟨by omega, by omega⟩
    rw [Nat.add_sub_assoc hpos, hpred.units_eq]

theorem Scaled.le_units_add_succ {shift m : Nat} (h : Scaled shift m) :
    (2 * m + 1) * 2 ^ shift
      ≤ units (shift * binade + m) + units (shift * binade + m + 1) := by
  calc (2 * m + 1) * 2 ^ shift = m * 2 ^ shift + (m + 1) * 2 ^ shift := by
        rw [← Nat.add_mul]
        congr 1
        omega
    _ ≤ _ := Nat.add_le_add (Nat.le_of_eq h.units_eq.symm) h.le_units_succ

theorem Scaled.units_pred_add_le {shift m : Nat} (h : Scaled shift m)
    (hne : shift = 0 ∨ m ≠ binade) :
    units (shift * binade + m - 1) + units (shift * binade + m) ≤ (2 * m - 1) * 2 ^ shift := by
  calc _ ≤ (m - 1) * 2 ^ shift + m * 2 ^ shift :=
        Nat.add_le_add (h.units_pred_le hne) (Nat.le_of_eq h.units_eq)
    _ = (2 * m - 1) * 2 ^ shift := by
        -- for `m = 0` both factors are zero
        rw [← Nat.add_mul]
        congr 1
        omega

/-- A number rounded to a whole number of steps is rounded to the rank of so many steps. -/
theorem Scaled.within {shift m den x : Nat} (h : Scaled shift m)
    (hx : Within m ((2 * m - 1) * (den * 2 ^ shift)) (2 * x) ((2 * m + 1) * (den * 2 ^ shift)))
    (hge : shift ≠ 0 → binade * (den * 2 ^ shift) ≤ x) (hden : 0 < den) :
    Within (shift * binade + m)
      ((units (shift * binade + m - 1) + units (shift * binade + m)) * den) (2 * x)
      ((units (shift * binade + m) + units (shift * binade + m + 1)) * den) := by
  have hparity : (shift * binade + m) % 2 = m % 2 := by rw [binade_eq]; omega
  have hsteps (k : Nat) : k * (den * 2 ^ shift) = k * 2 ^ shift * den := by
    rw [Nat.mul_comm den, Nat.mul_assoc]
  rw [hsteps, hsteps] at hx
  have hhigh := Nat.mul_le_mul_right den h.le_units_add_succ
  rw [Within, hparity, ← Within]
  by_cases hfirst : shift ≠ 0 ∧ m = binade
  · -- the neighbour below is nearer than a step, but the number is not below the float
    obtain ⟨hshift, rfl⟩ := hfirst
    refine (hx.mono (Nat.le_refl _) hhigh).of_lt ?_
    have hlt : units (shift * binade + binade - 1) < binade * 2 ^ shift := by
      rw [← h.units_eq]
      exact strictMono_units (Nat.sub_lt (by rw [binade_eq]; omega) Nat.one_pos)
    calc (units (shift * binade + binade - 1) + units (shift * binade + binade)) * den
        < (binade * 2 ^ shift + binade * 2 ^ shift) * den := by
          rw [h.units_eq]
          exact Nat.mul_lt_mul_of_pos_right (Nat.add_lt_add_right hlt _) hden
      _ = 2 * (binade * 2 ^ shift * den) := by rw [← Nat.two_mul, Nat.mul_assoc]
      _ ≤ 2 * x := Nat.mul_le_mul_left 2 (hsteps binade ▸ hge hshift)
  · exact hx.mono (Nat.mul_le_mul_right den (h.units_pred_add_le (by omega))) hhigh

theorem roundsTo_nearestRank (num : Nat) {den : Nat} (hden : 0 < den) :
    RoundsTo (nearestRank num den) num den := by
  rw [RoundsTo, nearestRank]
  generalize num <<< 1074 = x
  generalize hshift : (x / den).log2 - 52 = shift
  rw [Nat.shiftLeft_eq]
  have hD : 0 < den * 2 ^ shift := Nat.mul_pos hden (Nat.two_pow_pos shift)
  have hdiv : x / (den * 2 ^ shift) = x / den / 2 ^ shift := (Nat.div_div_eq_div_mul ..).symm
  have hlt : x / (den * 2 ^ shift) < 2 * binade := by
    rw [hdiv, Nat.div_lt_iff_lt_mul (Nat.two_pow_pos shift)]
    calc x / den < 2 ^ ((x / den).log2 + 1) := Nat.lt_log2_self
      _ ≤ 2 ^ (53 + shift) := Nat.pow_le_pow_right Nat.two_pos (by omega)
      _ = 2 * binade * 2 ^ shift := Nat.pow_add 2 53 shift
  have hge : shift ≠ 0 → binade ≤ x / (den * 2 ^ shift) := by
    intro hne
    have hlog : (x / den).log2 = 52 + shift := by omega
    have hpos : x / den ≠ 0 := by
      intro hzero
      rw [hzero, Nat.log2_zero] at hlog
      omega
    rw [hdiv, Nat.le_div_iff_mul_le (Nat.two_pow_pos shift)]
    calc binade * 2 ^ shift = 2 ^ (52 + shift) := (Nat.pow_add 2 52 shift).symm
      _ = 2 ^ (x / den).log2 := by rw [hlog]
      _ ≤ x / den := Nat.log2_self_le hpos
  have hscaled : Scaled shift (roundHalfEven x (den * 2 ^ shift)) := by
    refine ⟨Nat.le_trans (roundHalfEven_le_succ _ _) hlt, ?_⟩
    rcases Nat.eq_zero_or_pos shift with hzero | hpos
    · exact .inl hzero
    · exact .inr (Nat.le_trans (hge (by omega)) (div_le_roundHalfEven _ _))
  exact hscaled.within (within_roundHalfEven x hD)
    (fun hne ↦ (Nat.le_div_iff_mul_le hD).mp (hge hne)) hden

theorem roundsTo_mul_iff {rank num den k : Nat} (hk : 0 < k) :
    RoundsTo rank (num * k) (den * k) ↔ RoundsTo rank num den := by
  have hnum : 2 * ((num * k) <<< 1074) = 2 * (num <<< 1074) * k := by
    rw [Nat.shiftLeft_eq, Nat.shiftLeft_eq, Nat.mul_right_comm num, Nat.mul_assoc 2]
  rw [RoundsTo, hnum, ← Nat.mul_assoc _ den, ← Nat.mul_assoc _ den, within_mul_iff hk, ← RoundsTo]

theorem RoundsTo.le {rank rank' num den num' den' : Nat} (h : RoundsTo rank num den)
    (h' : RoundsTo rank' num' den') (hden : 0 < den) (hden' : 0 < den')
    (hle : num * den' ≤ num' * den) : rank ≤ rank' := by
  rw [← roundsTo_mul_iff hden'] at h
  rw [← roundsTo_mul_iff hden, Nat.mul_comm den'] at h'
  refine Nat.le_of_not_lt fun hlt ↦ ?_
  have hpred : units rank' ≤ units (rank - 1) :=
    strictMono_units.monotone (Nat.le_sub_one_of_lt hlt)
  have hsucc : units (rank' + 1) ≤ units rank := strictMono_units.monotone hlt
  have hnum : 2 * ((num * den') <<< 1074) ≤ 2 * ((num' * den) <<< 1074) := by
    generalize 1074 = places
    rw [Nat.shiftLeft_eq, Nat.shiftLeft_eq]
    exact Nat.mul_le_mul_left 2 (Nat.mul_le_mul_right _ hle)
  refine Within.disjoint h' h hnum (Nat.mul_le_mul_right _ (Nat.add_le_add hpred hsucc))
    fun heq ↦ ?_
  have hsum := Nat.eq_of_mul_eq_mul_right (Nat.mul_pos hden hden') heq
  exact (strictMono_units.injective (Nat.le_antisymm hsucc (by omega))).symm

theorem nearestRank_le {num den num' den' : Nat} (hden : 0 < den) (hden' : 0 < den')
    (hle : num * den' ≤ num' * den) : nearestRank num den ≤ nearestRank num' den' :=
  (roundsTo_nearestRank num hden).le (roundsTo_nearestRank num' hden') hden hden' hle

/-- **Reading rounds to the nearest.** The rank that is read is the one whose interval the fraction
lies in. -/
theorem nearestRank_eq_iff {rank num den : Nat} (hden : 0 < den) :
    nearestRank num den = rank ↔ RoundsTo rank num den := by
  have hnearest := roundsTo_nearestRank num hden
  constructor
  · rintro rfl
    exact hnearest
  · intro h
    exact Nat.le_antisymm (hnearest.le h hden hden (Nat.le_refl _))
      (h.le hnearest hden hden (Nat.le_refl _))

end Calculator.Binary64
