import Calculator.Binary64
import Mathlib

/-!
# The fields of a float

A bit pattern is a sign bit and a rank, and the rank is an exponent field and a mantissa field. What
the arithmetic of floats does with a number is said of a sign, a mantissa and an exponent instead,
which it takes out of the fields and puts back. Here that way is gone once, for the two things that
are asked of it: which floats are finite, and what the negative of a float is. A float is finite if
its rank is below that of infinity, and negation turns the sign bit of a number around and leaves
its rank.
-/

namespace Calculator.Binary64

open Float.Model (Format)
open Float.Model.UnpackedFloat

/-! ## The fields of a bit pattern -/

section

variable (bits : BitVec Format.binary64.numBits)

theorem toNat_unpackMantissa : (unpackMantissa bits).toNat = bits.toNat % binade := by
  simp [unpackMantissa, binade_eq]

theorem toNat_unpackExponent :
    (unpackExponent bits).toNat = bits.toNat % signBit / binade := by
  simp [unpackExponent, binade_eq, signBit_eq, Nat.shiftRight_eq_div_pow]
  omega

/-- The greatest exponent is that of infinity and of what is no number. -/
theorem unpackExponent_eq_max_iff :
    unpackExponent bits = -1#_ ↔ infinityRank ≤ bits.toNat % signBit := by
  have hlt : bits.toNat % signBit < signBit := Nat.mod_lt _ (by decide)
  rw [signBit_eq] at hlt
  rw [← BitVec.toNat_inj, toNat_unpackExponent, binade_eq, infinityRank_eq, signBit_eq]
  change _ = 2047 ↔ _
  omega

theorem unpackSign_eq_zero_iff : unpackSign bits = 0#1 ↔ bits.toNat < signBit := by
  have hlt : bits.toNat < 2 ^ 64 := bits.isLt
  have hsign : (unpackSign bits).toNat = bits.toNat / 9223372036854775808 := by
    simp [unpackSign, Nat.shiftRight_eq_div_pow]
    omega
  rw [← BitVec.toNat_inj, hsign, signBit_eq]
  change _ = 0 ↔ _
  omega

end

theorem toNat_packComponents (sign : Sign) (exponent : BitVec 11) (mantissa : BitVec 52) :
    (packComponents Format.binary64 sign exponent mantissa).toNat
      = sign.toBitVec.toNat * signBit + (exponent.toNat * binade + mantissa.toNat) := by
  rw [packComponents, BitVec.toNat_append, BitVec.toNat_append,
    ← Nat.shiftLeft_add_eq_or_of_lt mantissa.isLt, ← Nat.shiftLeft_add_eq_or_of_lt exponent.isLt,
    Nat.shiftLeft_eq, Nat.shiftLeft_eq, Nat.add_mul, signBit_eq, binade_eq]
  omega

/-! ## Numbers put together -/

/-- A normal number is put together from the fields that it was taken apart into. -/
theorem pack_normal (sign : Sign) {exponent : BitVec 11} (mantissa : BitVec 52)
    (hexponent : exponent.toNat + 1 < 2 ^ 11) (hpos : 0 < (1#1 ++ mantissa).toNat) :
    pack Format.binary64 (.finite sign (1#1 ++ mantissa).toNat
        (exponent.toNat - (Format.binary64.exponentBias + 52)) hpos)
      = packComponents Format.binary64 sign exponent mantissa := by
  have hlt := mantissa.isLt
  have hvalue : (1#1 ++ mantissa).toNat = 2 ^ 52 + mantissa.toNat := by
    rw [BitVec.toNat_append, ← Nat.shiftLeft_add_eq_or_of_lt hlt]
    rfl
  have hbiased : ((exponent.toNat : Int) - (Format.binary64.exponentBias + 52)
      + Format.binary64.exponentBias + (52 : Nat)).toNat = exponent.toNat := by omega
  have hlog : (2 ^ 52 + mantissa.toNat).log2 + 1 = Format.binary64.mantissaBits :=
    congrArg (· + 1) ((Nat.log2_eq_iff (by omega)).mpr ⟨by omega, by omega⟩)
  have hmantissa : BitVec.ofNat 52 (2 ^ 52 + mantissa.toNat) = mantissa := by
    apply BitVec.eq_of_toNat_eq
    rw [BitVec.toNat_ofNat]
    omega
  rw [pack]
  simp only [hvalue]
  rw [hbiased, if_neg (by omega), if_pos hlog, hmantissa, BitVec.ofNat_toNat, BitVec.setWidth_eq]

theorem pack_subnormal (sign : Sign) (mantissa : BitVec 52) (hpos : 0 < mantissa.toNat) :
    pack Format.binary64 (.finite sign mantissa.toNat
        (((0#11).toNat : Int) - (Format.binary64.exponentBias + 52) + 1) hpos)
      = packComponents Format.binary64 sign 0#11 mantissa := by
  have hlog : ¬mantissa.toNat.log2 + 1 = Format.binary64.mantissaBits := by
    have hlt := (Nat.log2_lt (Nat.ne_of_gt hpos)).mpr mantissa.isLt
    have hbits : Format.binary64.mantissaBits = 53 := rfl
    omega
  rw [pack]
  dsimp only
  rw [if_neg (by decide), if_neg hlog, BitVec.ofNat_toNat, BitVec.setWidth_eq]

/-- The negative of a number has the other sign, the same exponent and the same mantissa. -/
theorem pack_neg_unpack {bits : BitVec Format.binary64.numBits}
    (h : bits.toNat % signBit ≤ infinityRank) :
    pack Format.binary64 (unpack Format.binary64 bits).neg
      = packComponents Format.binary64 (-Sign.ofBitVec (unpackSign bits)) (unpackExponent bits)
        (unpackMantissa bits) := by
  rw [unpack]
  dsimp only
  split
  · next hmax =>
    -- infinity is the one number with the greatest exponent
    have hzero : unpackMantissa bits = 0#52 := by
      have hrank := Nat.le_antisymm h ((unpackExponent_eq_max_iff bits).mp hmax)
      apply BitVec.eq_of_toNat_eq
      rw [toNat_unpackMantissa, binade_eq]
      rw [signBit_eq, infinityRank_eq] at hrank
      change _ = 0
      omega
    rw [if_pos hzero, hmax, hzero]
    rfl
  next hmax =>
  split
  · next hmin =>
    split
    · next hzero =>
      rw [hmin, hzero]
      rfl
    · rw [hmin]
      exact pack_subnormal _ _ _
  · have hlt := Nat.lt_of_not_le (mt (unpackExponent_eq_max_iff bits).mpr hmax)
    have hexponent := toNat_unpackExponent bits
    rw [binade_eq] at hexponent
    rw [infinityRank_eq] at hlt
    exact pack_normal _ _ (by omega) _

/-! ## Finite floats -/

/-- The finite floats are those below infinity. -/
theorem isFinite_iff (x : Float) : x.isFinite = true ↔ rank x < infinityRank := by
  have hmax : _ ↔ infinityRank ≤ rank x := unpackExponent_eq_max_iff x.toBits.toBitVec
  change (unpack Format.binary64 x.toBits.toBitVec).isFinite = true ↔ _
  rw [unpack]
  dsimp only
  split
  · next h =>
    refine iff_of_false ?_ (Nat.not_lt_of_le (hmax.mp h))
    split <;> exact Bool.false_ne_true
  · next h =>
    refine iff_of_true ?_ (Nat.lt_of_not_le (mt hmax.mpr h))
    split
    · split <;> rfl
    · rfl

/-! ## Sign and rank of the negative -/

theorem ofBitVec_unpackSign (x : Float) :
    Sign.ofBitVec (@unpackSign Format.binary64 x.toBits.toBitVec)
      = if isNegative x then .negative else .positive := by
  have hzero := unpackSign_eq_zero_iff x.toBits.toBitVec
  change _ ↔ x.toBits.toNat < signBit at hzero
  rw [Sign.ofBitVec, isNegative]
  by_cases h : signBit ≤ x.toBits.toNat
  · rw [if_neg (mt hzero.mp (Nat.not_lt_of_le h)), if_pos (decide_eq_true h)]
  · rw [if_pos (hzero.mpr (Nat.lt_of_not_le h)), if_neg (mt of_decide_eq_true h)]

theorem toNat_toBits (x : Float) :
    x.toBits.toNat = (if isNegative x then signBit else 0) + rank x := by
  have hlt : x.toBits.toNat < 2 ^ 64 := x.toBits.toBitVec.isLt
  rw [rank, isNegative, signBit_eq]
  split
  · next h =>
    have hle := of_decide_eq_true h
    omega
  · next h =>
    have hlt := Nat.lt_of_not_le (of_decide_eq_false (Bool.eq_false_iff.mpr h))
    omega

theorem toNat_toBitVec_neg_sign (x : Float) :
    (-Sign.ofBitVec (@unpackSign Format.binary64 x.toBits.toBitVec)).toBitVec.toNat
      = if isNegative x then 0 else 1 := by
  rw [ofBitVec_unpackSign]
  cases isNegative x <;> rfl

theorem toNat_toBits_neg {x : Float} (h : rank x ≤ infinityRank) :
    (-x).toBits.toNat = (if isNegative x then 0 else signBit) + rank x := by
  have hpack : (-x).toBits.toBitVec = _ := @pack_neg_unpack x.toBits.toBitVec h
  have hnat := congrArg BitVec.toNat hpack
  rw [toNat_packComponents, toNat_unpackExponent, toNat_unpackMantissa,
    toNat_toBitVec_neg_sign] at hnat
  have hrank : x.toBits.toBitVec.toNat % signBit / binade * binade
      + x.toBits.toBitVec.toNat % binade = rank x := by
    change _ = x.toBits.toBitVec.toNat % signBit
    rw [signBit_eq, binade_eq]
    omega
  change (-x).toBits.toBitVec.toNat = _
  rw [hnat, hrank]
  split
  · rw [Nat.zero_mul]
  · rw [Nat.one_mul]

theorem rank_neg {x : Float} (h : rank x ≤ infinityRank) : rank (-x) = rank x := by
  rw [rank, toNat_toBits_neg h]
  rw [infinityRank_eq] at h
  rw [signBit_eq]
  split <;> omega

theorem isNegative_neg {x : Float} (h : rank x ≤ infinityRank) :
    isNegative (-x) = !isNegative x := by
  rw [isNegative, toNat_toBits_neg h]
  rw [infinityRank_eq] at h
  rw [signBit_eq]
  split <;> simp [*]
  omega

theorem eq_of_rank_eq {x y : Float} (hrank : rank x = rank y)
    (hsign : isNegative x = isNegative y) : x = y := by
  have hbits : x.toBits = y.toBits := by
    rw [← UInt64.toNat_inj, toNat_toBits, toNat_toBits, hrank, hsign]
  obtain ⟨bits, _⟩ := x
  obtain ⟨bits', _⟩ := y
  obtain rfl : bits = bits' := hbits
  rfl

theorem eq_ofRank_or_neg {x : Float} (h : rank x ≤ infinityRank) :
    x = if isNegative x then -ofRank (rank x) else ofRank (rank x) := by
  have hrank : rank (ofRank (rank x)) = rank x := by rw [rank_ofRank, Nat.min_eq_left h]
  split
  · next hneg =>
    refine eq_of_rank_eq ?_ ?_
    · rw [rank_neg (by rwa [hrank]), hrank]
    · rw [isNegative_neg (by rwa [hrank]), isNegative_ofRank, hneg]
      rfl
  · next hpos =>
    refine eq_of_rank_eq hrank.symm ?_
    rw [isNegative_ofRank]
    exact Bool.eq_false_iff.mpr hpos

end Calculator.Binary64
