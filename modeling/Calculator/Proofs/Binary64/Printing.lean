import Calculator.Binary64
import Calculator.Proofs.Binary64.Positional
import Calculator.Proofs.Binary64.Rounding

/-!
# Printing and reading

What is printed of a float is read as the same float. The printer looks for a decimal in the
interval of the rank and the reader takes the rank whose interval the decimal lies in, so all there
is to see is that the two speak of the same interval (`readsBack_eq_true_iff`) and that the search
does not come back without a hit.

## Units of both sides

The reader counts in `2 ^ (-1074)` and the printer in `10 ^ (-1074)`, which is `5 ^ 1074` times
finer. An interval does not change when all of it is counted in finer units (`within_mul_iff`), and
this is also how a fraction gets rid of its denominator.
-/

namespace Calculator

/-- A text is a numeral and has a value. -/
structure Numeral.Denotes (literal : List Char) (x : Float) : Prop where
  isNumeralChar : ∀ c ∈ literal, isNumeralChar c = true
  wellFormed : WellFormed literal
  value_eq : value literal = x

namespace Binary64

/-! ## The interval of the printer -/

private theorem five_pow_pos (k : Nat) : 0 < Nat.pow 5 k := Nat.pow_pos (by decide)

theorem strictMono_decimalUnits : StrictMono decimalUnits := by
  intro rank rank' h
  unfold decimalUnits
  generalize 1074 = k
  exact Nat.mul_lt_mul_of_pos_right (strictMono_units h) (five_pow_pos k)

theorem readsBack_eq_true_iff {rank n : Nat} :
    readsBack rank n = true ↔ Within rank (decimalUnits (rank - 1) + decimalUnits rank) (2 * n)
      (decimalUnits rank + decimalUnits (rank + 1)) := by
  rw [readsBack, Within]
  split <;> rw [Bool.and_eq_true, decide_eq_true_iff, decide_eq_true_iff]

/-- A decimal in the interval of the printer is in the interval of the reader. The number of its
places goes by a name of its own, so that nothing computes the power. -/
theorem roundsTo_of_readsBack {rank num den n places : Nat} (hden : 0 < den)
    (hplaces : places = 1074) (hn : num * 10 ^ places = n * den) (h : readsBack rank n = true) :
    RoundsTo rank num den := by
  rw [readsBack_eq_true_iff] at h
  unfold decimalUnits at h
  unfold RoundsTo
  generalize 1074 = k at hplaces h ⊢
  subst hplaces
  have hpow : 2 ^ places * Nat.pow 5 places = 10 ^ places := (Nat.mul_pow 2 5 places).symm
  have hnum : 2 * (num <<< places) * Nat.pow 5 places = 2 * n * den := by
    rw [Nat.shiftLeft_eq, Nat.mul_assoc, Nat.mul_assoc, hpow, hn, Nat.mul_assoc]
  rw [← within_mul_iff (five_pow_pos places), hnum, Nat.mul_right_comm _ den,
    Nat.mul_right_comm _ den, within_mul_iff hden, Nat.add_mul, Nat.add_mul]
  exact h

/-! ## The search -/

theorem readsBack_decimalUnits (rank : Nat) : readsBack rank (decimalUnits rank) = true := by
  rw [readsBack_eq_true_iff, Within, Nat.two_mul]
  have hhigh := strictMono_decimalUnits (show rank < rank + 1 from Nat.lt_succ_self rank)
  split
  · have hlow := strictMono_decimalUnits.monotone (Nat.sub_le rank 1)
    omega
  · have hlow := strictMono_decimalUnits (show rank - 1 < rank by omega)
    omega

/-- Whatever grid the search begins with, it comes back with a decimal that reads back. -/
theorem readsBack_search (rank p : Nat) :
    readsBack rank ((search rank p).1 * 10 ^ (search rank p).2) = true := by
  induction p with
  | zero => rw [search, Nat.pow_zero, Nat.mul_one, readsBack_decimalUnits]
  | succ p ih =>
    rw [search]
    split
    · next hbelow _ => exact hbelow
    · next _ habove => exact habove
    · next hbelow habove =>
      split
      · exact hbelow
      · exact habove
    · exact ih

/-! ## The text of a magnitude -/

theorem roundsTo_text {rank coefficient p : Nat}
    (h : readsBack rank (coefficient * 10 ^ p) = true) :
    RoundsTo rank (Numeral.numerator (Decimal.text ⟨coefficient, p - 1074⟩))
      (Numeral.denominator (Decimal.text ⟨coefficient, p - 1074⟩)) := by
  obtain ⟨places, hplaces⟩ : ∃ places, places = 1074 := ⟨_, rfl⟩
  have hexponent : (p : Int) - 1074 + places = p := by omega
  exact roundsTo_of_readsBack (Numeral.denominator_pos _) hplaces
    (Decimal.numerator_text ⟨coefficient, p - 1074⟩ hexponent) h

/-- **Printing and reading.** The shortest decimal of a float is read as that float. -/
theorem denotes_text_shortest (rank : Nat) :
    Numeral.Denotes (shortest rank).text (ofRank rank) where
  isNumeralChar _ := Decimal.isNumeralChar_of_mem_text
  wellFormed := Decimal.wellFormed_text _
  value_eq := congrArg ofRank ((nearestRank_eq_iff (Numeral.denominator_pos _)).mpr
    (roundsTo_text (readsBack_search rank (coarseGrid (decimalUnits rank)))))

theorem denotes_magnitudeText {rank : Nat} (h : rank < infinityRank) :
    Numeral.Denotes (magnitudeText rank) (ofRank rank) := by
  rw [magnitudeText]
  split
  · next hzero =>
    subst hzero
    have hround : RoundsTo 0 0 1 := by
      rw [RoundsTo, Within, if_pos rfl, Nat.zero_shiftLeft, Nat.zero_sub, units_zero]
      exact ⟨Nat.le_refl 0, Nat.zero_le _⟩
    exact ⟨List.forall_mem_singleton.mpr rfl, by decide,
      congrArg ofRank ((nearestRank_eq_iff Nat.one_pos).mpr hround)⟩
  · exact denotes_text_shortest rank

end Binary64

end Calculator
