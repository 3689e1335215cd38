import Calculator.Binary64
import Mathlib

/-!
# Positional texts

The text of a decimal is a well-formed numeral, and the fraction that it denotes as a numeral is the
decimal. Of a run of digits with a point somewhere in it both say the same: the digits are those of
the whole number, zeros in front of it aside, and as many of them stand behind the point as it has
places.
-/

namespace Calculator

/-! ## Numerals with and without a point -/

namespace Numeral

theorem denominator_pos (literal : List Char) : 0 < denominator literal :=
  Nat.pow_pos (by decide)

section

variable {digits before after : List Char}

private theorem ne_point (h : ∀ c ∈ digits, c.isDigit = true) :
    ∀ c ∈ digits, decide (c ≠ '.') = true := by
  intro c hc
  refine decide_eq_true ?_
  rintro rfl
  exact absurd (h _ hc) (by decide)

theorem isNumeralChar_of_isDigit {c : Char} (h : c.isDigit = true) : isNumeralChar c = true := by
  rw [isNumeralChar, h, Bool.true_or]

theorem whole_of_isDigit (h : ∀ c ∈ digits, c.isDigit = true) : whole digits = digits :=
  List.takeWhile_eq_self_iff.mpr (ne_point h)

theorem fraction_of_isDigit (h : ∀ c ∈ digits, c.isDigit = true) : fraction digits = [] := by
  rw [fraction, List.dropWhile_eq_nil_iff.mpr (ne_point h), List.drop_nil]

theorem whole_point (h : ∀ c ∈ before, c.isDigit = true) :
    whole (before ++ '.' :: after) = before := by
  rw [whole, List.takeWhile_append_of_pos (ne_point h), List.takeWhile_cons_of_neg (by decide),
    List.append_nil]

theorem fraction_point (h : ∀ c ∈ before, c.isDigit = true) :
    fraction (before ++ '.' :: after) = after := by
  rw [fraction, List.dropWhile_append_of_pos (ne_point h), List.dropWhile_cons_of_neg (by decide),
    List.drop_one, List.tail_cons]

theorem wellFormed_of_isDigit (hne : digits ≠ []) (h : ∀ c ∈ digits, c.isDigit = true) :
    WellFormed digits := by
  obtain ⟨c, hc⟩ := List.exists_mem_of_ne_nil digits hne
  refine ⟨List.any_eq_true.mpr ⟨c, hc, h c hc⟩, ?_⟩
  rw [List.count_eq_zero.mpr fun hmem ↦ absurd (h _ hmem) (by decide)]
  exact Nat.zero_le 1

theorem wellFormed_point (hne : before ++ after ≠ [])
    (h : ∀ c ∈ before ++ after, c.isDigit = true) : WellFormed (before ++ '.' :: after) := by
  obtain ⟨hdigit, hcount⟩ := wellFormed_of_isDigit hne h
  rw [List.count_append] at hcount
  have hpoints : (before ++ after).count '.' = 0 :=
    List.count_eq_zero.mpr fun hmem ↦ absurd (h _ hmem) (by decide)
  rw [List.count_append] at hpoints
  rw [List.any_append] at hdigit
  refine ⟨by rw [List.any_append, List.any_cons]; exact hdigit, ?_⟩
  rw [List.count_append, List.count_cons_self]
  omega

end

end Numeral

/-! ## The text of a decimal -/

namespace Decimal

/-- The digits of a text with a point are those of the whole number. -/
theorem exists_withPoint_eq (coefficient places : Nat) :
    ∃ before after, withPoint coefficient places = before ++ '.' :: after ∧ before ++ after ≠ [] ∧
      after.length = places ∧ (∀ c ∈ before ++ after, c.isDigit = true) ∧
      Nat.ofDigitChars 10 (before ++ after) 0 = coefficient := by
  rw [withPoint]
  generalize hzeros : places + 1 - (Nat.toDigits 10 coefficient).length = zeros
  refine ⟨_, _, rfl, ?_, ?_, ?_, ?_⟩
  · rw [List.take_append_drop]
    exact List.append_ne_nil_of_right_ne_nil _ Nat.toDigits_ne_nil
  · rw [List.length_drop, List.length_append, List.length_replicate]
    omega
  · rw [List.take_append_drop]
    intro c hc
    rcases List.mem_append.mp hc with hzero | hdigit
    · rw [List.eq_of_mem_replicate hzero]
      rfl
    · exact Nat.isDigit_of_mem_toDigits (by decide) (by decide) hdigit
  · rw [List.take_append_drop, Nat.ofDigitChars_append, Nat.ofDigitChars_replicate_zero,
      Nat.mul_zero, Nat.ofDigitChars_ten_toDigits]

theorem text_ofNat (coefficient zeros : Nat) :
    text ⟨coefficient, zeros⟩ = Nat.toDigits 10 coefficient ++ List.replicate zeros '0' := rfl

theorem text_negSucc (coefficient n : Nat) :
    text ⟨coefficient, .negSucc n⟩ = withPoint coefficient (n + 1) := rfl

theorem isDigit_of_mem_text_ofNat {coefficient zeros : Nat} {c : Char}
    (h : c ∈ text ⟨coefficient, zeros⟩) : c.isDigit = true := by
  rcases List.mem_append.mp h with hdigit | hzero
  · exact Nat.isDigit_of_mem_toDigits (by decide) (by decide) hdigit
  · rw [List.eq_of_mem_replicate hzero]
    rfl

theorem isNumeralChar_of_mem_text {d : Decimal} {c : Char} (h : c ∈ d.text) :
    Numeral.isNumeralChar c = true := by
  obtain ⟨coefficient, zeros | n⟩ := d
  · exact Numeral.isNumeralChar_of_isDigit (isDigit_of_mem_text_ofNat h)
  · obtain ⟨before, after, htext, -, -, hdigits, -⟩ := exists_withPoint_eq coefficient (n + 1)
    rw [text_negSucc, htext] at h
    rcases List.mem_append.mp h with hbefore | hafter
    · exact Numeral.isNumeralChar_of_isDigit (hdigits c (List.mem_append_left _ hbefore))
    · rcases List.mem_cons.mp hafter with rfl | hafter
      · rfl
      · exact Numeral.isNumeralChar_of_isDigit (hdigits c (List.mem_append_right _ hafter))

theorem wellFormed_text (d : Decimal) : Numeral.WellFormed d.text := by
  obtain ⟨coefficient, zeros | n⟩ := d
  · exact Numeral.wellFormed_of_isDigit
      (List.append_ne_nil_of_left_ne_nil Nat.toDigits_ne_nil _) fun c ↦ isDigit_of_mem_text_ofNat
  · obtain ⟨before, after, htext, hne, -, hdigits, -⟩ := exists_withPoint_eq coefficient (n + 1)
    rw [text_negSucc, htext]
    exact Numeral.wellFormed_point hne hdigits

/-- The numeral denotes the decimal. Both are counted in `10 ^ (-k)`, of which the decimal is a
whole multiple. -/
theorem numerator_text (d : Decimal) {k n : Nat} (h : d.exponent + k = n) :
    Numeral.numerator d.text * 10 ^ k = d.coefficient * 10 ^ n * Numeral.denominator d.text := by
  obtain ⟨coefficient, zeros | m⟩ := d
  · have hdigits : ∀ c ∈ text ⟨coefficient, zeros⟩, c.isDigit = true := fun _ ↦
      isDigit_of_mem_text_ofNat
    have hn : n = zeros + k := by
      have : (zeros : Int) + k = n := h
      omega
    rw [Numeral.numerator, Numeral.denominator, Int.ofNat_eq_natCast,
      Numeral.whole_of_isDigit hdigits, Numeral.fraction_of_isDigit hdigits, List.append_nil,
      text_ofNat, Nat.ofDigitChars_append, Nat.ofDigitChars_ten_toDigits,
      Nat.ofDigitChars_replicate_zero, hn, Nat.pow_add, Nat.mul_comm (10 ^ zeros), Nat.mul_assoc]
    exact (Nat.mul_one _).symm
  · obtain ⟨before, after, htext, -, hlength, hdigits, hvalue⟩ :=
      exists_withPoint_eq coefficient (m + 1)
    have hbefore (c : Char) (hc : c ∈ before) := hdigits c (List.mem_append_left _ hc)
    have hk : k = n + (m + 1) := by
      have : Int.negSucc m + k = n := h
      omega
    rw [Numeral.numerator, Numeral.denominator, text_negSucc, htext, Numeral.whole_point hbefore,
      Numeral.fraction_point hbefore, hvalue, hlength, hk, Nat.pow_add, Nat.mul_assoc]
    rfl

end Decimal

end Calculator
