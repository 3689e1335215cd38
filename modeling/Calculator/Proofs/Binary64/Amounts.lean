import Calculator.Proofs.Binary64.Nearness
import Calculator.Proofs.Binary64.Positional
import Mathlib

/-!
# The numbers that numerals denote

A numeral denotes a decimal number: the digits before the point count in tens, those behind it in
tenths. `Numeral.amount` is this number as it is read from left to right, a digit at a time; that it
is the fraction which the reader rounds is `Numeral.amount_eq`. So the value of a numeral is the
float nearest to the number, whatever its length.

## Spellings

One number has many numerals, which differ in zeros at the ends and in a point with nothing behind
it (`Numeral.Respells`). The value depends on the number alone (`Numeral.value_congr`), so all of
them have the same one, and a larger number has no smaller value (`Numeral.value_le`).
-/

namespace Calculator.Numeral

/-! ## The number -/

/-- What a digit counts for. -/
def digit (c : Char) : ℚ := (c.toNat - '0'.toNat : Nat)

/-- The number that digits behind a point make up. -/
def tenths : List Char → ℚ
  | [] => 0
  | c :: digits => (digit c + tenths digits) / 10

/-- The number that a numeral goes on to, if the digits up to here make up `n`. -/
def amountFrom (n : ℚ) : List Char → ℚ
  | [] => n
  | c :: literal => if c = '.' then n + tenths literal else amountFrom (10 * n + digit c) literal

/-- The number that a numeral denotes. -/
def amount (literal : List Char) : ℚ := amountFrom 0 literal

theorem not_wellFormed_iff {literal : List Char} :
    ¬WellFormed literal ↔ (∀ c ∈ literal, c.isDigit = false) ∨ 1 < literal.count '.' := by
  rw [WellFormed, not_and_or, Bool.not_eq_true, List.any_eq_false, not_le]
  simp only [Bool.not_eq_true]

theorem digit_zero : digit '0' = 0 := Nat.cast_zero

theorem cast_ten_mul_add_digit (n : ℕ) (c : Char) :
    ((10 * n + (c.toNat - '0'.toNat) : ℕ) : ℚ) = 10 * n + digit c := by
  rw [digit, Nat.cast_add, Nat.cast_mul, Nat.cast_ofNat]

theorem add_tenths_eq (n : ℕ) (digits : List Char) :
    n + tenths digits = (Nat.ofDigitChars 10 digits n : ℕ) / (10 ^ digits.length : ℕ) := by
  induction digits generalizing n with
  | nil => rw [tenths, add_zero, List.length_nil, pow_zero, Nat.cast_one, div_one]; rfl
  | cons c digits ih =>
    rw [tenths, List.length_cons, pow_succ, Nat.cast_mul, Nat.cast_ofNat, ← div_div,
      Nat.ofDigitChars_cons, ← ih, cast_ten_mul_add_digit]
    ring

theorem whole_cons_of_ne {c : Char} (hc : c ≠ '.') (literal : List Char) :
    whole (c :: literal) = c :: whole literal :=
  List.takeWhile_cons_of_pos (decide_eq_true hc)

theorem fraction_cons_of_ne {c : Char} (hc : c ≠ '.') (literal : List Char) :
    fraction (c :: literal) = fraction literal := by
  rw [fraction, List.dropWhile_cons, if_pos (decide_eq_true hc), ← fraction]

theorem amountFrom_eq (n : ℕ) (literal : List Char) :
    amountFrom n literal
      = (Nat.ofDigitChars 10 (whole literal ++ fraction literal) n : ℕ) / denominator literal := by
  induction literal generalizing n with
  | nil => exact (div_one (n : ℚ)).symm
  | cons c literal ih =>
    by_cases hc : c = '.'
    · -- all that is left are places
      subst hc
      have hwhole : whole ('.' :: literal) = [] := rfl
      have hfraction : fraction ('.' :: literal) = literal := rfl
      rw [amountFrom, if_pos rfl, add_tenths_eq, hwhole, List.nil_append, denominator, hfraction]
      rfl
    · rw [amountFrom, if_neg hc, ← cast_ten_mul_add_digit, ih, whole_cons_of_ne hc,
        List.cons_append, Nat.ofDigitChars_cons, denominator, denominator, fraction_cons_of_ne hc]

/-- The number of a numeral is the fraction that is rounded. -/
theorem amount_eq (literal : List Char) :
    amount literal = numerator literal / denominator literal := by
  rw [amount, ← Nat.cast_zero, amountFrom_eq, numerator]

example : amount ['1', '2', '.', '5'] = 25 / 2 := by decide +kernel

/-! ## The value -/

/-- **The value of a numeral.** It is the float nearest to the number that the numeral denotes. -/
theorem isNearest_value (literal : List Char) :
    Binary64.IsNearest (amount literal) (value literal) := by
  rw [amount_eq]
  exact Binary64.isNearest_nearest (numerator literal) (denominator_pos literal)

theorem value_congr {literal literal' : List Char} (h : amount literal = amount literal') :
    value literal = value literal' :=
  (isNearest_value literal).unique (h ▸ isNearest_value literal')

theorem value_le {literal literal' : List Char} (h : amount literal ≤ amount literal') :
    value literal ≤ value literal' := by
  have hpos := denominator_pos literal
  have hpos' := denominator_pos literal'
  rw [amount_eq, amount_eq, div_le_div_iff₀ (Nat.cast_pos.mpr hpos) (Nat.cast_pos.mpr hpos')] at h
  have hrank := Binary64.nearestRank_le hpos hpos' (by exact_mod_cast h)
  refine Binary64.le_of_rank_le (Binary64.isNegative_ofRank _) (Binary64.isNegative_ofRank _) ?_ ?_
  · rw [value, value, Binary64.nearest, Binary64.nearest, Binary64.rank_ofRank,
      Binary64.rank_ofRank]
    exact min_le_min_right _ hrank
  · rw [value, Binary64.nearest, Binary64.rank_ofRank]
    exact Nat.min_le_right _ _

/-! ## Spellings -/

/-- A numeral with more zeros at an end, or with a point at its end. -/
inductive Respells (literal : List Char) : List Char → Prop
  | leadingZeros (n : Nat) : Respells literal (List.replicate n '0' ++ literal)
  | trailingZeros (n : Nat) (h : '.' ∈ literal) :
    Respells literal (literal ++ List.replicate n '0')
  | trailingPoint (h : '.' ∉ literal) : Respells literal (literal ++ ['.'])

theorem tenths_append {digits digits' : List Char} (h : tenths digits' = 0) :
    tenths (digits ++ digits') = tenths digits := by
  induction digits with
  | nil => rw [List.nil_append, h, tenths]
  | cons c digits ih => rw [List.cons_append, tenths, ih, tenths]

theorem tenths_replicate_zero (n : Nat) : tenths (List.replicate n '0') = 0 := by
  induction n with
  | zero => rfl
  | succ n ih => rw [List.replicate_succ, tenths, ih, digit_zero, add_zero, zero_div]

/-- Behind a point only what counts in tenths makes a difference. -/
theorem amountFrom_append_of_mem {literal digits : List Char} (hpoint : '.' ∈ literal)
    (h : tenths digits = 0) (n : ℚ) :
    amountFrom n (literal ++ digits) = amountFrom n literal := by
  induction literal generalizing n with
  | nil => cases hpoint
  | cons c literal ih =>
    rw [List.cons_append, amountFrom, amountFrom]
    split
    · rw [tenths_append h]
    · next hc => exact ih ((List.mem_cons.mp hpoint).resolve_left (Ne.symm hc)) _

theorem amountFrom_append_of_not_mem {literal : List Char} (hpoint : '.' ∉ literal) (n : ℚ)
    (more : List Char) :
    amountFrom n (literal ++ more) = amountFrom (amountFrom n literal) more := by
  induction literal generalizing n with
  | nil => rfl
  | cons c literal ih =>
    have hc : c ≠ '.' := (List.ne_of_not_mem_cons hpoint).symm
    rw [List.cons_append, amountFrom, amountFrom, if_neg hc, if_neg hc,
      ih (List.not_mem_of_not_mem_cons hpoint)]

namespace Respells

variable {literal literal' : List Char}

/-- Another spelling denotes the same number. -/
theorem amount_eq (h : Respells literal literal') : amount literal' = amount literal := by
  cases h with
  | leadingZeros n =>
    induction n with
    | zero => rfl
    | succ n ih =>
      rw [List.replicate_succ, List.cons_append, amount, amountFrom, if_neg (by decide), mul_zero,
        digit_zero, add_zero, ← amount, ih]
  | trailingZeros n hpoint => exact amountFrom_append_of_mem hpoint (tenths_replicate_zero n) 0
  | trailingPoint hpoint =>
    rw [amount, amountFrom_append_of_not_mem hpoint, amountFrom, if_pos rfl, tenths, add_zero,
      ← amount]

theorem wellFormed (h : Respells literal literal') (hwf : WellFormed literal) :
    WellFormed literal' := by
  obtain ⟨hdigit, hcount⟩ := hwf
  have hzeros (n : Nat) : (List.replicate n '0').count '.' = 0 :=
    List.count_eq_zero.mpr fun hmem ↦ absurd (List.eq_of_mem_replicate hmem) (by decide)
  cases h with
  | leadingZeros n =>
    refine ⟨?_, ?_⟩
    · rw [List.any_append, hdigit, Bool.or_true]
    · rw [List.count_append, hzeros, Nat.zero_add]
      exact hcount
  | trailingZeros n =>
    refine ⟨?_, ?_⟩
    · rw [List.any_append, hdigit, Bool.true_or]
    · rw [List.count_append, hzeros]
      exact hcount
  | trailingPoint hpoint =>
    refine ⟨?_, ?_⟩
    · rw [List.any_append, hdigit, Bool.true_or]
    · rw [List.count_append, List.count_eq_zero.mpr hpoint]
      decide

end Respells

end Calculator.Numeral
