import Calculator.Proofs.Binary64.Amounts
import Calculator.Proofs.Lexing.Rendering
import Calculator.Proofs.Reading.Grammar
import Mathlib

/-!
# Numerals as expressions

A source can be a numeral and nothing else, with separators around it. Then the evaluation says what
there is to say of the numeral: it is malformed as a whole, or the value is the float nearest to the
number that it denotes. So how a number is spelled makes no difference, and a larger number has no
smaller value.

## One lexeme

That a source is a numeral is said of its text (`Source.OfNumeral`). It comes to the same as having
one item, which is a numeral (`Source.ofNumeral_iff`): what stands before an item and behind the
last one separates.
-/

namespace Calculator

namespace Source

/-! ## Sources with one lexeme -/

/-- `source.OfNumeral literal offset` says that a source is a run of digits and points, which begins
at an offset, with separators around it. -/
structure OfNumeral (source : Source) (literal : List Char) (offset : Nat) : Prop where
  nonempty : literal ≠ []
  isNumeralChar : ∀ c ∈ literal, Numeral.isNumeralChar c = true
  /-- What stands around it, and where it begins. -/
  placed : ∃ before after, source.text.toList = before ++ (literal ++ after) ∧
    (∀ c ∈ before, c.isWhitespace = true) ∧ (∀ c ∈ after, c.isWhitespace = true) ∧
    offset = Text.size before

variable {source : Source} {literal : List Char} {offset maxDepth : Nat}

/-- A source is a numeral just if that is its one item. -/
theorem ofNumeral_iff :
    source.OfNumeral literal offset ↔ source.items = [.token ⟨.number literal, offset⟩] := by
  rw [items, Item.listFrom_eq_token_cons_iff]
  constructor
  · rintro ⟨hne, hchars, before, after, htext, hbefore, hafter, rfl⟩
    have hlegal : (Lexeme.number literal).Legal := ⟨hne, hchars⟩
    exact ⟨before, after, htext, hbefore, (Nat.zero_add _).symm,
      hlegal.longest_of_isWhitespace hafter, Item.listFrom_eq_nil_iff.mpr hafter⟩
  · rintro ⟨before, after, htext, hbefore, rfl, ⟨hne, hchars, -⟩, hafter⟩
    exact ⟨hne, hchars, before, after, htext, hbefore, Item.listFrom_eq_nil_iff.mp hafter,
      Nat.zero_add _⟩

/-! ## What becomes of a numeral -/

theorem OfNumeral.answer_eq (h : source.OfNumeral literal offset) (hlevels : 1 ≤ maxDepth) :
    (source.evaluate maxDepth).answer =
      if Numeral.WellFormed literal then .ok (Numeral.value literal)
      else .error ⟨source, .malformedNumber literal offset⟩ := by
  have hitems : source.items = [⟨.number literal, offset⟩].map Item.token := ofNumeral_iff.mp h
  split
  · next hwf =>
    exact answer_of_derives hitems (.term (.factor (.unary (.number hwf)))) hlevels
  · next hwf =>
    have hstep : (Machine.start .lowest).step maxDepth (.token ⟨.number literal, offset⟩)
        = ⟨.take (.error (.malformedNumber literal offset)), [.operand (.number literal)]⟩ := by
      rw [Machine.start, Machine.step_operand, if_pos (show List.length [] < maxDepth from hlevels),
        Machine.begin_number, if_neg hwf]
    refine answer_eq_error_iff.mpr ⟨rfl, Machine.Result.whole_of_answer_eq_error ?_⟩
    rw [reading, hitems, Machine.run_of_take _ hstep]

/-- **Numerals are read exactly.** Below a limit of at least one level, a source that is a numeral
of whatever length is malformed just if the numeral has no digit or more than one point, and else
its value is the float nearest to the number that it denotes. So other zeros or another point at an
end of it do not change the value, and a numeral that denotes a larger number has no smaller
value. -/
theorem evaluate_numeral (h : source.OfNumeral literal offset) (hlevels : 1 ≤ maxDepth) :
    ((source.evaluate maxDepth).answer = .error ⟨source, .malformedNumber literal offset⟩ ↔
      (∀ c ∈ literal, c.isDigit = false) ∨ 1 < literal.count '.') ∧
    (¬((∀ c ∈ literal, c.isDigit = false) ∨ 1 < literal.count '.') →
      ∃ x, (source.evaluate maxDepth).answer = .ok x ∧
        Binary64.IsNearest (Numeral.amount literal) x) ∧
    ∀ other literal' offset' maxDepth', OfNumeral other literal' offset' → 1 ≤ maxDepth' →
      ∀ x, (source.evaluate maxDepth).answer = .ok x →
        (Numeral.Respells literal literal' → (other.evaluate maxDepth').answer = .ok x) ∧
        ∀ x', (other.evaluate maxDepth').answer = .ok x' →
          Numeral.amount literal ≤ Numeral.amount literal' → x ≤ x' := by
  rw [← Numeral.not_wellFormed_iff, not_not, h.answer_eq hlevels]
  refine ⟨?_, fun hwf ↦ ?_, fun other literal' offset' maxDepth' h' hlevels' x hx ↦ ?_⟩
  · split
    · next hwf => exact iff_of_false nofun (not_not_intro hwf)
    · next hwf => exact iff_of_true rfl hwf
  · exact ⟨_, if_pos hwf, Numeral.isNearest_value literal⟩
  · rw [h'.answer_eq hlevels']
    split at hx
    · next hwf =>
      cases hx
      refine ⟨fun hspell ↦ ?_, fun x' hx' hle ↦ ?_⟩
      · rw [if_pos (hspell.wellFormed hwf), Numeral.value_congr hspell.amount_eq]
      · split at hx'
        · cases hx'
          exact Numeral.value_le hle
        · cases hx'
    · cases hx

/-- A half is read from its shortest numeral, with separators around it, as from a longer one, and
a number that is larger in its twentieth place is read as nothing smaller; with one more point
there is no number. -/
theorem evaluate_numeral_half :
    (∃ x, (Source.evaluate ⟨none, " .5\t"⟩ 1).answer = .ok x ∧ Binary64.IsNearest (1 / 2) x ∧
      (Source.evaluate ⟨none, "0.5"⟩ 1).answer = .ok x ∧
      ∃ x', (Source.evaluate ⟨none, "0.50000000000000000001"⟩ 1).answer = .ok x' ∧ x ≤ x') ∧
    (Source.evaluate ⟨none, ".5."⟩ 1).answer
      = .error ⟨⟨none, ".5."⟩, .malformedNumber ['.', '5', '.'] 0⟩ := by
  have hhalf : OfNumeral ⟨none, " .5\t"⟩ ['.', '5'] 1 :=
    ofNumeral_iff.mpr (by decide +kernel)
  have hzero : OfNumeral ⟨none, "0.5"⟩ (List.replicate 1 '0' ++ ['.', '5']) 0 :=
    ofNumeral_iff.mpr (by decide +kernel)
  have hmore : OfNumeral ⟨none, "0.50000000000000000001"⟩
      (['0', '.', '5'] ++ List.replicate 18 '0' ++ ['1']) 0 :=
    ofNumeral_iff.mpr (by decide +kernel)
  have hpoints : OfNumeral ⟨none, ".5."⟩ ['.', '5', '.'] 0 :=
    ofNumeral_iff.mpr (by decide +kernel)
  have hamount : Numeral.amount ['.', '5'] = 1 / 2 := by decide +kernel
  have hle : Numeral.amount ['.', '5']
      ≤ Numeral.amount (['0', '.', '5'] ++ List.replicate 18 '0' ++ ['1']) := by decide +kernel
  obtain ⟨-, hread, hothers⟩ := evaluate_numeral hhalf (Nat.le_refl 1)
  obtain ⟨x, hx, hnearest⟩ := hread (mt Numeral.not_wellFormed_iff.mpr (by decide))
  obtain ⟨x', hx', -⟩ := (evaluate_numeral hmore (Nat.le_refl 1)).2.1
    (mt Numeral.not_wellFormed_iff.mpr (by decide +kernel))
  refine ⟨⟨x, hx, hamount ▸ hnearest, (hothers _ _ _ _ hzero (Nat.le_refl 1) x hx).1 ?_,
    x', hx', (hothers _ _ _ _ hmore (Nat.le_refl 1) x hx).2 x' hx' hle⟩, ?_⟩
  · exact .leadingZeros 1
  · exact (evaluate_numeral hpoints (Nat.le_refl 1)).1.mpr (.inr (by decide))

end Source

end Calculator
