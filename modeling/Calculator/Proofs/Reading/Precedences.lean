import Calculator.Evaluator
import Calculator.Grammar

/-!
# How the precedences fit the grammar

The evaluator compares how tightly a token binds with a floor; the grammar has kinds of phrases,
each made of narrower ones. That the one serves the other rests on a few facts about the five
operators, which are gathered here. Nothing else about precedences is used later on.

## The facts

Where an operator is taken, the phrase that it makes fits into what is being read, and the other way
round (`Operator.phrase_le_iff`). An operator that ends the right operand of another can have the
whole phrase of that one to its left (`Operator.phrase_le_leftPhrase`). And what goes on with a
narrow phrase binds tighter than what goes on with a wide one (`Phrase.rank_stop_le`).
-/

namespace Calculator

/-! ## Phrases -/

namespace Phrase

/-- The place of a kind of phrase in their order, the narrowest first. -/
def rank : Phrase → Nat
  | unary => 0
  | power => 1
  | term => 2
  | expr => 3

instance : LE Phrase := ⟨fun p q ↦ p.rank ≤ q.rank⟩

instance (p q : Phrase) : Decidable (p ≤ q) := inferInstanceAs (Decidable (p.rank ≤ q.rank))

theorem unary_le (p : Phrase) : unary ≤ p := Nat.zero_le p.rank

theorem le_expr (p : Phrase) : p ≤ expr := by
  cases p <;> decide

theorem le_trans {p q r : Phrase} (h : p ≤ q) (h' : q ≤ r) : p ≤ r := Nat.le_trans h h'

/-- The floor above which an operator would go on with a phrase. -/
def stop : Phrase → Precedence
  | expr => .sum
  | term | power => .product
  | unary => .sign

/-- What goes on with a narrow phrase binds tighter than what goes on with a wide one. -/
theorem rank_stop_le {p q : Phrase} (h : p ≤ q) : q.stop.rank ≤ p.stop.rank := by
  revert h
  cases p <;> cases q <;> decide

end Phrase

theorem Derives.mono {p q : Phrase} {words : List Lexeme} {e : Expr} (h : Derives p words e)
    (hle : p ≤ q) : Derives q words e := by
  have hpower : p ≤ .power → Derives .power words e := by
    intro hle
    cases p with
    | unary => exact .unary h
    | power => exact h
    | _ => exact absurd hle (by decide)
  have hterm : p ≤ .term → Derives .term words e := by
    intro hle
    cases p with
    | unary | power => exact .factor (hpower (by decide))
    | term => exact h
    | expr => exact absurd hle (by decide)
  cases q with
  | unary =>
    cases p with
    | unary => exact h
    | _ => exact absurd hle (by decide)
  | power => exact hpower hle
  | term => exact hterm hle
  | expr =>
    cases p with
    | expr => exact h
    | _ => exact .term (hterm (by decide))

/-! ## Operators -/

namespace Operator

/-- How tightly an operator binds. -/
def precedence : Operator → Precedence
  | plus | minus => .sum
  | star | slash => .product
  | power => .power

/-- The kind of phrase that an operator makes of its operands. -/
def phrase : Operator → Phrase
  | plus | minus => .expr
  | star | slash => .term
  | power => .power

/-- The kind of phrase that stands left of an operator. -/
def leftPhrase : Operator → Phrase
  | plus | minus => .expr
  | star | slash => .term
  | power => .unary

theorem precedence?_lexeme (op : Operator) : op.lexeme.precedence? = some op.precedence := by
  cases op <;> rfl

theorem leftPhrase_le_phrase (op : Operator) : op.leftPhrase ≤ op.phrase := by
  cases op <;> decide

theorem rightPhrase_le_phrase (op : Operator) : op.rightFloor.phrase ≤ op.phrase := by
  cases op <;> decide

theorem stop_phrase (op : Operator) : op.phrase.stop = op.rightFloor := by
  cases op <;> rfl

theorem not_stop_leftPhrase_lt (op : Operator) : ¬op.leftPhrase.stop < op.precedence := by
  cases op <;> decide

/-- An operator is taken just where its phrase is no wider than what is read. -/
theorem phrase_le_iff {floor : Precedence} {op : Operator} :
    op.phrase ≤ floor.phrase ↔ floor < op.precedence := by
  cases op <;> cases floor <;> decide

/-- An operator that ends the right operand of another can have the whole to its left. -/
theorem phrase_le_leftPhrase {op next : Operator} (h : ¬op.rightFloor < next.precedence) :
    op.phrase ≤ next.leftPhrase := by
  revert h
  cases op <;> cases next <;> decide

end Operator

theorem Derives.binary {op : Operator} {left right : List Lexeme} {l r : Expr}
    (hl : Derives op.leftPhrase left l) (hr : Derives op.rightFloor.phrase right r) :
    Derives op.phrase (left ++ op.lexeme :: right) (.binary op l r) := by
  cases op with
  | plus => exact .sum (.inl rfl) hl hr
  | minus => exact .sum (.inr rfl) hl hr
  | star => exact .product (.inl rfl) hl hr
  | slash => exact .product (.inr rfl) hl hr
  | power => exact .power hl hr

/-! ## Roles -/

namespace Reader

theorem role_lexeme (floor : Precedence) (op : Operator) :
    role floor op.lexeme = if floor < op.precedence then .joins op else .ends := by
  rw [role, op.precedence?_lexeme]
  dsimp only
  rw [Operator.ofLexeme?_eq_some_iff.mpr rfl]

/-- An operator goes on with an operand if it binds tighter than the floor. -/
theorem role_eq_joins_iff {floor : Precedence} {lexeme : Lexeme} {op : Operator} :
    role floor lexeme = .joins op ↔ lexeme = op.lexeme ∧ floor < op.precedence := by
  constructor
  · intro h
    obtain rfl : lexeme = op.lexeme := by
      unfold role at h
      repeat' split at h
      all_goals cases h
      exact Operator.ofLexeme?_eq_some_iff.mp ‹_›
    rw [role_lexeme] at h
    by_cases hlt : floor < op.precedence
    · exact ⟨rfl, hlt⟩
    · rw [if_neg hlt] at h
      cases h
  · rintro ⟨rfl, hlt⟩
    rw [role_lexeme, if_pos hlt]

theorem role_lexeme_eq_ends_iff {floor : Precedence} {op : Operator} :
    role floor op.lexeme = .ends ↔ ¬floor < op.precedence := by
  rw [role_lexeme]
  by_cases hlt : floor < op.precedence
  · rw [if_pos hlt]
    exact iff_of_false (by simp) (not_not_intro hlt)
  · rw [if_neg hlt]
    exact iff_of_true rfl hlt

/-- What has no place after an operand is an opening parenthesis. -/
theorem eq_leftParen_of_role {floor : Precedence} {lexeme : Lexeme}
    (h : role floor lexeme = .strays) : lexeme = .leftParen := by
  cases hop : Operator.ofLexeme? lexeme with
  | some op =>
    rw [Operator.ofLexeme?_eq_some_iff.mp hop, role_lexeme] at h
    split at h <;> cases h
  | none =>
    cases lexeme with
    | leftParen => rfl
    | number | rightParen | endOfInput => cases h
    | _ => cases hop

theorem eq_of_role_lowest_eq_ends {lexeme : Lexeme} (h : role .lowest lexeme = .ends) :
    (∃ literal, lexeme = .number literal) ∨ lexeme = .rightParen ∨ lexeme = .endOfInput := by
  cases lexeme with
  | number literal => exact .inl ⟨literal, rfl⟩
  | rightParen => exact .inr (.inl rfl)
  | endOfInput => exact .inr (.inr rfl)
  | _ => cases h

theorem role_eq_ends_mono {p q : Precedence} {lexeme : Lexeme} (h : role p lexeme = .ends)
    (hle : p.rank ≤ q.rank) : role q lexeme = .ends := by
  unfold role at h ⊢
  split
  · rfl
  · next precedence hprecedence =>
    rw [hprecedence] at h
    dsimp only at h
    by_cases hlt : q < precedence
    · have hlt' : p < precedence := Nat.lt_of_le_of_lt hle hlt
      rw [if_pos hlt'] at h
      split at h <;> cases h
    · rw [if_neg hlt]

end Reader

end Calculator
