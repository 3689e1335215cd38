import Calculator.Proofs.Lexing.Rendering
import Calculator.Proofs.Reading.Depth

/-!
# Nesting and levels

How deep an expression nests and how many levels it takes are not the same. Signs, groups and the
exponents of powers nest, and each of them takes a level; but a right operand of a sum or a product
takes a level as well, although it nests no deeper. So there may be three levels for each depth: one
from the whole to the right operand of a sum, one from there to that of a product, and one from
there into what nests.

## The bounds

A limit of three levels for the whole and three more for each depth is enough, however long the
expression is, and a limit that is not greater than the nesting is not enough. Neither bound can be
better: a numeral with signs before it takes one level for each depth (`Expr.signed`), and where
each group is the right operand of a product, and that product of a sum, it is three
(`Expr.deepest`).
-/

namespace Calculator

/-- How many levels a phrase takes besides three for each depth. -/
def Phrase.spread : Phrase → Nat
  | unary | power => 1
  | term => 2
  | expr => 3

theorem Expr.nesting_lt_levels (e : Expr) : e.nesting < e.levels := by
  induction e with
  | number literal => exact Nat.one_pos
  | sign s operand ih => exact Nat.add_lt_add_left ih 1
  | group content ih => exact Nat.add_lt_add_left ih 1
  | binary op lhs rhs ihl ihr => cases op <;> simp only [levels, nesting] <;> omega

/-- There are three levels for each depth at most, besides those of the phrase itself. -/
theorem Derives.levels_le {phrase : Phrase} {words : List Lexeme} {e : Expr}
    (h : Derives phrase words e) : e.levels ≤ 3 * e.nesting + phrase.spread := by
  induction h with
  | number h => exact Nat.le_refl 1
  | sign h ih | group h ih =>
    simp only [Expr.levels, Expr.nesting, Phrase.spread] at ih ⊢
    omega
  | unary h ih => exact ih
  | factor h ih | term h ih => exact Nat.le_succ_of_le ih
  | power hb hx ihb ihx =>
    simp only [Expr.levels, Expr.nesting, Phrase.spread] at ihb ihx ⊢
    omega
  | product hop hl hr ihl ihr | sum hop hl hr ihl ihr =>
    rcases hop with rfl | rfl <;>
      simp only [Expr.levels, Expr.nesting, Phrase.spread] at ihl ihr ⊢ <;> omega

/-! ## Sources of expressions -/

namespace Source

/-- The source consists of the words of an expression. -/
def Spells (source : Source) (e : Expr) : Prop :=
  ∃ tokens : List Token, (Lexer.ofSource source).listing = tokens.map Except.ok ∧
    Derives .expr (tokens.map Token.lexeme) e

/-- The source is evaluated below just those limits that are not less than a number of levels. -/
def Needs (source : Source) (levels : Nat) : Prop :=
  ∀ n, (∃ value, (source.evaluate n).answer = .ok value) ↔ levels ≤ n

variable {source : Source} {e : Expr}

theorem Spells.unique (h : source.Spells e) {e' : Expr} (h' : source.Spells e') : e' = e := by
  obtain ⟨tokens, hlisting, hderives⟩ := h
  obtain ⟨tokens', hlisting', hderives'⟩ := h'
  obtain rfl : tokens' = tokens :=
    (List.map_inj_right fun _ _ ↦ Except.ok.inj).mp (hlisting'.symm.trans hlisting)
  exact hderives.unique hderives'

theorem exists_spells_of_answer {maxDepth : Nat} {value : Float}
    (h : (source.evaluate maxDepth).answer = .ok value) :
    ∃ e, source.Spells e ∧ value = e.value := by
  obtain ⟨tokens, e, hitems, hderives, hvalue⟩ := derives_of_answer h
  exact ⟨e, ⟨tokens, Lexer.listing_ofSource_eq_map_ok_iff.mpr hitems, hderives⟩, hvalue⟩

theorem Spells.answer_of_levels_le (h : source.Spells e) {n : Nat} (hle : e.levels ≤ n) :
    (source.evaluate n).answer = .ok e.value := by
  obtain ⟨tokens, hlisting, hderives⟩ := h
  exact answer_of_derives (Lexer.listing_ofSource_eq_map_ok_iff.mp hlisting) hderives hle

theorem Spells.exists_answer_of_lt_levels (h : source.Spells e) {n : Nat} (hlt : n < e.levels) :
    ∃ t, (source.evaluate n).answer = .error ⟨source, .depthLimitExceeded n t⟩ := by
  obtain ⟨tokens, hlisting, hderives⟩ := h
  obtain ⟨_, t, -, -, hstopped⟩ :=
    answer_of_lt_levels (Lexer.listing_ofSource_eq_map_ok_iff.mp hlisting) hderives hlt
  exact ⟨t, hstopped⟩

theorem Spells.needs (h : source.Spells e) : source.Needs e.levels := by
  refine fun n ↦ ⟨fun ⟨value, hvalue⟩ ↦ Nat.le_of_not_lt fun hlt ↦ ?_, fun hle ↦
    ⟨e.value, h.answer_of_levels_le hle⟩⟩
  obtain ⟨t, hstopped⟩ := h.exists_answer_of_lt_levels hlt
  cases hvalue.symm.trans hstopped

/-- The levels of an expression lie between one for each depth and three. -/
theorem Spells.levels_le (h : source.Spells e) : e.levels ≤ 3 * (e.nesting + 1) := by
  obtain ⟨_, -, hderives⟩ := h
  exact hderives.levels_le

theorem exists_spells (h : Derives .expr e.lexemes e)
    (hlegal : ∀ lexeme ∈ e.lexemes, lexeme.Legal) : ∃ source : Source, source.Spells e := by
  obtain ⟨tokens, hlisting, hlexemes⟩ := Layout.exists_listing_joined hlegal none
  exact ⟨_, tokens, hlisting, hlexemes ▸ h⟩

end Source

/-! ## Expressions at the bounds -/

namespace Expr

/-- A numeral with signs before it. -/
def signed : Nat → Expr
  | 0 => .number ['1']
  | n + 1 => .sign .minus (signed n)

/-- An operand as the right factor of a product, which is the right summand of a sum. -/
def sunk (operand : Expr) : Expr :=
  .binary .plus (.number ['1']) (.binary .star (.number ['1']) operand)

/-- Sums in groups, each of them as deep in the next as an operand can be. -/
def deepest : Nat → Expr
  | 0 => sunk (.number ['1'])
  | n + 1 => sunk (.group (deepest n))

theorem nesting_signed (n : Nat) : (signed n).nesting = n := by
  induction n with
  | zero => rfl
  | succ n ih => rw [signed, nesting, ih, Nat.add_comm]

theorem levels_signed (n : Nat) : (signed n).levels = n + 1 := by
  induction n with
  | zero => rfl
  | succ n ih => rw [signed, levels, ih, Nat.add_comm]

theorem derives_signed (n : Nat) : Derives .unary (signed n).lexemes (signed n) := by
  induction n with
  | zero => exact .number (by decide)
  | succ n ih => exact .sign ih

theorem legal_one : (Lexeme.number ['1']).Legal :=
  ⟨List.cons_ne_nil _ _, List.forall_mem_singleton.mpr rfl⟩

theorem legal_signed (n : Nat) : ∀ lexeme ∈ (signed n).lexemes, lexeme.Legal := by
  induction n with
  | zero => exact List.forall_mem_singleton.mpr legal_one
  | succ n ih => exact List.forall_mem_cons.mpr ⟨trivial, ih⟩

theorem nesting_sunk (operand : Expr) : (sunk operand).nesting = operand.nesting := by
  simp [sunk, nesting]

theorem levels_sunk (operand : Expr) : (sunk operand).levels = operand.levels + 2 := by
  simp only [sunk, levels]
  omega

theorem derives_sunk {operand : Expr} (h : Derives .unary operand.lexemes operand) :
    Derives .expr (sunk operand).lexemes (sunk operand) := by
  have hone : Derives .term [.number ['1']] (.number ['1']) :=
    .factor (.unary (.number (by decide)))
  exact .sum (.inl rfl) (.term hone) (.product (.inl rfl) hone (.unary h))

theorem legal_sunk {operand : Expr} (h : ∀ lexeme ∈ operand.lexemes, lexeme.Legal) :
    ∀ lexeme ∈ (sunk operand).lexemes, lexeme.Legal := by
  exact List.forall_mem_cons.mpr ⟨legal_one, List.forall_mem_cons.mpr ⟨trivial,
    List.forall_mem_cons.mpr ⟨legal_one, List.forall_mem_cons.mpr ⟨trivial, h⟩⟩⟩⟩

theorem nesting_deepest (n : Nat) : (deepest n).nesting = n := by
  induction n with
  | zero => rfl
  | succ n ih => rw [deepest, nesting_sunk, nesting, ih, Nat.add_comm]

theorem levels_deepest (n : Nat) : (deepest n).levels = 3 * (n + 1) := by
  induction n with
  | zero => rfl
  | succ n ih =>
    rw [deepest, levels_sunk, levels, ih]
    omega

theorem derives_deepest (n : Nat) : Derives .expr (deepest n).lexemes (deepest n) := by
  induction n with
  | zero => exact derives_sunk (.number (by decide))
  | succ n ih => exact derives_sunk (.group ih)

theorem legal_deepest (n : Nat) : ∀ lexeme ∈ (deepest n).lexemes, lexeme.Legal := by
  induction n with
  | zero => exact legal_sunk (List.forall_mem_singleton.mpr legal_one)
  | succ n ih =>
    refine legal_sunk (List.forall_mem_cons.mpr ⟨trivial, ?_⟩)
    exact List.forall_mem_append.mpr ⟨ih, List.forall_mem_singleton.mpr trivial⟩

end Expr

namespace Source

/-- **Nesting and the limit.** What is evaluated below some limit spells one expression. It is
evaluated to the same below every limit of at least three levels for each depth of the expression
and three for the whole, and is stopped below every limit that is not greater than the nesting. For
each nesting there are sources at both bounds. -/
theorem evaluate_nesting (nesting : Nat) :
    (∀ (source : Source) (maxDepth : Nat) (value : Float),
      (source.evaluate maxDepth).answer = .ok value →
        ∃ e : Expr, source.Spells e ∧ (∀ e', source.Spells e' → e' = e) ∧
          (∀ n, 3 * (e.nesting + 1) ≤ n → (source.evaluate n).answer = .ok value) ∧
          ∀ n ≤ e.nesting, ∃ t,
            (source.evaluate n).answer = .error ⟨source, .depthLimitExceeded n t⟩) ∧
    (∃ (source : Source) (e : Expr), source.Spells e ∧ e.nesting = nesting ∧
      source.Needs (nesting + 1)) ∧
    ∃ (source : Source) (e : Expr), source.Spells e ∧ e.nesting = nesting ∧
      source.Needs (3 * (nesting + 1)) := by
  refine ⟨fun source maxDepth value hvalue ↦ ?_, ?_, ?_⟩
  · obtain ⟨e, hspells, rfl⟩ := exists_spells_of_answer hvalue
    refine ⟨e, hspells, fun e' h' ↦ hspells.unique h', fun n hle ↦ ?_, fun n hle ↦ ?_⟩
    · exact hspells.answer_of_levels_le (Nat.le_trans hspells.levels_le hle)
    · exact hspells.exists_answer_of_lt_levels (Nat.lt_of_le_of_lt hle e.nesting_lt_levels)
  · obtain ⟨source, hspells⟩ := exists_spells
      (.term (.factor (.unary (Expr.derives_signed nesting)))) (Expr.legal_signed nesting)
    exact ⟨source, _, hspells, Expr.nesting_signed nesting,
      Expr.levels_signed nesting ▸ hspells.needs⟩
  · obtain ⟨source, hspells⟩ :=
      exists_spells (Expr.derives_deepest nesting) (Expr.legal_deepest nesting)
    exact ⟨source, _, hspells, Expr.nesting_deepest nesting,
      Expr.levels_deepest nesting ▸ hspells.needs⟩

/-- A group with a sign nests two deep. -/
theorem evaluate_nesting_signed_group :
    (Source.evaluate ⟨none, "-(1)"⟩ 9).answer = .ok (-Numeral.value ['1']) ∧
      ∃ t, (Source.evaluate ⟨none, "-(1)"⟩ 2).answer
        = .error ⟨⟨none, "-(1)"⟩, .depthLimitExceeded 2 t⟩ := by
  let e : Expr := .sign .minus (.group (.number ['1']))
  let tokens : List Token := [⟨.minus, 0⟩, ⟨.leftParen, 1⟩, ⟨.number ['1'], 2⟩, ⟨.rightParen, 3⟩]
  have hlisting : (Lexer.ofSource ⟨none, "-(1)"⟩).listing = tokens.map Except.ok :=
    Lexer.listing_ofSource_eq_map_ok_iff.mpr (by decide +kernel)
  have hone : Derives .expr [.number ['1']] (.number ['1']) :=
    .term (.factor (.unary (.number (by decide))))
  have hspells : Spells ⟨none, "-(1)"⟩ e :=
    ⟨tokens, hlisting, .term (.factor (.unary (.sign (s := .minus) (.group hone))))⟩
  have hvalue := hspells.answer_of_levels_le (show e.levels ≤ 3 by decide)
  obtain ⟨e', -, hunique, henough, hstopped⟩ := (evaluate_nesting 2).1 _ _ _ hvalue
  obtain rfl := hunique e hspells
  exact ⟨henough 9 (by decide), hstopped 2 (by decide)⟩

end Source

end Calculator
