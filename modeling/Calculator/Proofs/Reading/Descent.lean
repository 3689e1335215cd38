import Calculator.Proofs.Reading.Grammar

/-!
# A narrower grammar

Arithmetic can also be laid out for a reader that descends from one kind of phrase to the next, with
a group on the level of a factor and a sign as part of a numeral:

```text
expr    := term {(+|-) term}
term    := factor {(*|/) factor}
factor  := element | ( expr )
element := digits [** element]
digits  := [+|-] NUMBER
```

What this derives is evaluated, to the value that it has here. But it derives less than what is
evaluated: here a group is neither raised to a power nor a power to which something is raised, and a
sign stands before nothing but a numeral. These two are all that is missing, anywhere in the words
(`Departs`).

## Both directions

Words without such a place are derived here if they are derived at all, by induction on the
derivation: a phrase within the words has no such place either, so what has to be shown is only that
an operand of the wrong kind would be one. Conversely such a place has two words next to each other
that never come together in what is derived here (`Clashes`). Two words that are next to each other
stand within one part of a phrase, or where two parts meet.
-/

namespace Calculator

/-- The kinds of phrase of the narrower grammar. -/
inductive Stage where
  | expr
  | term
  | factor
  | element
  | digits
  deriving DecidableEq, Repr

/-- `Descends stage words e` says that the words form a phrase of the kind in the narrower grammar,
with the tree `e`. -/
inductive Descends : Stage → List Lexeme → Expr → Prop
  /-- A numeral that denotes a number. -/
  | number {literal : List Char} (h : Numeral.WellFormed literal) :
      Descends .digits [.number literal] (.number literal)
  /-- A numeral with a sign. -/
  | signed (s : Sign) {literal : List Char} (h : Numeral.WellFormed literal) :
      Descends .digits [s.lexeme, .number literal] (.sign s (.number literal))
  /-- A numeral is an element. -/
  | digits {words : List Lexeme} {e : Expr} (h : Descends .digits words e) :
      Descends .element words e
  /-- A numeral raised to an element is an element. -/
  | power {base exponent : List Lexeme} {b x : Expr} (hb : Descends .digits base b)
      (hx : Descends .element exponent x) :
      Descends .element (base ++ .doubleStar :: exponent) (.binary .power b x)
  /-- An element is a factor. -/
  | element {words : List Lexeme} {e : Expr} (h : Descends .element words e) :
      Descends .factor words e
  /-- An expression in parentheses is a factor. -/
  | group {words : List Lexeme} {e : Expr} (h : Descends .expr words e) :
      Descends .factor (.leftParen :: (words ++ [.rightParen])) (.group e)
  /-- A factor is a term. -/
  | factor {words : List Lexeme} {e : Expr} (h : Descends .factor words e) :
      Descends .term words e
  /-- A term multiplied or divided by a factor is a term. -/
  | product {op : Operator} {left right : List Lexeme} {l r : Expr}
      (hop : op = .star ∨ op = .slash) (hl : Descends .term left l)
      (hr : Descends .factor right r) :
      Descends .term (left ++ op.lexeme :: right) (.binary op l r)
  /-- A term is an expression. -/
  | term {words : List Lexeme} {e : Expr} (h : Descends .term words e) :
      Descends .expr words e
  /-- A term added to or taken from an expression gives an expression. -/
  | sum {op : Operator} {left right : List Lexeme} {l r : Expr}
      (hop : op = .plus ∨ op = .minus) (hl : Descends .expr left l)
      (hr : Descends .term right r) :
      Descends .expr (left ++ op.lexeme :: right) (.binary op l r)

/-- The kind of phrase that a phrase of the narrower grammar is. -/
def Stage.phrase : Stage → Phrase
  | expr => .expr
  | term => .term
  | factor | element => .power
  | digits => .unary

theorem Descends.derives {stage : Stage} {words : List Lexeme} {e : Expr}
    (h : Descends stage words e) : Derives stage.phrase words e := by
  induction h with
  | number h => exact .number h
  | signed s h => exact .sign (.number h)
  | digits _ ih => exact .unary ih
  | power _ _ ihb ihx => exact .power ihb ihx
  | element _ ih => exact ih
  | group _ ih => exact .unary (.group ih)
  | factor _ ih => exact .factor ih
  | product hop _ _ ihl ihr => exact .product hop ihl ihr
  | term _ ih => exact .term ih
  | sum hop _ _ ihl ihr => exact .sum hop ihl ihr

/-! ## What is missing -/

/-- Words in parentheses that derive an expression. -/
def IsGroup (words : List Lexeme) : Prop :=
  ∃ inner e, Derives .expr inner e ∧ words = .leftParen :: (inner ++ [.rightParen])

/-- Behind these words an operand is due, so that a plus or a minus is a sign. -/
def OperandDue (words : List Lexeme) : Prop :=
  ∀ last ∈ words.getLast?, last ≠ .rightParen ∧ ∀ literal, last ≠ .number literal

/-- Somewhere in the words a group is the base or the exponent of a power, or a sign stands directly
before another sign or before a parenthesis. -/
inductive Departs (words : List Lexeme) : Prop
  | base (before after : List Lexeme) {group : List Lexeme} (hgroup : IsGroup group)
      (h : words = before ++ (group ++ .doubleStar :: after))
  | exponent (before after : List Lexeme) {group : List Lexeme} (hgroup : IsGroup group)
      (h : words = before ++ .doubleStar :: (group ++ after))
  | sign (before after : List Lexeme) {s : Sign} {next : Lexeme} (hdue : OperandDue before)
      (hnext : next = .leftParen ∨ ∃ s' : Sign, next = s'.lexeme)
      (h : words = before ++ s.lexeme :: next :: after)

/-! ### Where an operand is due -/

theorem operandDue_nil : OperandDue [] := by
  rintro last ⟨⟩

theorem operandDue_operator (words : List Lexeme) (op : Operator) :
    OperandDue (words ++ [op.lexeme]) := by
  intro last hlast
  rw [List.getLast?_concat] at hlast
  cases hlast
  cases op <;> simp [Operator.lexeme]

theorem operandDue_sign (words : List Lexeme) (s : Sign) : OperandDue (words ++ [s.lexeme]) := by
  cases s with
  | plus => exact operandDue_operator words .plus
  | minus => exact operandDue_operator words .minus

theorem operandDue_leftParen : OperandDue [.leftParen] := by
  rintro last ⟨rfl⟩
  simp

theorem OperandDue.append {words more : List Lexeme} (h : OperandDue words) (h' : OperandDue more) :
    OperandDue (words ++ more) := by
  intro last hlast
  rw [List.getLast?_append, Option.mem_def, Option.or_eq_some_iff] at hlast
  rcases hlast with hlast | ⟨-, hlast⟩
  · exact h' last hlast
  · exact h last hlast

theorem OperandDue.of_append (words : List Lexeme) {more : List Lexeme}
    (h : OperandDue (words ++ more)) : OperandDue more := by
  intro last hlast
  refine h last ?_
  rw [List.getLast?_append, Option.mem_def.mp hlast]
  rfl

theorem Derives.not_operandDue {phrase : Phrase} {words : List Lexeme} {e : Expr}
    (h : Derives phrase words e) : ¬OperandDue words := by
  induction h with
  | @number literal _ => exact fun hdue ↦ (hdue _ rfl).2 literal rfl
  | @sign s words e _ ih => exact fun hdue ↦ ih (hdue.of_append [s.lexeme])
  | @group words e _ _ => exact fun hdue ↦ (hdue.of_append (.leftParen :: words) _ rfl).1 rfl
  | unary _ ih | factor _ ih | term _ ih => exact ih
  | power _ _ _ ih | product _ _ _ _ ih | sum _ _ _ _ ih =>
    intro hdue
    rw [List.append_cons] at hdue
    exact ih (hdue.of_append _)

theorem Departs.append {words before : List Lexeme} (h : Departs words) (hdue : OperandDue before)
    (after : List Lexeme) : Departs (before ++ (words ++ after)) := by
  cases h with
  | base b a hgroup h => exact .base (before ++ b) (a ++ after) hgroup (by simp [h])
  | exponent b a hgroup h => exact .exponent (before ++ b) (a ++ after) hgroup (by simp [h])
  | @sign b a s next hdue' hnext h =>
    exact .sign (before ++ b) (a ++ after) (hdue.append hdue') hnext (s := s) (by simp [h])

theorem not_departs_of_binary (op : Operator) {left right : List Lexeme}
    (h : ¬Departs (left ++ op.lexeme :: right)) : ¬Departs left ∧ ¬Departs right := by
  refine ⟨fun hleft ↦ h (hleft.append operandDue_nil _), fun hright ↦ h ?_⟩
  have hdeparts := hright.append (operandDue_operator left op) []
  rwa [List.append_nil, ← List.append_cons] at hdeparts

/-! ## Without such a place -/

/-- What a phrase is in the narrower grammar, if it departs nowhere. -/
def Phrase.Narrows (words : List Lexeme) (e : Expr) : Phrase → Prop
  | unary => Descends .digits words e ∨ IsGroup words ∧ Descends .factor words e
  | power => Descends .element words e ∨ IsGroup words ∧ Descends .factor words e
  | term => Descends .term words e
  | expr => Descends .expr words e

theorem Phrase.factor_of_narrows {words : List Lexeme} {e : Expr} (h : power.Narrows words e) :
    Descends .factor words e := by
  rcases h with h | ⟨-, h⟩
  · exact .element h
  · exact h

/-- What departs nowhere is derived by the narrower grammar. -/
theorem Derives.narrows {phrase : Phrase} {words : List Lexeme} {e : Expr}
    (h : Derives phrase words e) (hplain : ¬Departs words) : phrase.Narrows words e := by
  induction h with
  | number h => exact .inl (.number h)
  | @sign s words e h ih =>
    cases h with
    | number h => exact .inl (.signed s h)
    | @sign s' more _ h => exact absurd (.sign [] more operandDue_nil (.inr ⟨s', rfl⟩) rfl) hplain
    | group h => exact absurd (.sign [] _ operandDue_nil (.inl rfl) rfl) hplain
  | @group words e h ih =>
    refine .inr ⟨⟨words, e, h, rfl⟩, .group (ih fun hdeparts ↦ hplain ?_)⟩
    exact hdeparts.append operandDue_leftParen [.rightParen]
  | unary h ih => exact (ih hplain).imp .digits id
  | @power base exponent b x hb hx ihb ihx =>
    obtain ⟨hbase, hexponent⟩ := not_departs_of_binary .power hplain
    rcases ihb hbase with hb | ⟨hgroup, -⟩
    · rcases ihx hexponent with hx | ⟨hgroup, -⟩
      · exact .inl (.power hb hx)
      · exact absurd (.exponent base [] hgroup (by rw [List.append_nil])) hplain
    · exact absurd (.base [] exponent hgroup rfl) hplain
  | factor h ih => exact .factor (Phrase.factor_of_narrows (ih hplain))
  | product hop hl hr ihl ihr =>
    obtain ⟨hleft, hright⟩ := not_departs_of_binary _ hplain
    exact .product hop (ihl hleft) (Phrase.factor_of_narrows (ihr hright))
  | term h ih => exact .term (ih hplain)
  | sum hop hl hr ihl ihr =>
    obtain ⟨hleft, hright⟩ := not_departs_of_binary _ hplain
    exact .sum hop (ihl hleft) (ihr hright)

/-! ## With such a place -/

/-- Two words that never come together in the narrower grammar. -/
inductive Clash (before : List Lexeme) : Lexeme → Lexeme → Prop
  | base : Clash before .rightParen .doubleStar
  | exponent : Clash before .doubleStar .leftParen
  | sign {s : Sign} {next : Lexeme} (hdue : OperandDue before)
      (hnext : next = .leftParen ∨ ∃ s' : Sign, next = s'.lexeme) : Clash before s.lexeme next

/-- Two such words stand next to each other. -/
def Clashes (words : List Lexeme) : Prop :=
  ∃ before x y after, words = before ++ x :: y :: after ∧ Clash before x y

/-- Words that depart clash: the parenthesis of a group next to a power, or a sign and
what stands behind it. -/
theorem Departs.clashes {words : List Lexeme} (h : Departs words) : Clashes words := by
  cases h with
  | base before after hgroup h =>
    obtain ⟨inner, e, -, rfl⟩ := hgroup
    exact ⟨before ++ .leftParen :: inner, _, _, after, by simp [h], .base⟩
  | exponent before after hgroup h =>
    obtain ⟨inner, e, -, rfl⟩ := hgroup
    exact ⟨before, _, _, inner ++ .rightParen :: after, by simp [h], .exponent⟩
  | sign before after hdue hnext h => exact ⟨before, _, _, after, h, .sign hdue hnext⟩

theorem pair_of_append {α : Type} {s t before after : List α} {x y : α}
    (h : s ++ t = before ++ x :: y :: after) :
    (∃ more, s = before ++ x :: y :: more) ∨ (s = before ++ [x] ∧ t = y :: after) ∨
      ∃ more, before = s ++ more ∧ t = more ++ x :: y :: after := by
  rcases List.append_eq_append_iff.mp h with ⟨more, hbefore, ht⟩ | ⟨more, hs, ht⟩
  · exact .inr (.inr ⟨more, hbefore, ht⟩)
  · rcases more with _ | ⟨x', _ | ⟨y', more⟩⟩
    · exact .inr (.inr ⟨[], by simpa using hs.symm, ht.symm⟩)
    · cases ht
      exact .inr (.inl ⟨hs, rfl⟩)
    · cases ht
      exact .inl ⟨more, hs⟩

theorem singleton_ne_pair {α : Type} {before after : List α} {x y z : α} :
    [z] ≠ before ++ x :: y :: after := by
  intro h
  have hlength := congrArg List.length h
  rw [List.length_singleton, List.length_append, List.length_cons, List.length_cons] at hlength
  omega

theorem Clash.of_append (words : List Lexeme) {before : List Lexeme} {x y : Lexeme}
    (h : Clash (words ++ before) x y) : Clash before x y := by
  cases h with
  | base => exact .base
  | exponent => exact .exponent
  | sign hdue hnext => exact .sign (hdue.of_append words) hnext

theorem Clash.next_ne {before : List Lexeme} {x y : Lexeme} (h : Clash before x y) :
    y ≠ .rightParen ∧ ∀ literal, y ≠ .number literal := by
  cases h with
  | base | exponent => simp
  | sign _ hnext =>
    rcases hnext with rfl | ⟨s' | s', rfl⟩
    · simp
    · simp [Sign.lexeme]
    · simp [Sign.lexeme]

/-- Two words clash in a phrase with an operator only if two do in one of its parts, or if the
operator is a power with a group next to it. -/
theorem not_clashes_binary (op : Operator) {left right : List Lexeme} (hleft : ¬Clashes left)
    (hright : ¬Clashes right) (hdue : ¬OperandDue left)
    (hpower : op = .power → left.getLast? ≠ some .rightParen ∧ right.head? ≠ some .leftParen) :
    ¬Clashes (left ++ op.lexeme :: right) := by
  rintro ⟨before, x, y, after, hwords, hclash⟩
  rcases pair_of_append hwords with ⟨more, hmore⟩ | ⟨rfl, hop⟩ | ⟨more, rfl, hmore⟩
  · exact hleft ⟨before, x, y, more, hmore, hclash⟩
  · -- the last word on the left and the operator
    obtain ⟨hy, -⟩ := List.cons.inj hop
    cases hclash with
    | base =>
      have hop := Option.some.inj (Operator.ofLexeme?_eq_some_iff.mpr hy.symm)
      exact (hpower hop.symm).1 List.getLast?_concat
    | exponent => cases Operator.ofLexeme?_eq_some_iff.mpr hy.symm
    | sign _ _ => exact hdue (operandDue_sign before _)
  · cases more with
    | nil =>
      -- the operator and the first word on the right
      obtain ⟨hx, rfl⟩ := List.cons.inj hmore
      cases hclash with
      | base => cases Operator.ofLexeme?_eq_some_iff.mpr hx.symm
      | exponent =>
        have hop := Option.some.inj (Operator.ofLexeme?_eq_some_iff.mpr hx.symm)
        exact (hpower hop.symm).2 rfl
      | sign hdue' _ => exact hdue (by rwa [List.append_nil] at hdue')
    | cons z more =>
      obtain ⟨-, rfl⟩ := List.cons.inj hmore
      rw [List.append_cons] at hclash
      exact hright ⟨more, x, y, after, rfl, hclash.of_append _⟩

theorem not_clashes_group {words : List Lexeme} (h : ¬Clashes words) :
    ¬Clashes (.leftParen :: (words ++ [.rightParen])) := by
  rintro ⟨before, x, y, after, hwords, hclash⟩
  rw [← List.cons_append] at hwords
  rcases pair_of_append hwords with ⟨more, hmore⟩ | ⟨-, hlast⟩ | ⟨more, -, hmore⟩
  · cases before with
    | nil =>
      obtain ⟨hx, -⟩ := List.cons.inj hmore
      cases hclash with
      | @sign s _ _ _ => cases s <;> cases hx
      | _ => cases hx
    | cons z before =>
      obtain ⟨-, rfl⟩ := List.cons.inj hmore
      exact h ⟨before, x, y, more, rfl, hclash.of_append [z]⟩
  · obtain ⟨hy, -⟩ := List.cons.inj hlast
    exact hclash.next_ne.1 hy.symm
  · exact singleton_ne_pair hmore

theorem Descends.of_digits {words : List Lexeme} {e : Expr} (h : Descends .digits words e) :
    words.getLast? ≠ some .rightParen ∧ ∀ more, (words ++ more).head? ≠ some .leftParen := by
  cases h with
  | number h => exact ⟨nofun, nofun⟩
  | signed s h => cases s <;> exact ⟨nofun, nofun⟩

theorem Descends.head?_ne_leftParen {words : List Lexeme} {e : Expr}
    (h : Descends .element words e) : words.head? ≠ some .leftParen := by
  cases h with
  | digits h => exact List.append_nil words ▸ h.of_digits.2 []
  | power hb hx => exact hb.of_digits.2 _

theorem Descends.not_clashes {stage : Stage} {words : List Lexeme} {e : Expr}
    (h : Descends stage words e) : ¬Clashes words := by
  induction h with
  | @number literal h =>
    rintro ⟨before, x, y, after, hwords, -⟩
    exact singleton_ne_pair hwords
  | @signed s literal h =>
    rintro ⟨before, x, y, after, hwords, hclash⟩
    rcases pair_of_append (s := [s.lexeme]) hwords with
      ⟨more, hmore⟩ | ⟨-, hlast⟩ | ⟨more, -, hmore⟩
    · exact singleton_ne_pair hmore
    · obtain ⟨hy, -⟩ := List.cons.inj hlast
      exact hclash.next_ne.2 literal hy.symm
    · exact singleton_ne_pair hmore
  | digits _ ih | element _ ih | factor _ ih | term _ ih => exact ih
  | power hb hx ihb ihx =>
    exact not_clashes_binary .power ihb ihx hb.derives.not_operandDue
      fun _ ↦ ⟨hb.of_digits.1, hx.head?_ne_leftParen⟩
  | group _ ih => exact not_clashes_group ih
  | product hop hl _ ihl ihr =>
    refine not_clashes_binary _ ihl ihr hl.derives.not_operandDue ?_
    rintro rfl
    rcases hop with hop | hop <;> cases hop
  | sum hop hl _ ihl ihr =>
    refine not_clashes_binary _ ihl ihr hl.derives.not_operandDue ?_
    rintro rfl
    rcases hop with hop | hop <;> cases hop

/-! ## Evaluation -/

/-- What is derived is derived by the narrower grammar just if it departs nowhere. -/
theorem Derives.exists_descends_iff {words : List Lexeme} {e : Expr} (h : Derives .expr words e) :
    (∃ e, Descends .expr words e) ↔ ¬Departs words := by
  constructor
  · rintro ⟨e', h'⟩ hdeparts
    exact h'.not_clashes hdeparts.clashes
  · intro hplain
    exact ⟨e, h.narrows hplain⟩

namespace Source

variable {source : Source} {maxDepth : Nat} {tokens : List Token}

theorem answer_of_descends (hitems : source.items = tokens.map Item.token)
    (hdepth : tokens.length < maxDepth) {e : Expr}
    (h : Descends .expr (tokens.map Token.lexeme) e) :
    (source.evaluate maxDepth).answer = .ok e.value :=
  answer_of_derives hitems h.derives
    (Nat.le_trans h.derives.levels_le_length (Nat.le_of_lt hdepth))

/-- **The narrower grammar.** Below a limit greater than their number, tokens that the narrower
grammar derives are evaluated, to the value of the tree that they have there. Of the tokens that are
evaluated, it does not derive those in which somewhere a group is the base or the exponent of a
power, or a sign stands directly before another sign or a parenthesis. These are the only ones, so
on all other inputs the two agree on what is an expression, and on its value. -/
theorem evaluate_descends (hlisting : (Lexer.ofSource source).listing = tokens.map .ok)
    (hdepth : tokens.length < maxDepth) :
    (∀ e, Descends .expr (tokens.map Token.lexeme) e →
      (source.evaluate maxDepth).answer = .ok e.value) ∧
    (∀ value, (source.evaluate maxDepth).answer = .ok value →
      ((¬∃ e, Descends .expr (tokens.map Token.lexeme) e) ↔
        Departs (tokens.map Token.lexeme))) ∧
    (¬Departs (tokens.map Token.lexeme) → ∀ value,
      (source.evaluate maxDepth).answer = .ok value ↔
        ∃ e, Descends .expr (tokens.map Token.lexeme) e ∧ e.value = value) := by
  have hitems := Lexer.listing_ofSource_eq_map_ok_iff.mp hlisting
  have hderives (value : Float) (h : (source.evaluate maxDepth).answer = .ok value) :
      ∃ e, Derives .expr (tokens.map Token.lexeme) e ∧ e.value = value := by
    obtain ⟨tokens', e, hitems', hderives, hvalue⟩ := derives_of_answer h
    obtain rfl : tokens = tokens' :=
      (List.map_inj_right fun _ _ ↦ Item.token.inj).mp (hitems.symm.trans hitems')
    exact ⟨e, hderives, hvalue.symm⟩
  refine ⟨fun e h ↦ answer_of_descends hitems hdepth h, fun value hvalue ↦ ?_,
    fun hplain value ↦ ⟨fun hvalue ↦ ?_, ?_⟩⟩
  · obtain ⟨e, he, -⟩ := hderives value hvalue
    rw [he.exists_descends_iff, Classical.not_not]
  · obtain ⟨e, he, heq⟩ := hderives value hvalue
    exact ⟨e, he.narrows hplain, heq⟩
  · rintro ⟨e, he, rfl⟩
    exact answer_of_descends hitems hdepth he

/-- A group as an exponent is evaluated, but the narrower grammar does not derive it. -/
theorem evaluate_descends_exponent :
    let tokens : List Token :=
      [⟨.number ['2'], 0⟩, ⟨.doubleStar, 1⟩, ⟨.leftParen, 3⟩, ⟨.number ['3'], 4⟩, ⟨.rightParen, 5⟩]
    (Lexer.ofSource ⟨none, "2**(3)"⟩).listing = tokens.map .ok ∧ tokens.length < 9 ∧
      (Source.evaluate ⟨none, "2**(3)"⟩ 9).answer
        = .ok ((Numeral.value ['2']).pow (Numeral.value ['3'])) ∧
      ¬∃ e, Descends .expr (tokens.map Token.lexeme) e := by
  intro tokens
  have hitems : Source.items ⟨none, "2**(3)"⟩ = tokens.map Item.token := by decide +kernel
  have hlisting := Lexer.listing_ofSource_eq_map_ok_iff.mpr hitems
  have hthree : Derives .expr [.number ['3']] (.number ['3']) :=
    .term (.factor (.unary (.number (by decide))))
  have hderives : Derives .expr (tokens.map Token.lexeme)
      (.binary .power (.number ['2']) (.group (.number ['3']))) :=
    .term (.factor (.power (.number (by decide)) (.unary (.group hthree))))
  have hanswer := answer_of_derives hitems hderives (show _ ≤ 9 by decide)
  refine ⟨hlisting, by decide, hanswer, ?_⟩
  exact ((evaluate_descends hlisting (show _ < 9 by decide)).2.1 _ hanswer).mpr
    (.exponent [.number ['2']] [] ⟨_, _, hthree, rfl⟩ rfl)

end Source

end Calculator
