import Calculator.Operator

/-!
# Expressions and their grammar

The evaluator needs no tree, but what it computes is best said of one: the words of a tree, its
value, and how many levels it takes. A group is a node of its own, so that a tree has one spelling
in words, its `lexemes`.

## Two measures of depth

`levels` counts what the evaluator counts: the operand of a sign, the content of a group and every
right operand lie one level below, while a left operand stays on the level of the whole. `nesting`
counts what a reader sees: signs, groups and the exponents of powers nest, while a chain of sums and
products is flat. The two agree within a factor of three, since between one nested phrase and the
next inside it at most a sum and a product can come.

## The grammar

Which sequences of words are expressions, and what tree each of them has:

```text
expr  := term  {(+|-) term}
term  := power {(*|/) power}
power := unary [** power]
unary := (+|-) unary | NUMBER | ( expr )
```

A repetition groups to the left and a power to the right. A sign applies to the one operand after
it and binds tighter than a power, so `-2**2` is the square of `-2`.

The grammar says nothing of precedences or floors. A floor stands for one of the four kinds of
phrase, `Precedence.phrase`: what is read down to it is the longest phrase of that kind.
-/

namespace Calculator

/-! ## Trees -/

/-- The signs that may stand before an operand. -/
inductive Sign where
  | plus
  | minus
  deriving DecidableEq, Repr

/-- The lexeme of a sign. -/
def Sign.lexeme : Sign → Lexeme
  | plus => .plus
  | minus => .minus

/-- What a sign does to a number. -/
def Sign.apply : Sign → Float → Float
  | plus, x => x
  | minus, x => -x

/-- An expression as a tree. -/
inductive Expr where
  /-- A numeral. -/
  | number (literal : List Char)
  /-- An operand with a sign. -/
  | sign (s : Sign) (operand : Expr)
  /-- An expression in parentheses. -/
  | group (content : Expr)
  /-- Two operands and an operator between them. -/
  | binary (op : Operator) (lhs rhs : Expr)
  deriving DecidableEq, Repr

namespace Expr

/-- The words of an expression. -/
def lexemes : Expr → List Lexeme
  | number literal => [.number literal]
  | sign s operand => s.lexeme :: operand.lexemes
  | group content => .leftParen :: (content.lexemes ++ [.rightParen])
  | binary op lhs rhs => lhs.lexemes ++ op.lexeme :: rhs.lexemes

/-- The value of an expression. -/
def value : Expr → Float
  | number literal => Numeral.value literal
  | sign s operand => s.apply operand.value
  | group content => content.value
  | binary op lhs rhs => op.apply lhs.value rhs.value

/-- How many levels an expression takes. -/
def levels : Expr → Nat
  | number _ => 1
  | sign _ operand => 1 + operand.levels
  | group content => 1 + content.levels
  | binary _ lhs rhs => max lhs.levels (1 + rhs.levels)

/-- How deep an expression nests. -/
def nesting : Expr → Nat
  | number _ => 0
  | sign _ operand => 1 + operand.nesting
  | group content => 1 + content.nesting
  | binary .power lhs rhs => max lhs.nesting (1 + rhs.nesting)
  | binary _ lhs rhs => max lhs.nesting rhs.nesting

theorem lexemes_ne_nil (e : Expr) : e.lexemes ≠ [] := by
  cases e <;> simp [lexemes]

end Expr

/-! ## Phrases -/

/-- The kinds of phrase. -/
inductive Phrase where
  | expr
  | term
  | power
  | unary
  deriving DecidableEq, Repr

/-- `Derives phrase words e` says that the words form a phrase of the kind, with the tree `e`. -/
inductive Derives : Phrase → List Lexeme → Expr → Prop where
  /-- A numeral that denotes a number is an operand. -/
  | number {literal : List Char} (h : Numeral.WellFormed literal) :
      Derives .unary [.number literal] (.number literal)
  /-- A sign and an operand are an operand. -/
  | sign {s : Sign} {words : List Lexeme} {e : Expr} (h : Derives .unary words e) :
      Derives .unary (s.lexeme :: words) (.sign s e)
  /-- An expression in parentheses is an operand. -/
  | group {words : List Lexeme} {e : Expr} (h : Derives .expr words e) :
      Derives .unary (.leftParen :: (words ++ [.rightParen])) (.group e)
  /-- An operand is a power. -/
  | unary {words : List Lexeme} {e : Expr} (h : Derives .unary words e) :
      Derives .power words e
  /-- An operand raised to a power is a power. -/
  | power {base exponent : List Lexeme} {b x : Expr} (hb : Derives .unary base b)
      (hx : Derives .power exponent x) :
      Derives .power (base ++ .doubleStar :: exponent) (.binary .power b x)
  /-- A power is a term. -/
  | factor {words : List Lexeme} {e : Expr} (h : Derives .power words e) :
      Derives .term words e
  /-- A term multiplied or divided by a power is a term. -/
  | product {op : Operator} {left right : List Lexeme} {l r : Expr}
      (hop : op = .star ∨ op = .slash) (hl : Derives .term left l)
      (hr : Derives .power right r) :
      Derives .term (left ++ op.lexeme :: right) (.binary op l r)
  /-- A term is an expression. -/
  | term {words : List Lexeme} {e : Expr} (h : Derives .term words e) :
      Derives .expr words e
  /-- A term added to or taken from an expression gives an expression. -/
  | sum {op : Operator} {left right : List Lexeme} {l r : Expr}
      (hop : op = .plus ∨ op = .minus) (hl : Derives .expr left l)
      (hr : Derives .term right r) :
      Derives .expr (left ++ op.lexeme :: right) (.binary op l r)

/-- The kind of phrase that is read down to a floor. -/
def Precedence.phrase : Precedence → Phrase
  | lowest => .expr
  | sum => .term
  | product => .power
  | power | sign | call => .unary

/-- The words of a phrase are those of its tree. -/
theorem Derives.lexemes_eq {phrase : Phrase} {words : List Lexeme} {e : Expr}
    (h : Derives phrase words e) : e.lexemes = words := by
  induction h <;> simp_all [Expr.lexemes, Operator.lexeme]

end Calculator
