import Calculator.Token

/-!
# Operators and how tightly they bind

Where an operand is complete, a token may follow that goes on with the expression. How tightly it
binds decides who takes it: an operand is read down to a *floor*, and takes only what binds tighter
than that. What is left of an operator is read first and what is right of it down to the operator's
own `rightFloor`.

A sum leaves a sum to its right alone, so sums group to the left, and products likewise. A power
reads its exponent down to the floor of a product and so takes a further power into it: powers group
to the right. A sign reads its operand down to a floor above all operators, so it belongs to the one
number or group after it, also before a power.

An opening parenthesis binds tighter than every operator but goes on with nothing: where an operator
could stand it is an error, whatever the floor.
-/

namespace Calculator

/-- How tightly a token binds, from the loosest to the tightest. -/
inductive Precedence where
  | lowest
  | sum
  | product
  | power
  | sign
  | call
  deriving DecidableEq, Repr

namespace Precedence

/-- The place of a precedence in their order. -/
def rank : Precedence → Nat
  | lowest => 0
  | sum => 1
  | product => 2
  | power => 3
  | sign => 4
  | call => 5

instance : LT Precedence := ⟨fun p q ↦ p.rank < q.rank⟩

instance (p q : Precedence) : Decidable (p < q) := inferInstanceAs (Decidable (p.rank < q.rank))

end Precedence

/-- How tightly a lexeme binds to the operand before it; a numeral, a closing parenthesis and the
end of the input do not bind at all. -/
def Lexeme.precedence? : Lexeme → Option Precedence
  | plus | minus => some .sum
  | star | slash => some .product
  | doubleStar => some .power
  | leftParen => some .call
  | number _ | rightParen | endOfInput => none

/-- The operators on two numbers. -/
inductive Operator where
  | plus
  | minus
  | star
  | slash
  | power
  deriving DecidableEq, Repr

namespace Operator

/-- The operator that a lexeme stands for between two operands. -/
def ofLexeme? : Lexeme → Option Operator
  | .plus => some plus
  | .minus => some minus
  | .star => some star
  | .slash => some slash
  | .doubleStar => some power
  | .number _ | .leftParen | .rightParen | .endOfInput => none

/-- The lexeme of an operator. -/
def lexeme : Operator → Lexeme
  | plus => .plus
  | minus => .minus
  | star => .star
  | slash => .slash
  | power => .doubleStar

theorem ofLexeme?_eq_some_iff {lexeme : Lexeme} {op : Operator} :
    ofLexeme? lexeme = some op ↔ lexeme = op.lexeme := by
  cases lexeme <;> cases op <;> simp [ofLexeme?, Operator.lexeme]

/-- The floor down to which the right operand is read. -/
def rightFloor : Operator → Precedence
  | plus | minus => .sum
  | star | slash => .product
  | power => .product

/-- The name of an operator, as the log gives it. -/
def name : Operator → String
  | plus => "Plus"
  | minus => "Minus"
  | star => "Star"
  | slash => "Slash"
  | power => "Power"

/-- The value of an operator at two floats. Nothing is an error: a division by zero gives an
infinity or a value that is not a number. -/
def apply : Operator → Float → Float → Float
  | plus, x, y => x + y
  | minus, x, y => x - y
  | star, x, y => x * y
  | slash, x, y => x / y
  | power, x, y => x.pow y

end Operator

/-- The floor down to which the operand of a sign is read. -/
def signFloor : Precedence := .sign

end Calculator
