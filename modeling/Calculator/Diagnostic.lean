import Calculator.Token

/-!
# Diagnostics

What can be wrong with an expression, and how it is reported. A `Problem` holds the tokens that it
is about and nothing that can be worked out from them: the code, the message, the advice and the
labelled stretches of the input are functions of it. A `Diagnostic` says in which source the problem
stands.
-/

namespace Calculator

/-- A text to be read, and the name of the file that it comes from, if it comes from one. -/
structure Source where
  /-- The name of the file. -/
  name : Option String
  /-- The whole text. -/
  text : String
  deriving DecidableEq, Repr

/-- What a report calls a source. -/
def Source.displayName (source : Source) : String := source.name.getD "<input>"

/-- What can be wrong with an expression. -/
inductive Problem where
  /-- A token stands where it cannot stand. -/
  | unexpectedToken (found : Token)
  /-- A group that was opened is not closed where its content ends. -/
  | missingClosingParen (found opening : Token)
  /-- A numeral denotes no number. -/
  | malformedNumber (literal : List Char) (offset : Nat)
  /-- A character that is in no lexeme. -/
  | unrecognizedCharacter (character : Char) (offset : Nat)
  /-- More levels are begun, one inside the other, than the limit allows; the token is the one that
  the level over the limit would begin with. -/
  | depthLimitExceeded (limit : Nat) (found : Token)
  deriving DecidableEq, Repr

/-- A stretch of the input with a remark. -/
structure Label where
  /-- The remark. -/
  text : String
  /-- The stretch. -/
  span : Span
  deriving DecidableEq, Repr

namespace Problem

/-- The fixed code of each kind of problem. -/
def code : Problem → String
  | unexpectedToken _ => "arith::unexpected_token"
  | missingClosingParen _ _ => "arith::missing_closing_paren"
  | malformedNumber _ _ => "arith::malformed_number"
  | unrecognizedCharacter _ _ => "arith::unrecognized_character"
  | depthLimitExceeded _ _ => "arith::depth_limit_exceeded"

/-- What is wrong, in one line. -/
def message : Problem → String
  | unexpectedToken found => "Unexpected token '" ++ found.lexeme.name ++ "'"
  | missingClosingParen _ _ => "missing closing parenthesis"
  | malformedNumber literal _ => "malformed number literal '" ++ String.ofList literal ++ "'"
  | unrecognizedCharacter c _ => "Unexpected character '" ++ String.singleton c ++ "'"
  | depthLimitExceeded limit _ => "expression nests deeper than " ++ limit.repr ++ " levels"

/-- What to do about it. -/
def help : Problem → String
  | unexpectedToken _ =>
    "expected a number, a unary sign or `(` before this point, or an operator after it"
  | missingClosingParen _ _ => "add a `)` to close the group"
  | malformedNumber _ _ => "a number is digits with at most one `.`, e.g. `4.0` or `.5`"
  | unrecognizedCharacter c _ =>
    "remove or correct the character: `" ++ String.singleton c ++ "`"
  | depthLimitExceeded _ _ => "simplify the expression or raise the depth limit"

/-- The stretch that a problem is about. -/
def span : Problem → Span
  | unexpectedToken found => found.span
  | missingClosingParen found _ => found.span
  | malformedNumber literal offset => ⟨offset, Text.size literal⟩
  | unrecognizedCharacter c offset => ⟨offset, c.utf8Size⟩
  | depthLimitExceeded _ found => found.span

/-- What is said of that stretch. -/
def remark : Problem → String
  | unexpectedToken _ => "this token"
  | missingClosingParen _ _ => "expected `)` here"
  | malformedNumber _ _ => "this numeric literal"
  | unrecognizedCharacter _ _ => "this character"
  | depthLimitExceeded _ _ => "limit reached here"

/-- The labels of a problem: that of the stretch it is about, and for a group that is not closed
that of the parenthesis that opened it. -/
def labels (problem : Problem) : List Label :=
  ⟨problem.remark, problem.span⟩ ::
    match problem with
    | missingClosingParen _ opening => [⟨"unclosed `(`", opening.span⟩]
    | _ => []

/-- Where a problem stands. -/
def offset (problem : Problem) : Nat := problem.span.offset

end Problem

/-- A problem and the source it stands in. -/
structure Diagnostic where
  /-- The source. -/
  source : Source
  /-- The problem. -/
  problem : Problem
  deriving DecidableEq, Repr

end Calculator
