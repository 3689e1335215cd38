import Calculator.Binary64
import Calculator.Text

/-!
# Tokens

A token is a lexeme and the place where it stands. All places and lengths are counted in bytes of
the UTF-8 encoding. Only a numeral has a text of its own; the text of every other lexeme is fixed,
and that of the end of the input is empty.
-/

namespace Calculator

/-- A stretch of the input. -/
structure Span where
  /-- Where the stretch begins. -/
  offset : Nat
  /-- How long it is. -/
  length : Nat
  deriving DecidableEq, Repr

/-- Where a stretch ends. -/
def Span.stop (span : Span) : Nat := span.offset + span.length

/-- The words of an expression. A numeral is any run of digits and points; whether it denotes a
number is not decided here. -/
inductive Lexeme where
  | number (literal : List Char)
  | plus
  | minus
  | star
  | slash
  | doubleStar
  | leftParen
  | rightParen
  | endOfInput
  deriving DecidableEq, Repr

namespace Lexeme

/-- The characters of a lexeme, as they stand in the input. -/
def text : Lexeme → List Char
  | number literal => literal
  | plus => ['+']
  | minus => ['-']
  | star => ['*']
  | slash => ['/']
  | doubleStar => ['*', '*']
  | leftParen => ['(']
  | rightParen => [')']
  | endOfInput => []

/-- The name of the kind of a lexeme, as the log gives it. -/
def kind : Lexeme → String
  | number _ => "Number"
  | plus => "Plus"
  | minus => "Minus"
  | star => "Star"
  | slash => "Slash"
  | doubleStar => "DoubleStar"
  | leftParen => "LeftParen"
  | rightParen => "RightParen"
  | endOfInput => "EndOfInput"

/-- A lexeme in a listing of tokens: the kind and the text. -/
def display : Lexeme → String
  | number literal => "NUMBER " ++ String.ofList literal
  | plus => "PLUS +"
  | minus => "MINUS -"
  | star => "STAR *"
  | slash => "SLASH /"
  | doubleStar => "DOUBLE_STAR **"
  | leftParen => "LEFT_PAREN ("
  | rightParen => "RIGHT_PAREN )"
  | endOfInput => "EOF"

/-- How a message names a lexeme. -/
def name : Lexeme → String
  | endOfInput => "end of input"
  | lexeme => String.ofList lexeme.text

/-- The lexeme at the head of a text that begins with the character `c`, and the text after it, or
nothing if no lexeme begins with `c`. The lexeme is the longest that fits: a numeral takes every
digit and point there is, and two stars in a row are one lexeme. -/
def munch? (c : Char) (rest : List Char) : Option (Lexeme × List Char) :=
  if c = '+' then some (plus, rest)
  else if c = '-' then some (minus, rest)
  else if c = '*' then
    match rest with
    | '*' :: rest => some (doubleStar, rest)
    | rest => some (star, rest)
  else if c = '/' then some (slash, rest)
  else if c = '(' then some (leftParen, rest)
  else if c = ')' then some (rightParen, rest)
  else if Numeral.isNumeralChar c then
    some (number (c :: rest.takeWhile Numeral.isNumeralChar),
      rest.dropWhile Numeral.isNumeralChar)
  else none

/-- `Munches c rest lexeme after` says that a lexeme is at the head of a text that begins with `c`,
and what follows it: one case for each lexeme. -/
inductive Munches : Char → List Char → Lexeme → List Char → Prop
  | plus (rest : List Char) : Munches '+' rest plus rest
  | minus (rest : List Char) : Munches '-' rest minus rest
  | doubleStar (rest : List Char) : Munches '*' ('*' :: rest) doubleStar rest
  | star {rest : List Char} (h : rest.head? ≠ some '*') : Munches '*' rest star rest
  | slash (rest : List Char) : Munches '/' rest slash rest
  | leftParen (rest : List Char) : Munches '(' rest leftParen rest
  | rightParen (rest : List Char) : Munches ')' rest rightParen rest
  | number {c : Char} {rest : List Char} (h : Numeral.isNumeralChar c = true) :
    Munches c rest (number (c :: rest.takeWhile Numeral.isNumeralChar))
      (rest.dropWhile Numeral.isNumeralChar)

theorem munches_of_munch? {c : Char} {rest : List Char} {lexeme : Lexeme} {after : List Char}
    (h : munch? c rest = some (lexeme, after)) : Munches c rest lexeme after := by
  unfold munch? at h
  split at h
  case isTrue hc =>
    cases h
    exact hc ▸ .plus _
  case isFalse =>
  split at h
  case isTrue hc =>
    cases h
    exact hc ▸ .minus _
  case isFalse =>
  split at h
  case isTrue hc =>
    subst hc
    split at h
    case h_1 rest =>
      cases h
      exact .doubleStar _
    case h_2 hstar =>
      cases h
      refine .star fun hhead ↦ ?_
      obtain ⟨rest, rfl⟩ := List.head?_eq_some_iff.mp hhead
      exact hstar rest rfl
  case isFalse =>
  split at h
  case isTrue hc =>
    cases h
    exact hc ▸ .slash _
  case isFalse =>
  split at h
  case isTrue hc =>
    cases h
    exact hc ▸ .leftParen _
  case isFalse =>
  split at h
  case isTrue hc =>
    cases h
    exact hc ▸ .rightParen _
  case isFalse =>
  split at h
  case isTrue hc =>
    cases h
    exact .number hc
  case isFalse => cases h

/-- A lexeme takes its text off the input and nothing else. -/
theorem text_append_of_munch? {c : Char} {rest : List Char} {lexeme : Lexeme} {after : List Char}
    (h : munch? c rest = some (lexeme, after)) : lexeme.text ++ after = c :: rest := by
  cases munches_of_munch? h with
  | number hc => exact congrArg (c :: ·) List.takeWhile_append_dropWhile
  | _ => rfl

theorem text_ne_nil_of_munch? {c : Char} {rest : List Char} {lexeme : Lexeme} {after : List Char}
    (h : munch? c rest = some (lexeme, after)) : lexeme.text ≠ [] := by
  cases munches_of_munch? h <;> exact List.cons_ne_nil _ _

theorem ne_endOfInput_of_munch? {c : Char} {rest : List Char} {lexeme : Lexeme}
    {after : List Char} (h : munch? c rest = some (lexeme, after)) : lexeme ≠ endOfInput :=
  fun hend ↦ text_ne_nil_of_munch? h (hend ▸ rfl)

theorem length_lt_of_munch? {c : Char} {rest : List Char} {lexeme : Lexeme} {after : List Char}
    (h : munch? c rest = some (lexeme, after)) : after.length < (c :: rest).length := by
  rw [← text_append_of_munch? h, List.length_append]
  have := List.length_pos_iff.mpr (text_ne_nil_of_munch? h)
  omega

end Lexeme

/-- A lexeme and where it begins. -/
structure Token where
  /-- The lexeme. -/
  lexeme : Lexeme
  /-- Where it begins. -/
  offset : Nat
  deriving DecidableEq, Repr

/-- The stretch of the input that a token covers; for the end of the input it is empty. -/
def Token.span (token : Token) : Span := ⟨token.offset, Text.size token.lexeme.text⟩

end Calculator
