import Calculator.Evaluator

/-!
# The arguments of the program

The program is called with one of four commands. `tokenize` and `eval` take an expression, `run`
takes the name of a file and `repl` takes nothing. The option `--max-depth` may stand before the
command or after it, once in either place, with its value as the next argument or after an equals
sign; the one after the command counts for more.

An expression may begin with a hyphen, since it may begin with a sign, unless it is spelled like the
option. After a lone `--` nothing is an option. Arguments that are not of this form have no meaning,
and no part of them is acted upon.
-/

namespace Calculator

/-- What the program can be asked to do. -/
inductive Command where
  /-- List the tokens of an expression. -/
  | tokenize (expression : String)
  /-- Evaluate an expression. -/
  | eval (expression : String)
  /-- Evaluate each line of a file. -/
  | run (file : String)
  /-- Evaluate each line of the standard input as it comes. -/
  | repl
  deriving DecidableEq, Repr

/-- A command and the limit on levels. -/
structure Invocation where
  /-- The command. -/
  command : Command
  /-- How many levels an expression may have. -/
  maxDepth : Nat
  deriving DecidableEq, Repr

namespace Invocation

/-- Reads a limit: decimal digits, with a plus sign before them if need be, for a number that has 64
bits at most. -/
def readDepth? (text : List Char) : Option Nat :=
  let digits := if text.head? = some '+' then text.tail else text
  let value := Nat.ofDigitChars 10 digits 0
  if digits ≠ [] ∧ digits.all Char.isDigit ∧ value < UInt64.size then some value else none

/-- An argument, by the part that it can play. -/
inductive Word where
  /-- The option with its value, or with none if the value is missing or cannot be read. -/
  | depth (value : Option Nat)
  /-- The end of the options. -/
  | stop
  /-- Anything else. -/
  | plain (text : String)
  deriving DecidableEq, Repr

/-- The spelling of the option. -/
def depthFlag : String := "--max-depth"

/-- An argument that stands for itself or for an option with its value after an equals sign. -/
def Word.ofString (text : String) : Word :=
  let flag := (depthFlag ++ "=").toList
  if flag.isPrefixOf text.toList then .depth (readDepth? (text.toList.drop flag.length))
  else .plain text

/-- The words of the arguments. What follows the option is its value, whatever it is spelled like,
and after the end of the options every argument is plain. -/
def words : List String → List Word
  | [] => []
  | [text] =>
    if text = depthFlag then [.depth none]
    else if text = "--" then [.stop]
    else [.ofString text]
  | text :: value :: rest =>
    if text = depthFlag then .depth (readDepth? value.toList) :: words rest
    else if text = "--" then .stop :: (value :: rest).map .plain
    else .ofString text :: words (value :: rest)

/-- What was given after a command. -/
structure Given where
  /-- The limit. -/
  depth : Option Nat
  /-- The expression or the file. -/
  operand : Option String
  deriving DecidableEq, Repr

/-- Takes the operand, which can be given once. -/
def Given.take? (given : Given) (text : String) : Option Given :=
  if given.operand.isNone then some { given with operand := some text } else none

/-- Takes the limit, which can be given once. -/
def Given.limit? (given : Given) (depth : Nat) : Option Given :=
  if given.depth.isNone then some { given with depth := some depth } else none

/-- What is given after a command, if it is given as it should be. Before the end of the options an
operand has to be `admitted`. -/
def given? (admitted : String → Bool) : Given → List Word → Option Given
  | given, [] => some given
  | given, .depth (some depth) :: rest => do given? admitted (← given.limit? depth) rest
  | _, .depth none :: _ => none
  | given, .plain text :: rest =>
    if admitted text then do given? admitted (← given.take? text) rest else none
  | given, .stop :: rest =>
    rest.foldlM (fun given word ↦
      match word with
      | .plain text => given.take? text
      | _ => none) given

/-- A name of a file does not begin like an option; a lone hyphen is one. -/
def isFileName (text : String) : Bool := text.toList.head? ≠ some '-' || text = "-"

/-- The command of a name and what was given after it, with the limit if one was given there. -/
def command? (name : String) (rest : List Word) : Option (Command × Option Nat) :=
  let nothing : Given := ⟨none, none⟩
  match name with
  | "tokenize" => do
    let given ← given? (fun _ ↦ true) nothing rest
    pure (.tokenize (← given.operand), given.depth)
  | "eval" => do
    let given ← given? (fun _ ↦ true) nothing rest
    pure (.eval (← given.operand), given.depth)
  | "run" => do
    let given ← given? isFileName nothing rest
    let file ← given.operand
    if file = "" then none else pure (.run file, given.depth)
  | "repl" => do
    let given ← given? (fun _ ↦ true) nothing rest
    if given.operand.isSome then none else pure (.repl, given.depth)
  | _ => none

/-- The invocation that words stand for; `depth` is the limit that was given already. -/
def ofWords? (depth : Option Nat) : List Word → Option Invocation
  | .depth (some value) :: rest => if depth.isNone then ofWords? (some value) rest else none
  | .plain name :: rest => do
    let (command, own) ← command? name rest
    pure ⟨command, (own.or depth).getD defaultMaxDepth⟩
  | _ => none

/-- The invocation that arguments stand for, if they stand for one. -/
def ofArgs? (args : List String) : Option Invocation := ofWords? none (words args)

end Invocation

end Calculator
