import Calculator.CommandLine.Invocation
import Calculator.Text

/-!
# What the program prints

Every command comes to an exit code, to a text on the standard output and to reports of what was
wrong. A file and a session are read line by line, and no line knows of another: each is an
expression of its own. A file has to be decoded as a whole before its first line is looked at, while
a session is decoded line by line, so what was answered before a line that cannot be decoded stays
answered.
-/

namespace Calculator

/-- A diagnostic, and the number of the line that it is about if that line stands in a file. -/
structure Report where
  /-- The number of the line. -/
  line : Option Nat
  /-- The diagnostic. -/
  diagnostic : Diagnostic
  deriving DecidableEq, Repr

namespace Report

/-- What a report begins with: for a line of a file its number and the message, and always the
code. -/
def headlines (report : Report) : List String :=
  let problem := report.diagnostic.problem
  match report.line with
  | some number => ["[line " ++ number.repr ++ "] Error: " ++ problem.message, problem.code]
  | none => [problem.code]

/-- A report in full. -/
def lines (report : Report) : List String :=
  let problem := report.diagnostic.problem
  report.headlines ++ ["  × " ++ problem.message]
    ++ problem.labels.map (fun label ↦
      "    " ++ report.diagnostic.source.displayName ++ ":" ++ label.span.offset.repr ++ "+"
        ++ label.span.length.repr ++ ": " ++ label.text)
    ++ ["  help: " ++ problem.help]

end Report

/-- What a command comes to. -/
structure Outcome where
  /-- The exit code. -/
  exitCode : Nat
  /-- The text on the standard output. -/
  output : String
  /-- The reports, in order. -/
  reports : List Report
  deriving DecidableEq, Repr

namespace Outcome

/-- The exit code of a command that did all that it was asked. -/
def success : Nat := 0

/-- The exit code when something could not be read. -/
def unreadable : Nat := 1

/-- The exit code when the arguments make no sense. -/
def misused : Nat := 2

/-- The exit code when an expression was wrong. -/
def wrongInput : Nat := 65

end Outcome

/-! ## Lines -/

/-- What a line comes to. -/
inductive Reply where
  /-- The line is blank and was passed over. -/
  | skipped
  /-- The value of the line. -/
  | value (x : Float)
  /-- What is wrong with the line. -/
  | failed (diagnostic : Diagnostic)
  deriving DecidableEq

namespace Reply

/-- The reply to an expression. -/
def ofSource (maxDepth : Nat) (source : Source) : Reply :=
  match (source.evaluate maxDepth).answer with
  | .ok x => value x
  | .error diagnostic => failed diagnostic

/-- The reply to a line. -/
def ofLine (maxDepth : Nat) (source : Source) : Reply :=
  if Text.isBlankLine source.text.toList then skipped else ofSource maxDepth source

/-- What a reply prints. -/
def output : Reply → String
  | value x => String.ofList (Binary64.text x) ++ "\n"
  | skipped | failed _ => ""

/-- What a reply reports, of a line with this number in a file or of no file. -/
def reports (line : Option Nat) : Reply → List Report
  | failed diagnostic => [⟨line, diagnostic⟩]
  | skipped | value _ => []

/-- Whether a reply is that something is wrong. -/
def isFailed : Reply → Bool
  | failed _ => true
  | skipped | value _ => false

end Reply

/-! ## Commands -/

/-- Evaluates one expression. -/
def evalCommand (maxDepth : Nat) (expression : String) : Outcome :=
  let reply := Reply.ofSource maxDepth ⟨none, expression⟩
  { exitCode := if reply.isFailed then Outcome.wrongInput else Outcome.success
    output := reply.output
    reports := reply.reports none }

/-- An expression is evaluated, and then its value is printed on a line of its own and nothing is
reported, or it is wrong, and then that is reported and nothing is printed. -/
theorem evalCommand_eq (maxDepth : Nat) (expression : String) :
    evalCommand maxDepth expression =
      match (Source.evaluate ⟨none, expression⟩ maxDepth).answer with
      | .ok x => ⟨Outcome.success, String.ofList (Binary64.text x) ++ "\n", []⟩
      | .error diagnostic => ⟨Outcome.wrongInput, "", [⟨none, diagnostic⟩]⟩ := by
  rw [evalCommand, Reply.ofSource]
  cases (Source.evaluate ⟨none, expression⟩ maxDepth).answer with
  | ok x => rfl
  | error diagnostic => rfl

/-- Prints the items of a listing up to the first diagnostic, and says so if the end was met. -/
def printListing : List (Except Diagnostic Token) → Outcome
  | [] => ⟨Outcome.success, Lexeme.endOfInput.display ++ "\n", []⟩
  | .error diagnostic :: _ => ⟨Outcome.wrongInput, "", [⟨none, diagnostic⟩]⟩
  | .ok token :: rest =>
    let more := printListing rest
    { more with output := token.lexeme.display ++ "\n" ++ more.output }

/-- Lists the tokens of an expression. -/
def tokenizeCommand (expression : String) : Outcome :=
  printListing (Lexer.ofSource ⟨none, expression⟩).listing

/-- The replies to the lines of a file, in order. -/
def fileReplies (maxDepth : Nat) (file : String) (text : List Char) : List Reply :=
  (Text.linesOfChars text).map fun line ↦ .ofLine maxDepth ⟨some file, String.ofList line⟩

/-- Evaluates the lines of a decoded file. -/
def runText (maxDepth : Nat) (file : String) (text : List Char) : Outcome :=
  let replies := fileReplies maxDepth file text
  { exitCode := if replies.any Reply.isFailed then Outcome.wrongInput else Outcome.success
    output := String.join (replies.map Reply.output)
    reports := (replies.zipIdx 1).flatMap fun reply ↦ reply.1.reports (some reply.2) }

/-- Evaluates the lines of a file, given its content if there is any. -/
def runCommand (maxDepth : Nat) (file : String) (content : Option ByteArray) : Outcome :=
  match content.bind String.fromUTF8? with
  | none => ⟨Outcome.unreadable, "", []⟩
  | some text => runText maxDepth file text.toList

/-- What is printed before each line of a session is read. -/
def prompt : String := "> "

/-- Answers the lines of a session one after another, up to the end or to a line that cannot be
decoded. -/
def converse (maxDepth : Nat) : List (List UInt8) → Outcome
  | [] => ⟨Outcome.success, prompt, []⟩
  | line :: rest =>
    match String.fromUTF8? ⟨line.toArray⟩ with
    | none => ⟨Outcome.unreadable, prompt, []⟩
    | some text =>
      let reply := Reply.ofLine maxDepth ⟨none, text⟩
      let more := converse maxDepth rest
      { exitCode := more.exitCode
        output := prompt ++ reply.output ++ more.output
        reports := reply.reports none ++ more.reports }

/-- Answers all lines of the standard input. -/
def replCommand (maxDepth : Nat) (input : ByteArray) : Outcome :=
  converse maxDepth (Text.linesOfBytes input.data.toList)

/-- What the program does when it is called with some arguments, where `content` gives the content
of each file that there is and `input` is the standard input. -/
def perform (args : List String) (content : String → Option ByteArray) (input : ByteArray) :
    Outcome :=
  match Invocation.ofArgs? args with
  | none => ⟨Outcome.misused, "", []⟩
  | some ⟨.tokenize expression, _⟩ => tokenizeCommand expression
  | some ⟨.eval expression, maxDepth⟩ => evalCommand maxDepth expression
  | some ⟨.run file, maxDepth⟩ => runCommand maxDepth file (content file)
  | some ⟨.repl, maxDepth⟩ => replCommand maxDepth input

end Calculator
