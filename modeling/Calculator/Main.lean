import Calculator.CommandLine.Session

/-!
# The program

Reads what a command needs, prints what it comes to and ends with its exit code. A session is
answered line by line, so that every line has its reply before the next one is read.
-/

namespace Calculator

/-- Prints an outcome. -/
def Outcome.print (outcome : Outcome) : IO UInt32 := do
  IO.print outcome.output
  (← IO.getStdout).flush
  for report in outcome.reports do
    for line in report.lines do
      IO.eprintln line
  return outcome.exitCode.toUInt32

/-- The content of a file, if it can be read. -/
def fileContent (file : String) : IO (Option ByteArray) := do
  try
    return some (← IO.FS.readBinFile file)
  catch _ =>
    return none

/-- Prompts for lines and answers them until there are no more. -/
partial def talk (maxDepth : Nat) : IO UInt32 := do
  IO.print prompt
  (← IO.getStdout).flush
  let line ← try pure (some (← (← IO.getStdin).getLine)) catch _ => pure none
  match line with
  | none => return Outcome.unreadable.toUInt32
  | some "" => return Outcome.success.toUInt32
  | some line =>
    for text in Text.linesOfChars line.toList do
      let reply := Reply.ofLine maxDepth ⟨none, String.ofList text⟩
      discard <| Outcome.print ⟨Outcome.success, reply.output, reply.reports none⟩
    talk maxDepth

/-- How the program is to be called. -/
def usage : String :=
  "usage: calculator [--max-depth N] (tokenize EXPR | eval EXPR | run FILE | repl)"

/-- Does what the arguments ask for and gives the exit code. -/
def runProgram (args : List String) : IO UInt32 := do
  match Invocation.ofArgs? args with
  | none =>
    IO.eprintln usage
    return Outcome.misused.toUInt32
  | some ⟨.repl, maxDepth⟩ => talk maxDepth
  | some ⟨.run file, maxDepth⟩ => (runCommand maxDepth file (← fileContent file)).print
  | some _ => (perform args (fun _ ↦ none) ByteArray.empty).print

end Calculator

/-- Runs the program. -/
def main (args : List String) : IO UInt32 := Calculator.runProgram args
