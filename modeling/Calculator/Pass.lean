import Calculator.Binary64
import Calculator.Diagnostic
import Calculator.Operator
import Calculator.Text.Quoted

/-!
# Passes over the input

A `Lexer` is a place in a text. A pass starts from a lexer and comes to an answer or a diagnostic,
to the lexer where it stopped, and to the records that it made on the way: together a `Step`. Passes
follow one another as in any monad; the first diagnostic ends the whole, and what was taken off the
input until then stays taken.

## The weight of a lexer

The weight is the number of characters that are still to be scanned, and one more for a token that
was scanned ahead and not yet taken. No pass makes it larger (`NeverGrows`), and taking a token
makes it smaller. That is why reading ends.

## The log

While an expression is read, a record is kept of each token that is found, each token that begins an
operand, each operator whose operands are both known, and in the end of the result. The records stay
values until they are shown, so what the log tells can be stated without its wording.
-/

namespace Calculator

/-! ## Records -/

/-- What the log holds. -/
inductive Record where
  /-- A token was found in the input. -/
  | lexed (token : Token)
  /-- A token was taken where an operand begins. -/
  | operand (lexeme : Lexeme)
  /-- The operands of an operator are known. -/
  | combined (op : Operator) (lhs rhs : Float)
  /-- The whole input was read as one expression. -/
  | finished (text : String) (value : Float)
  deriving DecidableEq

namespace Record

/-- A text in the form that the log quotes it in. -/
def quote (text : List Char) : String := String.ofList (Text.Quoted.encode text)

/-- A float in the form that the log shows it in. -/
def showFloat (x : Float) : String := String.ofList (Binary64.text x)

/-- A record as a line of the log. -/
def line : Record → String
  | lexed token =>
    "TRACE lexed " ++ token.lexeme.kind ++ " " ++ quote token.lexeme.text ++ " at "
      ++ token.offset.repr
  | operand lexeme => "TRACE prefix " ++ lexeme.kind ++ " " ++ quote lexeme.text
  | combined op lhs rhs =>
    "TRACE infix " ++ op.name ++ " " ++ showFloat lhs ++ " " ++ showFloat rhs
  | finished text value => "DEBUG " ++ quote text.toList ++ " = " ++ showFloat value

end Record

/-! ## Steps -/

/-- A place in a text. -/
structure Lexer where
  /-- What is being read. -/
  source : Source
  /-- The text that has not been scanned. -/
  rest : List Char
  /-- Where that text begins. -/
  byte : Nat
  /-- A token that was scanned and not yet taken. -/
  held : Option Token
  /-- Whether the listing of the tokens has come to its end. -/
  ended : Bool
  deriving DecidableEq, Repr

/-- The lexer at the beginning of a source. -/
def Lexer.ofSource (source : Source) : Lexer := ⟨source, source.text.toList, 0, none, false⟩

/-- What is left to be taken: every character that was not scanned, and a token that is held unless
it is the end of the input. -/
def Lexer.weight (lexer : Lexer) : Nat :=
  lexer.rest.length +
    match lexer.held with
    | some token => if token.lexeme = .endOfInput then 0 else 1
    | none => 0

/-- What a pass comes to. -/
structure Step (α : Type) where
  /-- The answer, or what was wrong. -/
  answer : Except Diagnostic α
  /-- Where the pass stopped. -/
  lexer : Lexer
  /-- The records that were made. -/
  log : List Record

/-- A step with some records before its own. -/
def Step.after {α : Type} (step : Step α) (log : List Record) : Step α :=
  { step with log := log ++ step.log }

@[simp] theorem Step.after_after {α : Type} (step : Step α) (log log' : List Record) :
    (step.after log').after log = step.after (log ++ log') := by
  simp only [after, List.append_assoc]

/-- A way to go on from a place in a text. -/
@[ext] structure Pass (α : Type) where
  /-- What the pass comes to from a given place. -/
  run : Lexer → Step α

namespace Pass

variable {α β : Type}

/-- Goes on with `next` if there is an answer. -/
def bind (pass : Pass α) (next : α → Pass β) : Pass β where
  run lexer :=
    let first := pass.run lexer
    match first.answer with
    | .error diagnostic => ⟨.error diagnostic, first.lexer, first.log⟩
    | .ok a =>
      let second := (next a).run first.lexer
      ⟨second.answer, second.lexer, first.log ++ second.log⟩

instance : Monad Pass where
  pure a := ⟨fun lexer ↦ ⟨.ok a, lexer, []⟩⟩
  bind := bind

/-- Stops with a problem. -/
def fail (problem : Problem) : Pass α where
  run lexer := ⟨.error ⟨lexer.source, problem⟩, lexer, []⟩

/-- The source that is being read. -/
def source : Pass Source where
  run lexer := ⟨.ok lexer.source, lexer, []⟩

/-- Makes a record. -/
def record (entry : Record) : Pass Unit where
  run lexer := ⟨.ok (), lexer, [entry]⟩

@[simp] theorem run_pure (a : α) (lexer : Lexer) :
    (pure a : Pass α).run lexer = ⟨.ok a, lexer, []⟩ := rfl

@[simp] theorem run_fail (problem : Problem) (lexer : Lexer) :
    (fail problem : Pass α).run lexer = ⟨.error ⟨lexer.source, problem⟩, lexer, []⟩ := rfl

@[simp] theorem run_source (lexer : Lexer) :
    source.run lexer = ⟨.ok lexer.source, lexer, []⟩ := rfl

@[simp] theorem run_record (entry : Record) (lexer : Lexer) :
    (record entry).run lexer = ⟨.ok (), lexer, [entry]⟩ := rfl

/-- After an answer the next pass goes on from where the first one stopped. -/
theorem run_bind_of_ok {pass : Pass α} {next : α → Pass β} {lexer : Lexer} {a : α}
    (h : (pass.run lexer).answer = .ok a) :
    (pass >>= next).run lexer =
      ⟨((next a).run (pass.run lexer).lexer).answer, ((next a).run (pass.run lexer).lexer).lexer,
        (pass.run lexer).log ++ ((next a).run (pass.run lexer).lexer).log⟩ := by
  change (bind pass next).run lexer = _
  simp only [bind, h]

theorem run_bind_of_error {pass : Pass α} {next : α → Pass β} {lexer : Lexer}
    {diagnostic : Diagnostic} (h : (pass.run lexer).answer = .error diagnostic) :
    (pass >>= next).run lexer =
      ⟨.error diagnostic, (pass.run lexer).lexer, (pass.run lexer).log⟩ := by
  change (bind pass next).run lexer = _
  simp only [bind, h]

theorem run_map (f : α → β) (pass : Pass α) (lexer : Lexer) :
    (f <$> pass).run lexer =
      ⟨(pass.run lexer).answer.map f, (pass.run lexer).lexer, (pass.run lexer).log⟩ := by
  change (pass.bind fun a ↦ pure (f a)).run lexer = _
  cases h : (pass.run lexer).answer with
  | ok a => simp [bind, h, Except.map]
  | error diagnostic => simp [bind, h, Except.map]

section

variable {pass : Pass α} {next : α → Pass β} {lexer after : Lexer} {log : List Record}

theorem run_bind_of_run_ok {a : α} (h : pass.run lexer = ⟨.ok a, after, log⟩) :
    (pass >>= next).run lexer = ((next a).run after).after log := by
  rw [run_bind_of_ok (congrArg Step.answer h), h]
  rfl

theorem run_bind_of_run_error {diagnostic : Diagnostic}
    (h : pass.run lexer = ⟨.error diagnostic, after, log⟩) :
    (pass >>= next).run lexer = ⟨.error diagnostic, after, log⟩ := by
  rw [run_bind_of_error (congrArg Step.answer h), h]

end

/-! ## Passes that never put text back -/

/-- A pass that leaves the lexer no heavier than it was. -/
def NeverGrows (pass : Pass α) : Prop := ∀ lexer, (pass.run lexer).lexer.weight ≤ lexer.weight

theorem neverGrows_pure (a : α) : NeverGrows (pure a) := fun _ ↦ Nat.le_refl _

theorem neverGrows_fail (problem : Problem) : NeverGrows (fail problem : Pass α) :=
  fun _ ↦ Nat.le_refl _

theorem neverGrows_record (entry : Record) : NeverGrows (record entry) := fun _ ↦ Nat.le_refl _

theorem NeverGrows.bind {pass : Pass α} {next : α → Pass β} (hpass : NeverGrows pass)
    (hnext : ∀ a, NeverGrows (next a)) : NeverGrows (pass >>= next) := by
  intro lexer
  cases h : (pass.run lexer).answer with
  | error diagnostic => rw [run_bind_of_error h]; exact hpass lexer
  | ok a => rw [run_bind_of_ok h]; exact Nat.le_trans (hnext a _) (hpass lexer)

end Pass

end Calculator
