import Calculator.Evaluator

/-!
# The same text in another place

A text can stand alone, or as a part of a larger one that begins at some byte of it. What is read is
then the same, and everything that was found stands so many bytes further on. Only two things show
the difference otherwise: a diagnostic names the source it stands in, and the last record of a whole
evaluation shows the text of the source.

## Relocation

`relocate whole start` takes what is said of the part to what is said of the whole, be it a token, a
problem, a record, a lexer or a step. A pass relocates if, started from a relocated lexer, it comes
to the relocated step (`Pass.Relocates`). The calls of a lexer do, and this carries over to whatever
is read through them and to requests in any number (`Evaluator.meetAll_relocate`).
-/

namespace Calculator

/-! ## What is moved -/

/-- A stretch so many bytes further on. -/
def Span.shift (start : Nat) (span : Span) : Span := { span with offset := span.offset + start }

@[simp] theorem Span.stop_shift (start : Nat) (span : Span) :
    (span.shift start).stop = span.stop + start := Nat.add_right_comm _ _ _

/-- A token so many bytes further on. -/
def Token.shift (start : Nat) (token : Token) : Token :=
  { token with offset := token.offset + start }

@[simp] theorem Token.lexeme_shift (start : Nat) (token : Token) :
    (token.shift start).lexeme = token.lexeme := rfl

namespace Problem

/-- A problem so many bytes further on. -/
def shift (start : Nat) : Problem → Problem
  | unexpectedToken found => unexpectedToken (found.shift start)
  | missingClosingParen found opening =>
    missingClosingParen (found.shift start) (opening.shift start)
  | malformedNumber literal offset => malformedNumber literal (offset + start)
  | unrecognizedCharacter c offset => unrecognizedCharacter c (offset + start)
  | depthLimitExceeded limit found => depthLimitExceeded limit (found.shift start)

/-- The labels stand so many bytes further on. -/
theorem labels_shift (start : Nat) (problem : Problem) :
    (problem.shift start).labels
      = problem.labels.map fun label ↦ { label with span := label.span.shift start } := by
  cases problem <;> rfl

/-- What is said of a problem does not depend on where it stands. -/
theorem wording_shift (start : Nat) (problem : Problem) :
    (problem.shift start).code = problem.code ∧ (problem.shift start).message = problem.message ∧
      (problem.shift start).help = problem.help := by
  cases problem <;> exact ⟨rfl, rfl, rfl⟩

end Problem

section

variable (whole : Source) (start : Nat)

/-- A diagnostic about the part, as one about the whole. -/
def Diagnostic.relocate (diagnostic : Diagnostic) : Diagnostic :=
  ⟨whole, diagnostic.problem.shift start⟩

/-- A record of the part, as one of the whole. -/
def Record.relocate : Record → Record
  | .lexed token => .lexed (token.shift start)
  | .operand lexeme => .operand lexeme
  | .combined op lhs rhs => .combined op lhs rhs
  | .finished _ value => .finished whole.text value

/-- A place in the part, as a place in the whole. -/
def Lexer.relocate (lexer : Lexer) : Lexer where
  source := whole
  rest := lexer.rest
  byte := lexer.byte + start
  held := lexer.held.map (Token.shift start)
  ended := lexer.ended

/-- A step in the part, as a step in the whole. -/
def Step.relocate {α β : Type} (f : α → β) (step : Step α) : Step β where
  answer := (step.answer.map f).mapError (Diagnostic.relocate whole start)
  lexer := step.lexer.relocate whole start
  log := step.log.map (Record.relocate whole start)

/-- In the whole the pass `q` does what the pass `p` does in the part, with `f` applied to the
answer. -/
def Pass.Relocates {α β : Type} (f : α → β) (p : Pass α) (q : Pass β) : Prop :=
  ∀ lexer, q.run (lexer.relocate whole start) = (p.run lexer).relocate whole start f

end

section

variable {whole : Source} {start : Nat} {α β γ δ : Type}

namespace Pass

theorem relocates_pure (f : α → β) (a : α) :
    Relocates whole start f (pure a) (pure (f a)) := fun _ ↦ rfl

theorem relocates_fail (f : α → β) (problem : Problem) :
    Relocates whole start f (fail problem) (fail (problem.shift start)) := fun _ ↦ rfl

theorem relocates_record (entry : Record) :
    Relocates whole start id (record entry) (record (entry.relocate whole start)) := fun _ ↦ rfl

theorem relocates_source : Relocates whole start (fun _ ↦ whole) source source := fun _ ↦ rfl

/-- From one lexer, the second pass needs to relocate only where the first one stops. -/
theorem run_bind_relocate {f : α → β} {g : γ → δ} {p : Pass α} {q : Pass β} {next : α → Pass γ}
    {next' : β → Pass δ} {lexer : Lexer}
    (h : q.run (lexer.relocate whole start) = (p.run lexer).relocate whole start f)
    (hnext : ∀ a, (p.run lexer).answer = .ok a →
      (next' (f a)).run ((p.run lexer).lexer.relocate whole start)
        = ((next a).run (p.run lexer).lexer).relocate whole start g) :
    (q >>= next').run (lexer.relocate whole start)
      = ((p >>= next).run lexer).relocate whole start g := by
  cases hanswer : (p.run lexer).answer with
  | ok a =>
    have hmoved : (q.run (lexer.relocate whole start)).answer = .ok (f a) := by
      rw [h, Step.relocate, hanswer]
      rfl
    rw [run_bind_of_ok hmoved, run_bind_of_ok hanswer, h]
    simp only [Step.relocate, hnext a hanswer, List.map_append]
  | error diagnostic =>
    have hmoved : (q.run (lexer.relocate whole start)).answer
        = .error (diagnostic.relocate whole start) := by
      rw [h, Step.relocate, hanswer]
      rfl
    rw [run_bind_of_error hmoved, run_bind_of_error hanswer, h]
    rfl

theorem Relocates.bind {f : α → β} {g : γ → δ} {p : Pass α} {q : Pass β} {next : α → Pass γ}
    {next' : β → Pass δ} (h : Relocates whole start f p q)
    (hnext : ∀ a, Relocates whole start g (next a) (next' (f a))) :
    Relocates whole start g (p >>= next) (q >>= next') :=
  fun lexer ↦ run_bind_relocate (h lexer) fun a _ ↦ hnext a _

end Pass

/-! ## The calls of a lexer -/

namespace Lexer

theorem relocates_scan : Pass.Relocates whole start (Token.shift start) scan scan := by
  intro lexer
  have hbyte (n : Nat) : lexer.byte + start + n = lexer.byte + n + start := Nat.add_right_comm _ _ _
  simp only [scan, relocate, hbyte]
  cases lexer.rest.dropWhile Char.isWhitespace with
  | nil => rfl
  | cons c rest =>
    dsimp only
    cases Lexeme.munch? c rest with
    | some found =>
      obtain ⟨lexeme, rest⟩ := found
      simp only [Step.relocate, relocate, ← Span.stop_shift]
      rfl
    | none =>
      simp only [Step.relocate, relocate, ← Span.stop_shift]
      rfl

theorem relocates_next : Pass.Relocates whole start (Token.shift start) next next := by
  intro lexer
  cases hheld : lexer.held with
  | none =>
    have hscan : scan.run (lexer.relocate whole start)
        = (scan.run lexer).relocate whole start (Token.shift start) := relocates_scan lexer
    simp only [next, relocate, hheld, Option.map_none] at hscan ⊢
    exact hscan
  | some t =>
    simp only [next, relocate, hheld]
    rfl

theorem relocates_peek : Pass.Relocates whole start (Token.shift start) peek peek := by
  intro lexer
  cases hheld : lexer.held with
  | none =>
    have hscan : scan.run (lexer.relocate whole start)
        = (scan.run lexer).relocate whole start (Token.shift start) := relocates_scan lexer
    have hmoved : (lexer.relocate whole start).held = none := by rw [relocate, hheld]; rfl
    simp only [peek, hmoved, hheld, hscan]
    cases hanswer : (scan.run lexer).answer with
    | ok t =>
      simp only [Step.relocate, hanswer]
      rfl
    | error diagnostic =>
      simp only [Step.relocate, hanswer]
      rfl
  | some t =>
    have hmoved : (lexer.relocate whole start).held = some (t.shift start) := by
      rw [relocate, hheld]
      rfl
    simp only [peek, hmoved, hheld]
    rfl

end Lexer

open Lexer (peek next relocates_next relocates_peek)

/-! ## Readers -/

namespace Reader

variable {below : Reader}
  (hbelow : ∀ floor, Pass.Relocates whole start id (below.read floor) (below.read floor))

include hbelow

theorem relocates_operand : Pass.Relocates whole start id below.operand below.operand := by
  unfold operand
  refine relocates_next.bind fun token ↦ (Pass.relocates_record _).bind fun _ ↦ ?_
  obtain ⟨lexeme, offset⟩ := token
  cases lexeme with
  | number literal =>
    dsimp only [Token.lexeme_shift]
    cases Numeral.read? literal with
    | some value => exact Pass.relocates_pure id value
    | none => exact Pass.relocates_fail id _
  | plus => exact hbelow signFloor
  | minus => exact (hbelow signFloor).bind fun value ↦ Pass.relocates_pure id (-value)
  | leftParen =>
    refine (hbelow .lowest).bind fun value ↦ relocates_next.bind fun close ↦ ?_
    rw [Token.lexeme_shift]
    split
    · exact Pass.relocates_pure id value
    · exact Pass.relocates_fail id (.missingClosingParen close ⟨.leftParen, offset⟩)
  | _ => exact Pass.relocates_fail id (.unexpectedToken ⟨_, offset⟩)

theorem relocates_link (floor : Precedence) (lhs : Float) :
    Pass.Relocates whole start id (below.link floor lhs) (below.link floor lhs) := by
  unfold link
  refine relocates_peek.bind fun token ↦ ?_
  rw [Token.lexeme_shift]
  cases role floor token.lexeme with
  | ends => exact Pass.relocates_pure id none
  | strays => exact Pass.relocates_fail id (.unexpectedToken token)
  | joins op =>
    exact relocates_next.bind fun _ ↦ (hbelow op.rightFloor).bind fun rhs ↦
      (Pass.relocates_record (.combined op lhs rhs)).bind fun _ ↦
        Pass.relocates_pure id (some (op.apply lhs rhs))

theorem relocates_chain (floor : Precedence) (lhs : Float) :
    Pass.Relocates whole start id (below.chain floor lhs) (below.chain floor lhs) := by
  intro lexer
  -- on the weight of the lexer, which every link lessens
  induction hweight : lexer.weight using Nat.strongRecOn generalizing lhs lexer with
  | ind weight ih =>
  rw [chain_eq]
  refine Pass.run_bind_relocate (relocates_link hbelow floor lhs lexer) fun value hvalue ↦ ?_
  cases value with
  | none => exact Pass.relocates_pure id lhs _
  | some value => exact ih _ (hweight ▸ below.weight_link_lt floor lhs value lexer hvalue) _ _ rfl

theorem relocates_expression (floor : Precedence) :
    Pass.Relocates whole start id (below.expression floor) (below.expression floor) :=
  (relocates_operand hbelow).bind fun lhs ↦ relocates_chain hbelow floor lhs

end Reader

/-- **Reading does not depend on the place.** -/
theorem Reader.relocates_read (limit levels : Nat) (floor : Precedence) :
    Pass.Relocates whole start id ((ofLevels limit levels).read floor)
      ((ofLevels limit levels).read floor) := by
  induction levels generalizing floor with
  | zero =>
    rw [read_ofLevels_zero]
    exact relocates_peek.bind fun token ↦ Pass.relocates_fail id (.depthLimitExceeded limit token)
  | succ levels ih =>
    rw [read_ofLevels_succ]
    exact relocates_expression ih floor

namespace Evaluator

theorem relocates_evaluate (maxDepth : Nat) (floor : Precedence) :
    Pass.Relocates whole start id (evaluate maxDepth floor) (evaluate maxDepth floor) :=
  Reader.relocates_read maxDepth maxDepth floor

theorem relocates_evaluateAll (maxDepth : Nat) :
    Pass.Relocates whole start id (evaluateAll maxDepth) (evaluateAll maxDepth) := by
  unfold evaluateAll
  refine (relocates_evaluate maxDepth .lowest).bind fun value ↦ relocates_next.bind fun token ↦ ?_
  rw [Token.lexeme_shift]
  split
  · exact Pass.relocates_source.bind fun source ↦
      (Pass.relocates_record (.finished source.text value)).bind fun _ ↦
        Pass.relocates_pure id value
  · exact Pass.relocates_fail id (.unexpectedToken token)

/-- An evaluator of the part, as one of the whole. -/
def relocate (whole : Source) (start : Nat) (evaluator : Evaluator) : Evaluator :=
  { evaluator with lexer := evaluator.lexer.relocate whole start }

theorem meet_relocate (evaluator : Evaluator) (request : Request) :
    (evaluator.relocate whole start).meet request =
      ((evaluator.meet request).1.relocate whole start,
        (evaluator.meet request).2.map (Step.relocate whole start id)) := by
  cases request with
  | evaluate floor =>
    simp only [meet, relocate, relocates_evaluate evaluator.maxDepth floor evaluator.lexer,
      Option.map_some]
    rfl
  | evaluateAll =>
    simp only [meet, relocate, relocates_evaluateAll evaluator.maxDepth evaluator.lexer,
      Option.map_some]
    rfl
  | setMaxDepth maxDepth => rfl

/-- **Requests do not depend on the place.** -/
theorem meetAll_relocate (whole : Source) (start : Nat) (evaluator : Evaluator)
    (requests : List Request) :
    (evaluator.relocate whole start).meetAll requests
      = (evaluator.meetAll requests).map (Option.map (Step.relocate whole start id)) := by
  induction requests generalizing evaluator with
  | nil => rfl
  | cons request requests ih =>
    rw [meetAll, meet_relocate]
    dsimp only
    rw [ih]
    rfl

end Evaluator

end

end Calculator
