import Calculator.Lexer

/-!
# Evaluation

An expression is read and evaluated in one pass, without a tree in between. `reader` reads down to a
floor: first one operand, then, as long as the token that follows binds tighter than the floor, that
operator and its right operand, which is read down to the operator's own floor. The first token that
does not bind tighter is looked at and left where it is.

## Levels

The operand of a sign, the content of a group and a right operand are read one level further down. A
limit says how many levels there may be, so a reader is given the number that is left: with none
left it refuses whatever comes next. The limit bounds how deep an expression nests and not how long
it is, since a chain of operators stays on one level.

## Why reading ends

Every turn of a chain takes an operator off the input, so the lexer becomes lighter, if no reader
ever puts text back. This is why a reader comes with a proof that it does not.
-/

namespace Calculator

open Lexer (peek next)

/-- A way to read down to a floor which never puts text back. -/
structure Reader where
  /-- Reads down to a floor. -/
  read : Precedence → Pass Float
  /-- What was taken off the input stays taken. -/
  neverGrows : ∀ floor, (read floor).NeverGrows

namespace Reader

/-- Reads an operand: a number, a sign and its operand, or a group. What is inside is read by
`below`. -/
def operand (below : Reader) : Pass Float := do
  let token ← next
  Pass.record (.operand token.lexeme)
  match token.lexeme with
  | .number literal =>
    match Numeral.read? literal with
    | some value => pure value
    | none => Pass.fail (.malformedNumber literal token.offset)
  | .plus => below.read signFloor
  | .minus =>
    let value ← below.read signFloor
    pure (-value)
  | .leftParen =>
    let value ← below.read .lowest
    let close ← next
    if close.lexeme = .rightParen then pure value
    else Pass.fail (.missingClosingParen close token)
  | _ => Pass.fail (.unexpectedToken token)

/-- What a lexeme does after an operand that is read down to a floor. -/
inductive Role where
  /-- The operand ends before it. -/
  | ends
  /-- It has no place there. -/
  | strays
  /-- It goes on with the operand. -/
  | joins (op : Operator)
  deriving DecidableEq

/-- The role of a lexeme: it ends the operand unless it binds tighter than the floor. -/
def role (floor : Precedence) (lexeme : Lexeme) : Role :=
  match lexeme.precedence? with
  | none => .ends
  | some precedence =>
    if floor < precedence then
      match Operator.ofLexeme? lexeme with
      | some op => .joins op
      | none => .strays
    else .ends

/-- Reads an operator and its right operand, if the next token is an operator above the floor, and
gives the value together with `lhs`. -/
def link (below : Reader) (floor : Precedence) (lhs : Float) : Pass (Option Float) := do
  let token ← peek
  match role floor token.lexeme with
  | .ends => pure none
  | .strays => Pass.fail (.unexpectedToken token)
  | .joins op =>
    let _ ← next
    let rhs ← below.read op.rightFloor
    Pass.record (.combined op lhs rhs)
    pure (some (op.apply lhs rhs))

theorem neverGrows_operand (below : Reader) : below.operand.NeverGrows := by
  unfold operand
  refine Lexer.neverGrows_next.bind fun token ↦ (Pass.neverGrows_record _).bind fun _ ↦ ?_
  split
  · split
    · exact Pass.neverGrows_pure _
    · exact Pass.neverGrows_fail _
  · exact below.neverGrows _
  · exact (below.neverGrows _).bind fun _ ↦ Pass.neverGrows_pure _
  · refine (below.neverGrows _).bind fun _ ↦ Lexer.neverGrows_next.bind fun _ ↦ ?_
    split
    · exact Pass.neverGrows_pure _
    · exact Pass.neverGrows_fail _
  · exact Pass.neverGrows_fail _

theorem ne_endOfInput_of_role {floor : Precedence} {lexeme : Lexeme} {op : Operator}
    (h : role floor lexeme = .joins op) : lexeme ≠ .endOfInput := by
  rintro rfl
  cases h

theorem neverGrows_link (below : Reader) (floor : Precedence) (lhs : Float) :
    (below.link floor lhs).NeverGrows := by
  unfold link
  refine Lexer.neverGrows_peek.bind fun token ↦ ?_
  split
  · exact Pass.neverGrows_pure _
  · exact Pass.neverGrows_fail _
  · exact Lexer.neverGrows_next.bind fun _ ↦ (below.neverGrows _).bind fun _ ↦
      (Pass.neverGrows_record _).bind fun _ ↦ Pass.neverGrows_pure _

/-- A link takes its operator off the input. -/
theorem weight_link_lt (below : Reader) (floor : Precedence) (lhs value : Float) (lexer : Lexer)
    (h : ((below.link floor lhs).run lexer).answer = .ok (some value)) :
    ((below.link floor lhs).run lexer).lexer.weight < lexer.weight := by
  unfold link at h ⊢
  cases hpeek : (peek.run lexer).answer with
  | error diagnostic => rw [Pass.run_bind_of_error hpeek] at h; cases h
  | ok token =>
    rw [Pass.run_bind_of_ok hpeek] at h ⊢
    split at h
    · cases h
    · cases h
    · next op hrole =>
      have hheld := Lexer.held_of_peek hpeek
      have hnext : (next.run (peek.run lexer).lexer).answer = .ok token := by
        simp only [next, hheld]
      have hlt := Lexer.weight_next_lt (peek.run lexer).lexer fun offset hend ↦ by
        rw [hnext] at hend
        cases hend
        exact ne_endOfInput_of_role hrole rfl
      rw [Pass.run_bind_of_ok hnext]
      refine Nat.lt_of_le_of_lt ?_ (Nat.lt_of_lt_of_le hlt (Lexer.neverGrows_peek lexer))
      exact ((below.neverGrows _).bind fun _ ↦
        (Pass.neverGrows_record _).bind fun _ ↦ Pass.neverGrows_pure _) _

/-- What a chain comes to from a given place. -/
def chainFrom (below : Reader) (floor : Precedence) (lhs : Float) (lexer : Lexer) : Step Float :=
  let step := (below.link floor lhs).run lexer
  match h : step.answer with
  | .error diagnostic => ⟨.error diagnostic, step.lexer, step.log⟩
  | .ok none => ⟨.ok lhs, step.lexer, step.log⟩
  | .ok (some value) =>
    have := weight_link_lt below floor lhs value lexer h
    let more := chainFrom below floor value step.lexer
    ⟨more.answer, more.lexer, step.log ++ more.log⟩
termination_by lexer.weight

/-- Reads links for as long as there are any, folding their values to the left. -/
def chain (below : Reader) (floor : Precedence) (lhs : Float) : Pass Float where
  run := below.chainFrom floor lhs

/-- A chain is a link and, if there was one, the chain after it. -/
theorem chain_eq (below : Reader) (floor : Precedence) (lhs : Float) :
    below.chain floor lhs = (do
      match ← below.link floor lhs with
      | none => pure lhs
      | some value => below.chain floor value) := by
  ext lexer : 2
  change below.chainFrom floor lhs lexer = _
  rw [chainFrom]
  dsimp only
  split
  · next h => rw [Pass.run_bind_of_error h]
  · next h => rw [Pass.run_bind_of_ok h]; simp
  · next h => rw [Pass.run_bind_of_ok h]; rfl

theorem neverGrows_chain (below : Reader) (floor : Precedence) (lhs : Float) :
    (below.chain floor lhs).NeverGrows := by
  intro lexer
  have hlink := neverGrows_link below floor
  change (below.chainFrom floor lhs lexer).lexer.weight ≤ lexer.weight
  fun_induction chainFrom below floor lhs lexer with
  | case1 => exact hlink _ _
  | case2 => exact hlink _ _
  | case3 lhs lexer step value h hlt more ih => exact Nat.le_trans ih (hlink lhs lexer)

/-- Reads an operand and the operators after it that bind tighter than the floor. -/
def expression (below : Reader) (floor : Precedence) : Pass Float := do
  let lhs ← below.operand
  below.chain floor lhs

/-- Refuses whatever comes next, since the limit is reached. A character that is in no lexeme is
reported as ever. -/
def refuse (limit : Nat) : Pass Float := do
  let token ← peek
  Pass.fail (.depthLimitExceeded limit token)

/-- The reader with a number of levels left of a limit. The reader one level down is made only when
a lexer is there to be read, so a limit that is never reached costs nothing. -/
def ofLevels (limit : Nat) : Nat → Reader
  | 0 =>
    { read := fun _ ↦ refuse limit
      neverGrows := fun _ ↦ Lexer.neverGrows_peek.bind fun _ ↦ Pass.neverGrows_fail _ }
  | levels + 1 =>
    { read := fun floor ↦ ⟨fun lexer ↦ ((ofLevels limit levels).expression floor).run lexer⟩
      neverGrows := fun floor ↦
        (neverGrows_operand _).bind fun _ ↦ neverGrows_chain _ floor _ }

theorem read_ofLevels_zero (limit : Nat) (floor : Precedence) :
    (ofLevels limit 0).read floor = refuse limit := rfl

theorem read_ofLevels_succ (limit levels : Nat) (floor : Precedence) :
    (ofLevels limit (levels + 1)).read floor = (ofLevels limit levels).expression floor := rfl

end Reader

/-- The limit that is taken when none is given. -/
def defaultMaxDepth : Nat := 256

/-- A place in an expression that is being evaluated, and how many levels it may have. -/
structure Evaluator where
  /-- The place. -/
  lexer : Lexer
  /-- The number of levels. -/
  maxDepth : Nat
  deriving DecidableEq, Repr

namespace Evaluator

/-- Evaluates down to a floor and leaves the first token that binds no tighter. -/
def evaluate (maxDepth : Nat) (floor : Precedence) : Pass Float :=
  (Reader.ofLevels maxDepth maxDepth).read floor

/-- Evaluates all that is left; anything after the expression is an error. -/
def evaluateAll (maxDepth : Nat) : Pass Float := do
  let value ← evaluate maxDepth .lowest
  let token ← next
  if token.lexeme = .endOfInput then
    let source ← Pass.source
    Pass.record (.finished source.text value)
    pure value
  else Pass.fail (.unexpectedToken token)

/-- What can be asked of an evaluator. -/
inductive Request where
  /-- Evaluate down to a floor. -/
  | evaluate (floor : Precedence)
  /-- Evaluate all that is left. -/
  | evaluateAll
  /-- Allow another number of levels from now on. -/
  | setMaxDepth (maxDepth : Nat)
  deriving DecidableEq, Repr

/-- Meets a request: the evaluator afterwards, and what an evaluation came to. -/
def meet (evaluator : Evaluator) : Request → Evaluator × Option (Step Float)
  | .evaluate floor =>
    let step := (evaluate evaluator.maxDepth floor).run evaluator.lexer
    ({ evaluator with lexer := step.lexer }, some step)
  | .evaluateAll =>
    let step := (evaluateAll evaluator.maxDepth).run evaluator.lexer
    ({ evaluator with lexer := step.lexer }, some step)
  | .setMaxDepth maxDepth => ({ evaluator with maxDepth := maxDepth }, none)

/-- Meets requests one after another. -/
def meetAll : Evaluator → List Request → List (Option (Step Float))
  | _, [] => []
  | evaluator, request :: requests =>
    let (after, answer) := evaluator.meet request
    answer :: meetAll after requests

end Evaluator

/-- Evaluates a source from its beginning to its end. -/
def Source.evaluate (source : Source) (maxDepth : Nat) : Step Float :=
  (Evaluator.evaluateAll maxDepth).run (.ofSource source)

end Calculator
