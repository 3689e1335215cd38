import Calculator.Proofs.Reading.Counter

/-!
# The calls that an evaluation makes

To evaluate down to a floor the evaluator calls itself, for the operand of a sign, for what is in a
group and for each right operand. Here the same evaluation notes its calls: each with the place
where it began, the place where the call began that it was made in, and what it came to (`Visit`).

## The same evaluation

The text of an evaluation is written once, for whatever else its state may have beside a counter
(`Counting.operandIn`, `Counting.linkIn`, `Counting.levelIn`). The evaluator that counts is one
instance of it and the evaluator that notes its calls is another one, so whatever is kept by
composition and holds of what is done to the counter holds of the two evaluators
(`Counting.Relates`). In this way what was noted can be forgotten again, which leaves the evaluation
as it was (`Tracing.erases_read`), and more fuel does not change anything (`Tracing.extends_read`).
-/

namespace Calculator

open Lexer (peek next)

namespace Counting

/-! ## The text of an evaluation -/

section

variable {m : Type → Type} [Monad m] (lift : {α : Type} → StateT Counter Option α → m α)
  (read : Precedence → ExceptT Diagnostic m Float)

/-- Does what a pass does. -/
def passIn {α : Type} (pass : Pass α) : ExceptT Diagnostic m α := lift (ofPass pass)

/-- Reads an operand: a number, a sign and its operand, or a group. -/
def operandIn : ExceptT Diagnostic m Float := do
  let token ← passIn lift next
  passIn lift (Pass.record (.operand token.lexeme))
  match token.lexeme with
  | .number literal =>
    match Numeral.read? literal with
    | some value => pure value
    | none => passIn lift (Pass.fail (.malformedNumber literal token.offset))
  | .plus => read signFloor
  | .minus =>
    let value ← read signFloor
    pure (-value)
  | .leftParen =>
    let value ← read .lowest
    let close ← passIn lift next
    if close.lexeme = .rightParen then pure value
    else passIn lift (Pass.fail (.missingClosingParen close token))
  | _ => passIn lift (Pass.fail (.unexpectedToken token))

/-- Reads an operator and its right operand, if the next token is an operator above the floor. -/
def linkIn (floor : Precedence) (lhs : Float) : ExceptT Diagnostic m (Option Float) := do
  let token ← passIn lift peek
  match Reader.role floor token.lexeme with
  | .ends => pure none
  | .strays => passIn lift (Pass.fail (.unexpectedToken token))
  | .joins op =>
    let _ ← passIn lift next
    let rhs ← read op.rightFloor
    passIn lift (Pass.record (.combined op lhs rhs))
    pure (some (op.apply lhs rhs))

/-- Begins a level, reads and ends the level, or refuses what comes next. -/
def levelIn (expression : Lexer → ExceptT Diagnostic m Float) : ExceptT Diagnostic m Float :=
  ((do
    let counter ← lift get
    if counter.maxDepth ≤ counter.depth then
      passIn lift (Reader.refuse counter.maxDepth.toNat)
    else
      lift enter
      let answer ← expression counter.lexer
      lift leave
      pure answer) : m (Except Diagnostic Float))

end

theorem operand_eq (read : Precedence → Counting Float) : operand read = operandIn id read := rfl

theorem link_eq (read : Precedence → Counting Float) : link read = linkIn id read := rfl

theorem read_succ (fuel : Nat) (floor : Precedence) :
    read (fuel + 1) floor = levelIn id fun _ ↦ expression fuel floor := rfl

/-- A relation of two ways to evaluate that composition keeps and that holds of what is done to the
counter. -/
structure Relates {m n : Type → Type} [Monad m] [Monad n]
    (lift : {α : Type} → StateT Counter Option α → m α)
    (lift' : {α : Type} → StateT Counter Option α → n α) (R : {α : Type} → m α → n α → Prop) :
    Prop where
  pure {α : Type} (a : α) : R (Pure.pure a) (Pure.pure a)
  bind {α β : Type} {first : m α} {first' : n α} {next : α → m β} {next' : α → n β}
    (h : R first first') (hnext : ∀ a, R (next a) (next' a)) :
    R (first >>= next) (first' >>= next')
  lift {α : Type} (run : StateT Counter Option α) : R (lift run) (lift' run)

namespace Relates

variable {m n : Type → Type} [Monad m] [Monad n]
  {lift : {α : Type} → StateT Counter Option α → m α}
  {lift' : {α : Type} → StateT Counter Option α → n α} {R : {α : Type} → m α → n α → Prop}
  (h : Relates lift lift' R)

include h

theorem bindExcept {α β : Type} {first : ExceptT Diagnostic m α} {first' : ExceptT Diagnostic n α}
    {next : α → ExceptT Diagnostic m β} {next' : α → ExceptT Diagnostic n β}
    (hfirst : R first.run first'.run) (hnext : ∀ a, R (next a).run (next' a).run) :
    R (first >>= next).run (first' >>= next').run := by
  refine h.bind hfirst fun answer ↦ ?_
  cases answer with
  | ok a => exact hnext a
  | error diagnostic => exact h.pure _

variable {read : Precedence → ExceptT Diagnostic m Float}
  {read' : Precedence → ExceptT Diagnostic n Float}

theorem operandIn (hread : ∀ floor, R (read floor).run (read' floor).run) :
    R (operandIn lift read).run (Counting.operandIn lift' read').run := by
  refine h.bindExcept (h.lift _) fun token ↦ h.bindExcept (h.lift _) fun _ ↦ ?_
  obtain ⟨lexeme, offset⟩ := token
  cases lexeme with
  | number literal =>
    dsimp only
    cases Numeral.read? literal with
    | some value => exact h.pure _
    | none => exact h.lift _
  | plus => exact hread signFloor
  | minus => exact h.bindExcept (hread signFloor) fun _ ↦ h.pure _
  | leftParen =>
    refine h.bindExcept (hread .lowest) fun _ ↦ h.bindExcept (h.lift _) fun close ↦ ?_
    split
    · exact h.pure _
    · exact h.lift _
  | _ => exact h.lift _

theorem linkIn (hread : ∀ floor, R (read floor).run (read' floor).run) (floor : Precedence)
    (lhs : Float) :
    R (linkIn lift read floor lhs).run (Counting.linkIn lift' read' floor lhs).run := by
  refine h.bindExcept (h.lift _) fun token ↦ ?_
  cases Reader.role floor token.lexeme with
  | ends => exact h.pure _
  | strays => exact h.lift _
  | joins op =>
    exact h.bindExcept (h.lift _) fun _ ↦ h.bindExcept (hread op.rightFloor) fun _ ↦
      h.bindExcept (h.lift _) fun _ ↦ h.pure _

theorem levelIn {expression : Lexer → ExceptT Diagnostic m Float}
    {expression' : Lexer → ExceptT Diagnostic n Float}
    (hexpression : ∀ start, R (expression start).run (expression' start).run) :
    R (levelIn lift expression).run (Counting.levelIn lift' expression').run := by
  refine h.bind (h.lift _) fun counter ↦ ?_
  split
  · exact h.lift _
  · exact h.bind (h.lift _) fun _ ↦ h.bind (hexpression counter.lexer) fun _ ↦
      h.bind (h.lift _) fun _ ↦ h.pure _

end Relates

end Counting

/-! ## Noting the calls -/

/-- A call of the evaluator. -/
structure Visit where
  /-- Where the call began that this one was made in. -/
  outer : Option Lexer
  /-- Where it began. -/
  start : Lexer
  /-- What it came to. -/
  answer : Except Diagnostic Float
  /-- Where it ended. -/
  stop : Lexer

/-- An evaluator that notes its calls. -/
structure Tracer where
  /-- The evaluator. -/
  counter : Counter
  /-- The calls that have ended, in the order in which they did. -/
  visits : List Visit

/-- A reading that notes its calls. -/
abbrev Tracing := ExceptT Diagnostic (StateT Tracer Option)

namespace Tracing

open Counting (operandIn linkIn levelIn)

/-- Does what is done to the counter. -/
def onCounter {α : Type} (run : StateT Counter Option α) : StateT Tracer Option α := fun tracer ↦
  (run tracer.counter).map fun (a, counter) ↦ (a, { tracer with counter := counter })

/-- Notes a call when it has ended. -/
def noting (outer : Option Lexer) (call : Tracing Float) : Tracing Float := fun tracer ↦
  (call tracer).map fun (answer, after) ↦
    let visit : Visit := ⟨outer, tracer.counter.lexer, answer, after.counter.lexer⟩
    (answer, { after with visits := after.visits ++ [visit] })

mutual

/-- Reads down to a floor, one level further down. -/
def read : Nat → Option Lexer → Precedence → Tracing Float
  | 0, _, _ => fun _ ↦ none
  | fuel + 1, outer, floor =>
    noting outer (levelIn onCounter fun start ↦ expression fuel start floor)

/-- Reads an operand and the operators after it that bind tighter than the floor. -/
def expression : Nat → Lexer → Precedence → Tracing Float
  | 0, _, _ => fun _ ↦ none
  | fuel + 1, start, floor => do
    let lhs ← operandIn onCounter (read fuel (some start))
    chain fuel start floor lhs

/-- Reads links for as long as there are any. -/
def chain : Nat → Lexer → Precedence → Float → Tracing Float
  | 0, _, _, _ => fun _ ↦ none
  | fuel + 1, start, floor, lhs => do
    match ← linkIn onCounter (read fuel (some start)) floor lhs with
    | none => pure lhs
    | some value => chain fuel start floor value

end

/-! ## Forgetting what was noted -/

/-- Without its notes the one is the other. -/
def Erases {α : Type} (tracing : StateT Tracer Option α) (counting : StateT Counter Option α) :
    Prop :=
  ∀ tracer, (tracing tracer).map (fun (a, after) ↦ (a, after.counter)) = counting tracer.counter

theorem relates_erases : Counting.Relates onCounter id Erases where
  pure a tracer := rfl
  bind := by
    intro α β first first' next next' h hnext tracer
    change ((first tracer).bind fun p ↦ next p.1 p.2).map _
      = (first' tracer.counter).bind fun p ↦ next' p.1 p.2
    rw [← h tracer]
    cases first tracer with
    | none => rfl
    | some p => exact hnext p.1 p.2
  lift run tracer := by
    change ((run tracer.counter).map _).map _ = run tracer.counter
    rw [Option.map_map]
    exact congrFun Option.map_id _

theorem Erases.noting {call : Tracing Float} {counting : Counting Float}
    (h : Erases call.run counting.run) (outer : Option Lexer) :
    Erases (noting outer call).run counting.run := by
  intro tracer
  refine Eq.trans ?_ (h tracer)
  change ((call tracer).map _).map _ = _
  rw [Option.map_map]
  rfl

mutual

/-- Without its notes this is the evaluation that was counted. -/
theorem erases_read : ∀ (fuel : Nat) (outer : Option Lexer) (floor : Precedence),
    Erases (read fuel outer floor).run (Counting.read fuel floor).run
  | 0, _, _ => fun _ ↦ rfl
  | fuel + 1, outer, floor => by
    rw [Counting.read_succ]
    exact (relates_erases.levelIn fun start ↦ erases_expression fuel start floor).noting outer

theorem erases_expression : ∀ (fuel : Nat) (start : Lexer) (floor : Precedence),
    Erases (expression fuel start floor).run (Counting.expression fuel floor).run
  | 0, _, _ => fun _ ↦ rfl
  | fuel + 1, start, floor => by
    rw [Counting.expression, Counting.operand_eq]
    exact relates_erases.bindExcept (relates_erases.operandIn (erases_read fuel (some start)))
      (erases_chain fuel start floor)

theorem erases_chain : ∀ (fuel : Nat) (start : Lexer) (floor : Precedence) (lhs : Float),
    Erases (chain fuel start floor lhs).run (Counting.chain fuel floor lhs).run
  | 0, _, _, _ => fun _ ↦ rfl
  | fuel + 1, start, floor, lhs => by
    rw [Counting.chain, Counting.link_eq]
    refine relates_erases.bindExcept
      (relates_erases.linkIn (erases_read fuel (some start)) floor lhs) fun value? ↦ ?_
    cases value? with
    | none => exact relates_erases.pure _
    | some value => exact erases_chain fuel start floor value

end

/-! ## Enough fuel -/

/-- What the one comes to, the other comes to as well. -/
def Extends {α : Type} (less more : StateT Tracer Option α) : Prop :=
  ∀ tracer result, less tracer = some result → more tracer = some result

theorem relates_extends : Counting.Relates onCounter onCounter Extends where
  pure a tracer result h := h
  bind := by
    intro α β first first' next next' h hnext tracer result hresult
    obtain ⟨p, hfirst, hsecond⟩ := Option.bind_eq_some_iff.mp hresult
    exact Option.bind_eq_some_iff.mpr ⟨p, h tracer p hfirst, hnext p.1 p.2 result hsecond⟩
  lift run tracer result h := h

theorem Extends.noting {less more : Tracing Float} (h : Extends less.run more.run)
    (outer : Option Lexer) : Extends (noting outer less).run (noting outer more).run := by
  intro tracer result hresult
  obtain ⟨p, hless, rfl⟩ := Option.map_eq_some_iff.mp hresult
  exact Option.map_eq_some_iff.mpr ⟨p, h tracer p hless, rfl⟩

mutual

/-- One unit of fuel more does not change what an evaluation comes to. -/
theorem extends_read_succ : ∀ (fuel : Nat) (outer : Option Lexer) (floor : Precedence),
    Extends (read fuel outer floor).run (read (fuel + 1) outer floor).run
  | 0, _, _ => fun _ _ h ↦ nomatch h
  | fuel + 1, outer, floor =>
    (relates_extends.levelIn fun start ↦ extends_expression_succ fuel start floor).noting outer

theorem extends_expression_succ : ∀ (fuel : Nat) (start : Lexer) (floor : Precedence),
    Extends (expression fuel start floor).run (expression (fuel + 1) start floor).run
  | 0, _, _ => fun _ _ h ↦ nomatch h
  | fuel + 1, start, floor =>
    relates_extends.bindExcept (relates_extends.operandIn (extends_read_succ fuel (some start)))
      (extends_chain_succ fuel start floor)

theorem extends_chain_succ : ∀ (fuel : Nat) (start : Lexer) (floor : Precedence) (lhs : Float),
    Extends (chain fuel start floor lhs).run (chain (fuel + 1) start floor lhs).run
  | 0, _, _, _ => fun _ _ h ↦ nomatch h
  | fuel + 1, start, floor, lhs => by
    refine relates_extends.bindExcept
      (relates_extends.linkIn (extends_read_succ fuel (some start)) floor lhs) fun value? ↦ ?_
    cases value? with
    | none => exact relates_extends.pure _
    | some value => exact extends_chain_succ fuel start floor value

end

theorem extends_read {fuel more : Nat} (hle : fuel ≤ more) (outer : Option Lexer)
    (floor : Precedence) : Extends (read fuel outer floor).run (read more outer floor).run := by
  induction hle with
  | refl => exact fun _ _ h ↦ h
  | @step more _ ih =>
    intro tracer result h
    exact extends_read_succ more outer floor tracer result (ih tracer result h)

end Tracing

namespace Counter

/-- With enough fuel the evaluation down to a floor always leads to this answer and to this counter,
and these are the calls that are made for it, each noted when it has ended. -/
def Traces (counter : Counter) (floor : Precedence) (answer : Except Diagnostic Float)
    (after : Counter) (visits : List Visit) : Prop :=
  ∃ enough, ∀ fuel ≥ enough,
    Tracing.read fuel none floor ⟨counter, []⟩ = some (answer, ⟨after, visits⟩)

variable {counter after : Counter} {floor : Precedence} {answer : Except Diagnostic Float}

/-- **To note the calls changes nothing.** An evaluation that comes to an end has its calls, and
without them it is the same evaluation. -/
theorem evaluates_iff_exists_traces :
    counter.Evaluates floor answer after ↔ ∃ visits, counter.Traces floor answer after visits := by
  constructor
  · rintro ⟨enough, henough⟩
    have herases := Tracing.erases_read enough none floor ⟨counter, []⟩
    obtain ⟨⟨answer', after', visits⟩, hread, heq⟩ :=
      Option.map_eq_some_iff.mp (herases.trans (henough enough (Nat.le_refl _)))
    cases heq
    exact ⟨visits, enough, fun fuel hfuel ↦ Tracing.extends_read hfuel none floor _ _ hread⟩
  · rintro ⟨visits, enough, henough⟩
    refine ⟨enough, fun fuel hfuel ↦ ?_⟩
    have herases := Tracing.erases_read fuel none floor ⟨counter, []⟩
    rw [ExceptT.run, henough fuel hfuel] at herases
    exact herases.symm

/-- Whatever fuel an evaluation comes to an end with, its calls are the same. -/
theorem Traces.eq_of_read {visits : List Visit} (h : counter.Traces floor answer after visits)
    {fuel : Nat} {result : Except Diagnostic Float × Tracer}
    (hread : Tracing.read fuel none floor ⟨counter, []⟩ = some result) :
    result = (answer, ⟨after, visits⟩) := by
  obtain ⟨enough, henough⟩ := h
  have hmore := Tracing.extends_read (Nat.le_max_left fuel enough) none floor _ _ hread
  exact Option.some.inj (hmore.symm.trans (henough _ (Nat.le_max_right fuel enough)))

end Counter

end Calculator
