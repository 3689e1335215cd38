import Calculator.Proofs.Reading.Lookahead

/-!
# Counting the levels

A reader is given the number of levels that are left to it, and the reader one level down is another
one. Here the same reading is done by an evaluator that has the limit and one counter, both of 64
bits: where a level begins it compares the two and counts up, and where the level ends it counts
down again, after a diagnostic as well as after a value. Both ways of counting are partial, so that
a counter which would wrap around has no outcome. The evaluator calls itself with no measure: its
calls take fuel, and an evaluation is what all the readings with enough fuel agree on, so that a
reading which would not end has no outcome either.

## The invariant

While a reader with a number of levels left is at work, that number and the counter add up to the
limit. So at every level the two evaluators do the same, and the counter is afterwards what it was
before (`Counting.agrees_read`). It never passes the limit, which is why it cannot wrap around, and
some fuel is enough since the reader comes to an end.
-/

namespace Calculator

open Lexer (peek next)

/-- An evaluator that counts the levels that were begun and not ended. -/
structure Counter where
  /-- The place in the text. -/
  lexer : Lexer
  /-- The number of levels that are allowed. -/
  maxDepth : UInt64
  /-- The number of levels that were begun and not ended. -/
  depth : UInt64
  /-- The records that were made. -/
  log : List Record

/-- A reading that counts levels. It has no outcome if the counter would wrap around or the fuel is
used up. -/
abbrev Counting := ExceptT Diagnostic (StateT Counter Option)

namespace Counting

variable {α β : Type}

/-- Reads without counting. -/
def ofPass (pass : Pass α) : Counting α := fun counter ↦
  let step := pass.run counter.lexer
  some (step.answer, { counter with lexer := step.lexer, log := counter.log ++ step.log })

/-- A level begins. -/
def enter : StateT Counter Option Unit := fun counter ↦
  if counter.depth + 1 = 0 then none else some ((), { counter with depth := counter.depth + 1 })

/-- A level ends. -/
def leave : StateT Counter Option Unit := fun counter ↦
  if counter.depth = 0 then none else some ((), { counter with depth := counter.depth - 1 })

/-- Reads an operand: a number, a sign and its operand, or a group. -/
def operand (read : Precedence → Counting Float) : Counting Float := do
  let token ← ofPass next
  ofPass (Pass.record (.operand token.lexeme))
  match token.lexeme with
  | .number literal =>
    match Numeral.read? literal with
    | some value => pure value
    | none => ofPass (Pass.fail (.malformedNumber literal token.offset))
  | .plus => read signFloor
  | .minus =>
    let value ← read signFloor
    pure (-value)
  | .leftParen =>
    let value ← read .lowest
    let close ← ofPass next
    if close.lexeme = .rightParen then pure value
    else ofPass (Pass.fail (.missingClosingParen close token))
  | _ => ofPass (Pass.fail (.unexpectedToken token))

/-- Reads an operator and its right operand, if the next token is an operator above the floor. -/
def link (read : Precedence → Counting Float) (floor : Precedence) (lhs : Float) :
    Counting (Option Float) := do
  let token ← ofPass peek
  match Reader.role floor token.lexeme with
  | .ends => pure none
  | .strays => ofPass (Pass.fail (.unexpectedToken token))
  | .joins op =>
    let _ ← ofPass next
    let rhs ← read op.rightFloor
    ofPass (Pass.record (.combined op lhs rhs))
    pure (some (op.apply lhs rhs))

mutual

/-- Reads down to a floor, one level further down. -/
def read : Nat → Precedence → Counting Float
  | 0, _ => fun _ ↦ none
  | fuel + 1, floor =>
    ((do
      let counter ← get
      if counter.maxDepth ≤ counter.depth then
        ofPass (Reader.refuse counter.maxDepth.toNat)
      else
        enter
        let answer ← expression fuel floor
        leave
        pure answer) : StateT Counter Option (Except Diagnostic Float))

/-- Reads an operand and the operators after it that bind tighter than the floor. -/
def expression : Nat → Precedence → Counting Float
  | 0, _ => fun _ ↦ none
  | fuel + 1, floor => do
    let lhs ← operand (read fuel)
    chain fuel floor lhs

/-- Reads links for as long as there are any. -/
def chain : Nat → Precedence → Float → Counting Float
  | 0, _, _ => fun _ ↦ none
  | fuel + 1, floor, lhs => do
    match ← link (read fuel) floor lhs with
    | none => pure lhs
    | some value => chain fuel floor value

end

/-! ## Agreement with the readers -/

/-- From this counter every reading that has enough fuel does what the pass does, and the depth is
afterwards the same. -/
def Settles (counting : Nat → Counting α) (pass : Pass α) (counter : Counter) : Prop :=
  ∃ enough, ∀ fuel ≥ enough, counting fuel counter = ofPass pass counter

theorem Settles.of_succ {counting : Nat → Counting α} {pass : Pass α} {counter : Counter}
    (h : Settles (fun fuel ↦ counting (fuel + 1)) pass counter) :
    Settles counting pass counter := by
  obtain ⟨enough, henough⟩ := h
  refine ⟨enough + 1, fun fuel hfuel ↦ ?_⟩
  obtain ⟨fuel, rfl⟩ := Nat.exists_eq_add_one_of_ne_zero (Nat.ne_zero_of_lt hfuel)
  exact henough fuel (Nat.le_of_succ_le_succ hfuel)

theorem run_bind_of_ok {counting : Counting α} {next : α → Counting β} {counter after : Counter}
    {a : α} (h : counting counter = some (.ok a, after)) :
    (counting >>= next) counter = next a after := by
  change (counting counter).bind _ = _
  rw [h]
  rfl

theorem run_bind_of_error {counting : Counting α} {next : α → Counting β} {counter after : Counter}
    {diagnostic : Diagnostic} (h : counting counter = some (.error diagnostic, after)) :
    (counting >>= next) counter = some (.error diagnostic, after) := by
  change (counting counter).bind _ = _
  rw [h]
  rfl

/-- Of two readings in a row the second only has to settle where the first one ends. -/
theorem Settles.bind {counting : Nat → Counting α} {pass : Pass α} {next : Nat → α → Counting β}
    {next' : α → Pass β} {counter : Counter} (h : Settles counting pass counter)
    (hnext : ∀ a, (pass.run counter.lexer).answer = .ok a →
      Settles (fun fuel ↦ next fuel a) (next' a) { counter with
        lexer := (pass.run counter.lexer).lexer
        log := counter.log ++ (pass.run counter.lexer).log }) :
    Settles (fun fuel ↦ counting fuel >>= next fuel) (pass >>= next') counter := by
  obtain ⟨enough, henough⟩ := h
  cases hanswer : (pass.run counter.lexer).answer with
  | ok a =>
    obtain ⟨enough', henough'⟩ := hnext a hanswer
    refine ⟨max enough enough', fun fuel hfuel ↦ ?_⟩
    obtain ⟨hle, hle'⟩ := Nat.max_le.mp hfuel
    have hfirst := henough fuel hle
    rw [ofPass, hanswer] at hfirst
    refine (run_bind_of_ok hfirst).trans ((henough' fuel hle').trans ?_)
    rw [ofPass, ofPass, Pass.run_bind_of_ok hanswer]
    simp only [List.append_assoc]
  | error diagnostic =>
    refine ⟨enough, fun fuel hfuel ↦ ?_⟩
    have hfirst := henough fuel hfuel
    rw [ofPass, hanswer] at hfirst
    refine (run_bind_of_error hfirst).trans ?_
    rw [ofPass, Pass.run_bind_of_error hanswer]

/-- At this depth the readings settle on what the pass does, wherever they begin. -/
def Agrees (maxDepth depth : UInt64) (counting : Nat → Counting α) (pass : Pass α) : Prop :=
  ∀ lexer log, Settles counting pass ⟨lexer, maxDepth, depth, log⟩

section

variable {maxDepth depth : UInt64}

theorem agrees_ofPass (pass : Pass α) : Agrees maxDepth depth (fun _ ↦ ofPass pass) pass :=
  fun _ _ ↦ ⟨0, fun _ _ ↦ rfl⟩

theorem agrees_pure (a : α) : Agrees maxDepth depth (fun _ ↦ pure a) (pure a) := by
  refine fun lexer log ↦ ⟨0, fun _ _ ↦ ?_⟩
  simp only [ofPass, Pass.run_pure, List.append_nil]
  rfl

theorem Agrees.bind {counting : Nat → Counting α} {pass : Pass α} {next : Nat → α → Counting β}
    {next' : α → Pass β} (h : Agrees maxDepth depth counting pass)
    (hnext : ∀ a, Agrees maxDepth depth (fun fuel ↦ next fuel a) (next' a)) :
    Agrees maxDepth depth (fun fuel ↦ counting fuel >>= next fuel) (pass >>= next') :=
  fun lexer log ↦ (h lexer log).bind fun a _ ↦ hnext a _ _

variable {below : Reader}
  (hbelow : ∀ floor, Agrees maxDepth depth (fun fuel ↦ read fuel floor) (below.read floor))

include hbelow

theorem agrees_operand : Agrees maxDepth depth (fun fuel ↦ operand (read fuel)) below.operand := by
  rw [Reader.operand]
  refine (agrees_ofPass next).bind fun token ↦ (agrees_ofPass _).bind fun _ ↦ ?_
  obtain ⟨lexeme, offset⟩ := token
  cases lexeme with
  | number literal =>
    dsimp only
    cases Numeral.read? literal with
    | some value => exact agrees_pure _
    | none => exact agrees_ofPass _
  | plus => exact hbelow signFloor
  | minus => exact (hbelow signFloor).bind fun _ ↦ agrees_pure _
  | leftParen =>
    refine (hbelow .lowest).bind fun _ ↦ (agrees_ofPass next).bind fun close ↦ ?_
    split
    · exact agrees_pure _
    · exact agrees_ofPass _
  | _ => exact agrees_ofPass _

theorem agrees_link (floor : Precedence) (lhs : Float) :
    Agrees maxDepth depth (fun fuel ↦ link (read fuel) floor lhs) (below.link floor lhs) := by
  rw [Reader.link]
  refine (agrees_ofPass peek).bind fun token ↦ ?_
  cases Reader.role floor token.lexeme with
  | ends => exact agrees_pure _
  | strays => exact agrees_ofPass _
  | joins op =>
    exact (agrees_ofPass next).bind fun _ ↦ (hbelow op.rightFloor).bind fun rhs ↦
      (agrees_ofPass (Pass.record (.combined op lhs rhs))).bind fun _ ↦ agrees_pure _

theorem agrees_chain (floor : Precedence) (lhs : Float) :
    Agrees maxDepth depth (fun fuel ↦ chain fuel floor lhs) (below.chain floor lhs) := by
  intro lexer log
  -- on the weight of the lexer, which every link lessens
  induction hweight : lexer.weight using Nat.strongRecOn generalizing lhs lexer log with
  | ind weight ih =>
  refine Settles.of_succ ?_
  rw [Reader.chain_eq]
  refine (agrees_link hbelow floor lhs lexer log).bind fun value? hanswer ↦ ?_
  cases value? with
  | none => exact agrees_pure lhs _ _
  | some value =>
    exact ih _ (hweight ▸ below.weight_link_lt floor lhs value lexer hanswer) value _ _ rfl

theorem agrees_expression (floor : Precedence) :
    Agrees maxDepth depth (fun fuel ↦ expression fuel floor) (below.expression floor) := by
  intro lexer log
  refine Settles.of_succ ?_
  rw [Reader.expression]
  exact (agrees_operand hbelow lexer log).bind fun lhs _ ↦ agrees_chain hbelow floor lhs _ _

end

theorem toNat_add_one_of_lt {depth maxDepth : UInt64} (h : depth < maxDepth) :
    (depth + 1).toNat = depth.toNat + 1 := by
  have hbound := maxDepth.toNat_lt
  have hlt := UInt64.lt_iff_toNat_lt.mp h
  rw [UInt64.toNat_add, UInt64.toNat_one, Nat.mod_eq_of_lt (by omega)]

/-- **The counter and the levels that are left add up to the limit.** While they do, the evaluator
that counts and the reader do the same. -/
theorem agrees_read {maxDepth depth : UInt64} {levels : Nat}
    (h : depth.toNat + levels = maxDepth.toNat) (floor : Precedence) :
    Agrees maxDepth depth (fun fuel ↦ read fuel floor)
      ((Reader.ofLevels maxDepth.toNat levels).read floor) := by
  induction levels generalizing depth floor with
  | zero =>
    refine fun lexer log ↦ Settles.of_succ ⟨0, fun fuel _ ↦ ?_⟩
    have hle : maxDepth ≤ depth := UInt64.le_iff_toNat_le.mpr (Nat.le_of_eq h.symm)
    change (if maxDepth ≤ depth then _ else _ : StateT Counter Option _) _ = _
    rw [if_pos hle]
    rfl
  | succ levels ih =>
    intro lexer log
    have hlt : depth < maxDepth := UInt64.lt_iff_toNat_lt.mpr (by omega)
    have hsucc := toNat_add_one_of_lt hlt
    have hbegun : ¬depth + 1 = 0 := fun hzero ↦ by simp [hzero] at hsucc
    have hbelow (floor : Precedence) : Agrees maxDepth (depth + 1) (fun fuel ↦ read fuel floor)
        ((Reader.ofLevels maxDepth.toNat levels).read floor) := ih (by omega) floor
    obtain ⟨enough, henough⟩ := agrees_expression hbelow floor lexer log
    refine Settles.of_succ ⟨enough, fun fuel hfuel ↦ ?_⟩
    have hexpression : expression fuel floor ⟨lexer, maxDepth, depth + 1, log⟩ = _ :=
      henough fuel hfuel
    change (if maxDepth ≤ depth then _ else _ : StateT Counter Option _) _ = _
    rw [if_neg (UInt64.not_le.mpr hlt)]
    change (enter _).bind _ = _
    rw [enter, if_neg hbegun]
    change (expression fuel floor _).bind _ = _
    rw [hexpression, ofPass]
    change (leave _).bind _ = _
    rw [leave, if_neg hbegun, ofPass, Reader.read_ofLevels_succ]
    dsimp only
    rw [UInt64.add_sub_cancel]
    rfl

end Counting

namespace Counter

open Counting

/-- With enough fuel the evaluation down to a floor always leads to this answer and to this
counter. -/
def Evaluates (counter : Counter) (floor : Precedence) (answer : Except Diagnostic Float)
    (after : Counter) : Prop :=
  ∃ enough, ∀ fuel ≥ enough, read fuel floor counter = some (answer, after)

theorem evaluates_iff {counter after : Counter} {answer : Except Diagnostic Float}
    (h : counter.depth = 0) (floor : Precedence) :
    counter.Evaluates floor answer after ↔
      ofPass (Evaluator.evaluate counter.maxDepth.toNat floor) counter = some (answer, after) := by
  obtain ⟨lexer, maxDepth, depth, log⟩ := counter
  obtain rfl : depth = 0 := h
  have hsum : (0 : UInt64).toNat + maxDepth.toNat = maxDepth.toNat := Nat.zero_add _
  obtain ⟨enough, henough⟩ := agrees_read hsum floor lexer log
  constructor
  · rintro ⟨enough', henough'⟩
    exact (henough _ (Nat.le_max_left ..)).symm.trans (henough' _ (Nat.le_max_right ..))
  · exact fun hrun ↦ ⟨enough, fun fuel hfuel ↦ (henough fuel hfuel).trans hrun⟩

/-- The counters that evaluations and changes of the limit lead to, in any order, from the beginning
of a source. -/
inductive Reachable (source : Source) : Counter → Prop
  | start (maxDepth : UInt64) : Reachable source ⟨.ofSource source, maxDepth, 0, []⟩
  | evaluate {counter after : Counter} {answer : Except Diagnostic Float}
      (h : Reachable source counter) (floor : Precedence)
      (hrun : counter.Evaluates floor answer after) : Reachable source after
  | setMaxDepth {counter : Counter} (h : Reachable source counter) (maxDepth : UInt64) :
      Reachable source { counter with maxDepth := maxDepth }

/-- Between evaluations no level is begun, and the place is one that an evaluator comes to. -/
theorem Reachable.evaluator {source : Source} {counter : Counter} (h : counter.Reachable source) :
    counter.depth = 0 ∧ counter.lexer.Along source ∧
      Evaluator.Reachable ⟨counter.lexer, counter.maxDepth.toNat⟩ := by
  induction h with
  | start maxDepth => exact ⟨rfl, Lexer.along_ofSource source, .start source maxDepth.toNat⟩
  | @evaluate counter after answer _ floor hrun ih =>
    obtain ⟨hdepth, halong, hreachable⟩ := ih
    rw [evaluates_iff hdepth, ofPass, Option.some.injEq, Prod.mk.injEq] at hrun
    obtain ⟨-, rfl⟩ := hrun
    refine ⟨hdepth, ?_, hreachable.meet (.evaluate floor)⟩
    exact (Evaluator.keeps_evaluate (Lexer.keeps_along_next source) (Lexer.keeps_along_peek source)
      counter.maxDepth.toNat floor).run halong
  | @setMaxDepth counter _ maxDepth ih =>
    exact ⟨ih.1, ih.2.1, ih.2.2.meet (.setMaxDepth maxDepth.toNat)⟩

/-- **Between evaluations.** Whatever was evaluated before and whatever limits were set, the counter
stands at zero, and an evaluation down to any floor comes to an end without ever wrapping it around,
to what is evaluated below that limit. It leaves the counter at zero again, and the source and the
limit as they were.

Beside a value it leaves the token after what was read, held and scanned last of all. Beside a
diagnostic it stands where the first label ends; the offending token is held if the limit was
reached or if it is an opening parenthesis that stands where it cannot stand, and else it was taken,
but the end of the input comes again. -/
theorem evaluates_of_reachable {source : Source} {counter : Counter} (h : counter.Reachable source)
    (floor : Precedence) :
    counter.depth = 0 ∧ ∃ answer after, counter.Evaluates floor answer after ∧
      ofPass (Evaluator.evaluate counter.maxDepth.toNat floor) counter = some (answer, after) ∧
      after.depth = 0 ∧ after.lexer.source = source ∧ after.maxDepth = counter.maxDepth ∧
      (∀ value, answer = .ok value → ∃ n t, source.itemAt n = .token t ∧
        after.lexer.held = some t ∧ after.lexer.unscanned = source.items.drop (n + 1) ∧
        after.lexer.byte = t.span.stop ∧
        (t.lexeme = .endOfInput → after.lexer.byte = source.text.utf8ByteSize)) ∧
      ∀ diagnostic, answer = .error diagnostic →
        (diagnostic.problem.labels.head?.map fun label ↦ label.span.stop) = some after.lexer.byte ∧
        (∀ t, after.lexer.held = some t ↔
          (∃ limit, diagnostic.problem = .depthLimitExceeded limit t) ∨
            diagnostic.problem = .unexpectedToken t ∧ t.lexeme = .leftParen) ∧
        ∀ t, diagnostic.problem.item = .token t → t.lexeme = .endOfInput →
          (next.run after.lexer).answer = .ok t := by
  obtain ⟨hdepth, halong, hreachable⟩ := h.evaluator
  have hleaves := Evaluator.ensures_evaluate counter.maxDepth.toNat floor _ hreachable.level
  have halong' := (Evaluator.keeps_evaluate (Lexer.keeps_along_next source)
    (Lexer.keeps_along_peek source) counter.maxDepth.toNat floor).run halong
  rcases hstep : (Evaluator.evaluate counter.maxDepth.toNat floor).run counter.lexer with
    ⟨answer, lexer, log⟩
  rw [hstep] at hleaves halong'
  have hrun : ofPass (Evaluator.evaluate counter.maxDepth.toNat floor) counter =
      some (answer, { counter with lexer := lexer, log := counter.log ++ log }) := by
    rw [ofPass, hstep]
  refine ⟨hdepth, answer, _, (evaluates_iff hdepth floor).mpr hrun, hrun, hdepth,
    halong'.source_eq, rfl, ?_, ?_⟩
  · rintro value rfl
    obtain ⟨t, hheld, hbehind⟩ := hleaves
    obtain ⟨n, hitem, hunscanned⟩ := halong'.exists_itemAt hheld
    exact ⟨n, t, hitem, hheld, hunscanned, hbehind.byte, halong'.byte_eq_of_behind hbehind⟩
  · rintro diagnostic rfl
    exact ⟨hleaves.stop_head?_labels, hleaves.held_eq_some_iff, fun t ↦ hleaves.answer_next⟩

/-- In `2(3)` the parenthesis is looked at and stays, and the greatest of all limits is no trouble
to the counter. -/
theorem evaluates_of_reachable_leftParen :
    let source : Source := ⟨none, "2(3)"⟩
    let counter : Counter := ⟨.ofSource source, 18446744073709551615, 0, []⟩
    counter.Reachable source ∧ ∃ after,
      counter.Evaluates .lowest (.error ⟨source, .unexpectedToken ⟨.leftParen, 1⟩⟩) after ∧
        after.depth = 0 ∧ after.lexer.held = some ⟨.leftParen, 1⟩ ∧ after.lexer.byte = 2 := by
  intro source counter
  have hreachable : counter.Reachable source := .start _
  obtain ⟨-, answer, after, hrun, hpass, hdepth, -, -, -, herror⟩ :=
    evaluates_of_reachable hreachable .lowest
  have hahead : counter.lexer.ahead = [.token ⟨.number ['2'], 0⟩, .token ⟨.leftParen, 1⟩,
      .token ⟨.number ['3'], 2⟩, .token ⟨.rightParen, 3⟩] := by
    decide +kernel
  have hanswer : answer = .error ⟨source, .unexpectedToken ⟨.leftParen, 1⟩⟩ := by
    obtain ⟨_, hevaluate, -⟩ := Evaluator.run_evaluate (Lexer.coherent_ofSource source)
      counter.maxDepth.toNat .lowest
    obtain ⟨hreading, -⟩ := counter.lexer.reading_eq_run counter.maxDepth.toNat .lowest
    rw [hahead] at hreading
    rw [ofPass, hevaluate, hreading, Option.some.injEq, Prod.mk.injEq] at hpass
    exact hpass.1.symm
  obtain ⟨hbyte, hheld, -⟩ := herror _ hanswer
  exact ⟨hreachable, after, hanswer ▸ hrun, hdepth, (hheld _).mpr (.inr ⟨rfl, rfl⟩),
    (Option.some.inj hbyte).symm⟩

end Counter

end Calculator
