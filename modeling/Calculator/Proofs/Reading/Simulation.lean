import Calculator.Proofs.Reading.Machine

/-!
# Readers follow the machine

A reader does what the machine does between two heights of its stack: it begins when an operand is
due, and it comes back when the operand is complete and what goes on with it has been read, which is
when the machine hands the operand to the frame that waits for it. The number of levels that are
left to a reader and the number of frames below it add up to the limit.

## How the two are compared

A reader comes back with a value, having looked at the token after it; the machine has a tree of
that value then and reacts to that token. Or the reader fails, and the machine has stopped at the
same problem, with the same items left (`Follows`). The reading of a single operand comes back
before the next token is looked at, so for it the comparison is with the machine's run from there
(`Begins`).

All of a reader's calls are followed in the same way: what a call comes to is compared from the
lexer that the call began with, and moved back to an earlier lexer together with the records made on
the way (`Follows.after`).
-/

namespace Calculator

theorem Pass.map_apply_plus (pass : Pass Float) : Sign.plus.apply <$> pass = pass := by
  ext lexer : 2
  rw [run_map]
  obtain ⟨answer, last, log⟩ := pass.run lexer
  cases answer <;> rfl

namespace Machine

/-! ## Behind a lexer -/

/-- The run of the machine on what is ahead of a lexer. A token that is held was recorded before. -/
def runFrom (limit : Nat) (state : State) (lexer : Lexer) : Result :=
  (resume limit lexer.finish lexer.ahead (state.step limit lexer.front)).after lexer.frontLog

section

variable {limit : Nat} {state next : State} {lexer after : Lexer} {log : List Record}

theorem runFrom_of_held_none (h : lexer.held = none) :
    runFrom limit state lexer = run limit lexer.finish state lexer.ahead := by
  rw [runFrom, run_eq, Lexer.frontLog_of_held_none h]
  rfl

theorem runFrom_of_go (hmoves : lexer.MovesTo after lexer.ahead.tail none)
    (h : state.step limit lexer.front = ⟨.go next, log⟩) :
    runFrom limit state lexer = (runFrom limit next after).after (lexer.frontLog ++ log) := by
  rw [runFrom_of_held_none hmoves.held, hmoves.finish, hmoves.ahead, runFrom, h, resume,
    Result.after_after]

theorem runFrom_of_take {answer : Except Problem Expr}
    (hmoves : lexer.MovesTo after lexer.ahead.tail none)
    (h : state.step limit lexer.front = ⟨.take answer, log⟩) :
    runFrom limit state lexer
      = ⟨answer, after.ahead, after.held.isSome, lexer.frontLog ++ log⟩ := by
  rw [hmoves.held, hmoves.ahead, runFrom, h]
  rfl

theorem runFrom_of_keep {answer : Except Problem Expr} {t : Token}
    (hmoves : lexer.MovesTo after lexer.ahead (some t))
    (h : state.step limit lexer.front = ⟨.keep answer, log⟩) :
    runFrom limit state lexer
      = ⟨answer, after.ahead, after.held.isSome, lexer.frontLog ++ log⟩ := by
  rw [hmoves.held, hmoves.ahead, runFrom, h]
  rfl

theorem runFrom_operator_of_held {t : Token} (hc : lexer.Coherent) (h : lexer.held = some t)
    (e : Expr) (floor : Precedence) (frames : List Frame) :
    runFrom limit ⟨.operator e, floor, frames⟩ lexer
      = resume limit lexer.finish lexer.ahead (settle t e floor frames) := by
  rw [runFrom, Lexer.front_of_held_some hc h, Lexer.frontLog_of_held_some h]
  rfl

end

/-! ## Readers follow the machine

`Follows` compares what a reader came to with a result of the machine, for an operand that some
frames wait for: either the operand was read, the token after it is held, and the machine has the
operand still to release; or both stopped at the same problem in the same place. `Begins` is the
same for a single operand, after which the machine has yet to see what comes. -/

/-- What a reader came to from a lexer, compared with a result of the machine. -/
inductive Follows (limit : Nat) (frames : List Frame) (lexer : Lexer) (result : Result) :
    Step Float → Prop
  | done {e : Expr} {t : Token} {after : Lexer} {log : List Record}
      (hmoves : lexer.MovesTo after after.ahead (some t))
      (h : result = (resume limit after.finish after.ahead (release t e frames)).after log) :
      Follows limit frames lexer result ⟨.ok e.value, after, log⟩
  | wrong {problem : Problem} {after : Lexer} {log : List Record}
      (hmoves : lexer.MovesTo after after.ahead after.held)
      (h : result = ⟨.error problem, after.ahead, after.held.isSome, log⟩) :
      Follows limit frames lexer result ⟨.error ⟨lexer.source, problem⟩, after, log⟩

/-- What the reading of one operand came to from a lexer, compared with a result of the machine. -/
inductive Begins (limit : Nat) (floor : Precedence) (frames : List Frame) (lexer : Lexer)
    (result : Result) : Step Float → Prop
  | done {e : Expr} {after : Lexer} {log : List Record}
      (hmoves : lexer.MovesTo after after.ahead after.held)
      (h : result = (runFrom limit ⟨.operator e, floor, frames⟩ after).after log) :
      Begins limit floor frames lexer result ⟨.ok e.value, after, log⟩
  | wrong {problem : Problem} {after : Lexer} {log : List Record}
      (hmoves : lexer.MovesTo after after.ahead after.held)
      (h : result = ⟨.error problem, after.ahead, after.held.isSome, log⟩) :
      Begins limit floor frames lexer result ⟨.error ⟨lexer.source, problem⟩, after, log⟩

/-- A reader follows the machine from wherever it begins. -/
def FollowsFrom (limit : Nat) (floor : Precedence) (frames : List Frame) (pass : Pass Float) :
    Prop :=
  ∀ lexer, lexer.Coherent →
    Follows limit frames lexer (runFrom limit ⟨.operand, floor, frames⟩ lexer) (pass.run lexer)

section

variable {limit : Nat} {floor : Precedence} {frames : List Frame} {lexer mid : Lexer}
  {result : Result} {step : Step Float}

theorem Follows.after (h : Follows limit frames mid result step) {items : List Item}
    {held : Option Token} (hmoves : lexer.MovesTo mid items held) (log : List Record) :
    Follows limit frames lexer (result.after log) (step.after log) := by
  rcases h with ⟨hmore, h⟩ | ⟨hmore, h⟩
  · exact .done (hmoves.trans hmore) (by rw [h, Result.after_after])
  · rw [hmoves.source]
    exact .wrong (hmoves.trans hmore) (by rw [h]; rfl)

theorem Begins.after (h : Begins limit floor frames mid result step) {items : List Item}
    {held : Option Token} (hmoves : lexer.MovesTo mid items held) (log : List Record) :
    Begins limit floor frames lexer (result.after log) (step.after log) := by
  rcases h with ⟨hmore, h⟩ | ⟨hmore, h⟩
  · exact .done (hmoves.trans hmore) (by rw [h, Result.after_after])
  · rw [hmoves.source]
    exact .wrong (hmoves.trans hmore) (by rw [h]; rfl)

theorem Follows.sign {s : Sign} {pass : Pass Float}
    (h : Follows limit (.sign s floor :: frames) lexer result (pass.run lexer)) :
    Begins limit floor frames lexer result ((s.apply <$> pass).run lexer) := by
  rw [Pass.run_map]
  generalize pass.run lexer = step at h
  rcases h with ⟨hmoves, h⟩ | ⟨hmoves, h⟩
  · refine .done (e := .sign s _) hmoves.self ?_
    rw [h, release_sign, runFrom_operator_of_held hmoves.coherent hmoves.held]
  · exact .wrong hmoves h

theorem Follows.group {opening : Token} {pass : Pass Float}
    (h : Follows limit (.group opening floor :: frames) lexer result (pass.run lexer)) :
    Begins limit floor frames lexer result ((do
      let value ← pass
      let close ← Lexer.next
      if close.lexeme = .rightParen then pure value
      else Pass.fail (.missingClosingParen close opening) : Pass Float).run lexer) := by
  generalize hrun : pass.run lexer = step at h
  rcases h with @⟨e, t, after, log, hmoves, h⟩ | @⟨problem, after, log, hmoves, h⟩
  · -- the token after the content was looked at, so it is taken without a record
    obtain ⟨last, hnext, hlast⟩ := Lexer.run_next hmoves.coherent
    rw [Lexer.front_of_held_some hmoves.coherent hmoves.held,
      Lexer.frontLog_of_held_some hmoves.held, Item.result_token] at hnext
    rw [Pass.run_bind_of_run_ok hrun, Pass.run_bind_of_run_ok hnext, h, release_group]
    refine Begins.after ?_ hmoves log
    by_cases hclose : t.lexeme = .rightParen
    · rw [if_pos hclose, if_pos hclose, resume_go, Pass.run_pure]
      refine .done (e := .group e) hlast.self ?_
      rw [runFrom_of_held_none hlast.held, hlast.finish, hlast.ahead]
      rfl
    · rw [if_neg hclose, if_neg hclose, resume_take, Pass.run_fail, ← hlast.ahead, hlast.source]
      refine .wrong hlast.self ?_
      rw [hlast.held]
      rfl
  · rw [Pass.run_bind_of_run_error hrun]
    exact .wrong hmoves h

end

/-- An operand is read as the machine reads it, if what is below is. -/
theorem begins_operand {limit : Nat} {below : Reader} {frames : List Frame}
    (hbelow : ∀ frame floor, FollowsFrom limit floor (frame :: frames) (below.read floor))
    (hlevel : frames.length < limit) (floor : Precedence) {lexer : Lexer}
    (hc : lexer.Coherent) :
    Begins limit floor frames lexer (runFrom limit ⟨.operand, floor, frames⟩ lexer)
      (below.operand.run lexer) := by
  obtain ⟨after, hrun, hmoves⟩ := Lexer.run_next hc
  rw [Reader.operand]
  cases hfront : lexer.front with
  | stray c offset =>
    rw [hfront] at hrun
    rw [Pass.run_bind_of_run_error hrun, runFrom_of_take hmoves (by rw [hfront, step_stray]),
      List.append_nil]
    exact .wrong hmoves.self rfl
  | token t =>
    rw [hfront] at hrun
    have hstep : State.step limit ⟨.operand, floor, frames⟩ lexer.front
        = ⟨begin t floor frames, [.operand t.lexeme]⟩ := by
      rw [hfront, step_operand, if_pos hlevel]
    rw [Pass.run_bind_of_run_ok hrun, Pass.run_bind_of_run_ok (Pass.run_record _ _),
      Step.after_after]
    obtain ⟨lexeme, offset⟩ := t
    cases lexeme with
    | number literal =>
      rw [begin_number] at hstep
      by_cases hwell : Numeral.WellFormed literal
      · rw [if_pos hwell] at hstep
        rw [runFrom_of_go hmoves hstep]
        refine Begins.after ?_ hmoves _
        simp only [Numeral.read?, if_pos hwell, Pass.run_pure]
        exact .done (e := .number literal) ⟨rfl, rfl, rfl, rfl, rfl, hmoves.coherent⟩ rfl
      · rw [if_neg hwell] at hstep
        rw [runFrom_of_take hmoves hstep]
        simp only [Numeral.read?, if_neg hwell, Pass.run_fail, hmoves.source]
        exact .wrong hmoves.self (by simp only [List.append_nil])
    | plus =>
      rw [runFrom_of_go hmoves hstep]
      refine Begins.after ?_ hmoves _
      have hsign := (hbelow (.sign .plus floor) signFloor after hmoves.coherent).sign
      rwa [Pass.map_apply_plus] at hsign
    | minus =>
      rw [runFrom_of_go hmoves hstep]
      refine Begins.after ?_ hmoves _
      exact (hbelow (.sign .minus floor) signFloor after hmoves.coherent).sign
    | leftParen =>
      rw [runFrom_of_go hmoves hstep]
      refine Begins.after ?_ hmoves _
      exact (hbelow (.group ⟨.leftParen, offset⟩ floor) .lowest after hmoves.coherent).group
    | _ =>
      rw [runFrom_of_take hmoves hstep]
      simp only [Pass.run_fail, hmoves.source]
      exact .wrong hmoves.self (by simp only [List.append_nil])

theorem follows_chain {limit : Nat} {below : Reader} {frames : List Frame}
    (hbelow : ∀ frame floor, FollowsFrom limit floor (frame :: frames) (below.read floor))
    (floor : Precedence) (e : Expr) {lexer : Lexer} (hc : lexer.Coherent) :
    Follows limit frames lexer (runFrom limit ⟨.operator e, floor, frames⟩ lexer)
      ((below.chain floor e.value).run lexer) := by
  -- on the weight of the lexer, which every operator lessens
  induction hweight : lexer.weight using Nat.strongRecOn generalizing e lexer with
  | ind weight ih =>
  rw [Reader.chain_eq]
  cases hfront : lexer.front with
  | stray c offset =>
    obtain ⟨after, hpeek, hmoves⟩ := Lexer.run_peek_of_stray hc hfront
    have hlink : (below.link floor e.value).run lexer = _ := Pass.run_bind_of_run_error hpeek
    rw [Pass.run_bind_of_run_error hlink, runFrom_of_take hmoves (by rw [hfront, step_stray]),
      List.append_nil]
    exact .wrong hmoves.self rfl
  | token t =>
    obtain ⟨after, hpeek, hmoves⟩ := Lexer.run_peek_of_token hc hfront
    have hstep : State.step limit ⟨.operator e, floor, frames⟩ lexer.front
        = settle t e floor frames := by
      rw [hfront, step_operator]
    have hlink : (below.link floor e.value).run lexer = _ := Pass.run_bind_of_run_ok hpeek
    cases hrole : Reader.role floor t.lexeme with
    | ends =>
      rw [hrole, Pass.run_pure] at hlink
      rw [Pass.run_bind_of_run_ok hlink, Pass.run_pure]
      refine .done (hmoves.held ▸ hmoves.self) ?_
      rw [runFrom, hstep, settle_of_ends hrole, hmoves.finish, hmoves.ahead, List.append_nil,
        List.append_nil]
    | strays =>
      rw [hrole, Pass.run_fail, hmoves.source] at hlink
      rw [Pass.run_bind_of_run_error hlink,
        runFrom_of_keep hmoves (hstep.trans (settle_of_strays hrole e frames))]
      exact .wrong hmoves.self rfl
    | joins op =>
      rw [hrole] at hlink
      obtain ⟨last, hnext, hlast⟩ := Lexer.run_next hmoves.coherent
      rw [Lexer.front_of_held_some hmoves.coherent hmoves.held,
        Lexer.frontLog_of_held_some hmoves.held, Item.result_token] at hnext
      rw [Pass.run_bind_of_run_ok hnext] at hlink
      rw [hmoves.ahead] at hlast
      have hmore := hmoves.trans hlast
      -- the right operand is read one level further down, above a frame for the operator
      rw [runFrom_of_go hmore (hstep.trans (settle_of_joins hrole e frames)), List.append_nil]
      have hrhs := hbelow (.rhs op e floor) op.rightFloor last hlast.coherent
      generalize runFrom limit ⟨.operand, op.rightFloor, .rhs op e floor :: frames⟩ last = result
        at hrhs
      generalize hrun : (below.read op.rightFloor).run last = step at hrhs
      rcases hrhs with @⟨r, t', after', log, hmoves', h⟩ | @⟨problem, after', log, hmoves', h⟩
      · rw [Pass.run_bind_of_run_ok hrun, Pass.run_bind_of_run_ok (Pass.run_record _ _),
          Step.after_after, Step.after_after, Step.after_after, List.append_nil,
          Pass.run_pure] at hlink
        have hlt := below.weight_link_lt floor e.value _ lexer (congrArg Step.answer hlink)
        rw [hlink] at hlt
        -- the frame hands both operands to the operator, and the chain goes on with the whole
        have hchain := ih _ (hweight ▸ hlt) (.binary op e r) hmoves'.coherent rfl
        rw [Pass.run_bind_of_run_ok hlink, h, release_rhs, resume_after, Result.after_after,
          Result.after_after, ← runFrom_operator_of_held hmoves'.coherent hmoves'.held,
          List.append_nil]
        exact hchain.after (hmore.trans hmoves') _
      · rw [Pass.run_bind_of_run_error hrun, Step.after_after, hmore.source,
          List.append_nil] at hlink
        rw [Pass.run_bind_of_run_error hlink, h]
        exact .wrong (hmore.trans hmoves') rfl

/-- **Readers follow the machine.** With a number of levels left, a reader does what the machine
does when as many frames fit below the limit. -/
theorem followsFrom_ofLevels {limit : Nat} (levels : Nat) (floor : Precedence)
    (frames : List Frame) (hlevels : frames.length + levels = limit) :
    FollowsFrom limit floor frames ((Reader.ofLevels limit levels).read floor) := by
  intro lexer hc
  induction levels generalizing floor frames lexer with
  | zero =>
    -- no level is left, so the next token is looked at and refused
    have hfull : ¬frames.length < limit := by omega
    rw [Reader.read_ofLevels_zero, Reader.refuse]
    cases hfront : lexer.front with
    | stray c offset =>
      obtain ⟨after, hpeek, hmoves⟩ := Lexer.run_peek_of_stray hc hfront
      rw [Pass.run_bind_of_run_error hpeek, runFrom_of_take hmoves (by rw [hfront, step_stray]),
        List.append_nil]
      exact .wrong hmoves.self rfl
    | token t =>
      obtain ⟨after, hpeek, hmoves⟩ := Lexer.run_peek_of_token hc hfront
      have hstep : State.step limit ⟨.operand, floor, frames⟩ lexer.front
          = ⟨.keep (.error (.depthLimitExceeded limit t)), []⟩ := by
        rw [hfront, step_operand, if_neg hfull]
      rw [Pass.run_bind_of_run_ok hpeek, Pass.run_fail, hmoves.source,
        runFrom_of_keep hmoves hstep]
      exact .wrong hmoves.self rfl
  | succ levels ih =>
    have hbelow : ∀ frame floor,
        FollowsFrom limit floor (frame :: frames) ((Reader.ofLevels limit levels).read floor) :=
      fun frame floor lexer hc ↦
        ih floor (frame :: frames) (by rw [List.length_cons]; omega) lexer hc
    have hoperand := begins_operand hbelow (by omega) floor hc
    rw [Reader.read_ofLevels_succ, Reader.expression]
    generalize hrun : (Reader.ofLevels limit levels).operand.run lexer = step at hoperand
    rcases hoperand with ⟨hmoves, h⟩ | ⟨hmoves, h⟩
    · rw [Pass.run_bind_of_run_ok hrun, h]
      exact (follows_chain hbelow floor _ hmoves.coherent).after hmoves _
    · rw [Pass.run_bind_of_run_error hrun, h]
      exact .wrong hmoves rfl

end Machine

/-! ## Evaluation is a run of the machine -/

/-- The run of the machine on what is ahead of a lexer, from the beginning of what is read down to a
floor. -/
def Lexer.reading (lexer : Lexer) (maxDepth : Nat) (floor : Precedence) : Machine.Result :=
  Machine.runFrom maxDepth (Machine.start floor) lexer

/-- But for its log, this is the run on the items ahead, be the first of them held or not. -/
theorem Lexer.reading_eq_run (lexer : Lexer) (maxDepth : Nat) (floor : Precedence) :
    (lexer.reading maxDepth floor).answer
        = (Machine.run maxDepth lexer.finish (Machine.start floor) lexer.ahead).answer ∧
      (lexer.reading maxDepth floor).rest
        = (Machine.run maxDepth lexer.finish (Machine.start floor) lexer.ahead).rest ∧
      (lexer.reading maxDepth floor).held
        = (Machine.run maxDepth lexer.finish (Machine.start floor) lexer.ahead).held := by
  rw [Machine.run_eq]
  exact ⟨rfl, rfl, rfl⟩

namespace Machine.Result

/-- The record that is made in the end, if nothing is left. -/
def closing (source : Source) (result : Result) : List Record :=
  match result.whole with
  | .ok e => [.finished source.text e.value]
  | .error _ => []

end Machine.Result

namespace Evaluator

open Machine

variable {lexer : Lexer}

theorem run_evaluate (hc : lexer.Coherent) (maxDepth : Nat) (floor : Precedence) :
    ∃ after, (evaluate maxDepth floor).run lexer
        = ⟨((lexer.reading maxDepth floor).answer.map Expr.value).mapError
            (Diagnostic.mk lexer.source), after, (lexer.reading maxDepth floor).log⟩ ∧
      lexer.MovesTo after (lexer.reading maxDepth floor).rest after.held ∧
      after.held.isSome = (lexer.reading maxDepth floor).held := by
  have hfollows := followsFrom_ofLevels maxDepth floor [] (Nat.zero_add _) lexer hc
  rw [evaluate, Lexer.reading, start]
  generalize ((Reader.ofLevels maxDepth maxDepth).read floor).run lexer = step at hfollows
  generalize runFrom maxDepth ⟨.operand, floor, []⟩ lexer = result at hfollows ⊢
  rcases hfollows with @⟨e, t, after, log, hmoves, rfl⟩ | @⟨problem, after, log, hmoves, rfl⟩
  · refine ⟨after, ?_, hmoves.self, by rw [hmoves.held]; rfl⟩
    rw [release_nil, resume_keep, Result.after, List.append_nil]
    rfl
  · exact ⟨after, rfl, hmoves, rfl⟩

/-- To evaluate all that is left is to run the machine and to have nothing left then. -/
theorem run_evaluateAll (hc : lexer.Coherent) (maxDepth : Nat) :
    ∃ after, (evaluateAll maxDepth).run lexer
        = ⟨((lexer.reading maxDepth .lowest).whole.map Expr.value).mapError
            (Diagnostic.mk lexer.source), after,
            (lexer.reading maxDepth .lowest).log
              ++ (lexer.reading maxDepth .lowest).closing lexer.source⟩ ∧
      lexer.MovesTo after after.ahead after.held := by
  have hfollows := followsFrom_ofLevels maxDepth .lowest [] (Nat.zero_add _) lexer hc
  rw [evaluateAll, evaluate, Lexer.reading, start]
  generalize hrun : ((Reader.ofLevels maxDepth maxDepth).read .lowest).run lexer = step at hfollows
  generalize runFrom maxDepth ⟨.operand, .lowest, []⟩ lexer = result at hfollows ⊢
  rcases hfollows with @⟨e, t, after, log, hmoves, rfl⟩ | @⟨problem, after, log, hmoves, rfl⟩
  · -- the token after the expression is held, so it is taken without a record
    obtain ⟨last, hnext, hlast⟩ := Lexer.run_next hmoves.coherent
    rw [Lexer.front_of_held_some hmoves.coherent hmoves.held,
      Lexer.frontLog_of_held_some hmoves.held, Item.result_token] at hnext
    rw [Pass.run_bind_of_run_ok hrun, Pass.run_bind_of_run_ok hnext, release_nil, resume_keep,
      Lexer.ahead_of_held_some hmoves.held]
    refine ⟨last, ?_, (hmoves.trans hlast).self⟩
    by_cases hend : t.lexeme = .endOfInput
    · rw [if_pos hend, if_pos hend, Pass.run_bind_of_run_ok (Pass.run_source _),
        Pass.run_bind_of_run_ok (Pass.run_record _ _), Pass.run_pure, hlast.source, hmoves.source,
        Result.after, List.append_nil]
      rfl
    · rw [if_neg hend, if_neg hend, Pass.run_fail, hlast.source, hmoves.source, Result.after,
        List.append_nil]
      rfl
  · refine ⟨after, ?_, hmoves⟩
    rw [Pass.run_bind_of_run_error hrun, show Result.closing _ _ = [] from rfl, List.append_nil]
    rfl

end Evaluator

namespace Source

open Machine

/-- The run of the machine on all items of a source. -/
def reading (source : Source) (maxDepth : Nat) : Result :=
  run maxDepth source.finish (start .lowest) source.items

theorem reading_ofSource (source : Source) (maxDepth : Nat) :
    (Lexer.ofSource source).reading maxDepth .lowest = source.reading maxDepth := by
  rw [Lexer.reading, runFrom_of_held_none rfl, Lexer.finish_ofSource, Lexer.ahead_ofSource, reading]

/-- **Evaluation is a run of the machine.** To evaluate a source is to run the machine on its items
and to have none left. -/
theorem answer_evaluate (source : Source) (maxDepth : Nat) :
    (source.evaluate maxDepth).answer
      = ((source.reading maxDepth).whole.map Expr.value).mapError (Diagnostic.mk source) := by
  obtain ⟨after, hrun, -⟩ := Evaluator.run_evaluateAll (Lexer.coherent_ofSource source) maxDepth
  rw [evaluate, hrun, reading_ofSource]
  rfl

/-- The log of an evaluation is that of the run, and then the value if there is one. -/
theorem log_evaluate (source : Source) (maxDepth : Nat) :
    (source.evaluate maxDepth).log
      = (source.reading maxDepth).log ++ (source.reading maxDepth).closing source := by
  obtain ⟨after, hrun, -⟩ := Evaluator.run_evaluateAll (Lexer.coherent_ofSource source) maxDepth
  rw [evaluate, hrun, reading_ofSource]
  rfl

variable {source : Source} {maxDepth : Nat}

theorem answer_eq_ok_iff {value : Float} :
    (source.evaluate maxDepth).answer = .ok value ↔
      ∃ e, (source.reading maxDepth).whole = .ok e ∧ value = e.value := by
  rw [answer_evaluate]
  constructor
  · intro h
    cases hwhole : (source.reading maxDepth).whole with
    | ok e =>
      rw [hwhole] at h
      cases h
      exact ⟨e, rfl, rfl⟩
    | error problem =>
      rw [hwhole] at h
      cases h
  · rintro ⟨e, hwhole, rfl⟩
    rw [hwhole]
    rfl

theorem answer_eq_error_iff {diagnostic : Diagnostic} :
    (source.evaluate maxDepth).answer = .error diagnostic ↔
      diagnostic.source = source ∧ (source.reading maxDepth).whole = .error diagnostic.problem := by
  rw [answer_evaluate]
  constructor
  · intro h
    cases hwhole : (source.reading maxDepth).whole with
    | ok e =>
      rw [hwhole] at h
      cases h
    | error problem =>
      rw [hwhole] at h
      cases h
      exact ⟨rfl, rfl⟩
  · rintro ⟨rfl, hwhole⟩
    rw [hwhole]
    rfl

end Source

/-! ## Requests one after another

An evaluator may be asked for one phrase after another. Each request goes on from where the one
before it stopped, whether that came to a value or to a diagnostic, and with the token that it left.

Of all that requests may have done, what follows needs little: that the same source is being read up
to the same end, that the listing was never asked for, and that a held end of the input is where the
input ends. -/

namespace Evaluator

/-- The evaluators that requests lead to from the beginning of a source. -/
inductive Reachable : Evaluator → Prop
  | start (source : Source) (maxDepth : Nat) : Reachable ⟨.ofSource source, maxDepth⟩
  | meet {evaluator : Evaluator} (h : Reachable evaluator) (request : Request) :
      Reachable (evaluator.meet request).1

/-- What requests do not change. -/
structure Sound (evaluator : Evaluator) : Prop where
  coherent : evaluator.lexer.Coherent
  ended : evaluator.lexer.ended = false
  finish : evaluator.lexer.finish = evaluator.lexer.source.text.utf8ByteSize

theorem Sound.moves {evaluator after : Evaluator} (h : evaluator.Sound) {items : List Item}
    {held : Option Token} (hmoves : evaluator.lexer.MovesTo after.lexer items held) :
    after.Sound :=
  ⟨hmoves.coherent, hmoves.ended.trans h.ended,
    hmoves.finish.trans (h.finish.trans (by rw [hmoves.source]))⟩

theorem Sound.meet {evaluator : Evaluator} (h : evaluator.Sound) (request : Request) :
    (evaluator.meet request).1.Sound := by
  cases request with
  | evaluate floor =>
    obtain ⟨after, hrun, hmoves, -⟩ := run_evaluate h.coherent evaluator.maxDepth floor
    rw [Evaluator.meet, hrun]
    exact h.moves hmoves
  | evaluateAll =>
    obtain ⟨after, hrun, hmoves⟩ := run_evaluateAll h.coherent evaluator.maxDepth
    rw [Evaluator.meet, hrun]
    exact h.moves hmoves
  | setMaxDepth maxDepth => exact ⟨h.coherent, h.ended, h.finish⟩

theorem Reachable.sound {evaluator : Evaluator} (h : evaluator.Reachable) : evaluator.Sound := by
  induction h with
  | start source maxDepth =>
    exact ⟨Lexer.coherent_ofSource source, rfl,
      (Lexer.finish_ofSource source).trans source.finish_eq⟩
  | meet _ request ih => exact ih.meet request

end Evaluator

end Calculator
