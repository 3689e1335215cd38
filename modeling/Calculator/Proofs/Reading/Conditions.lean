import Calculator.Evaluator

/-!
# Conditions on passes

What a pass leaves behind is said with a condition on the lexer before it and two on the lexer
after it, one beside the answer and one beside the diagnostic (`Pass.Ensures`). Passes that follow
one another are taken one at a time: what the first one leaves beside its answer is what the second
one starts from.

## Reading

A reader is made of two calls, `next` and `peek`, so what both of them keep is kept by everything
that is read through a lexer (`Evaluator.keeps_meet`). A condition that changes on the way is
followed through an operand and through one link of a chain; the chain itself is then a repetition
(`Reader.ensures_chain`).
-/

namespace Calculator

/-- A step ends with an answer and a lexer with `Q`, or with a diagnostic and a lexer with `E`. -/
def Step.Leaves {α : Type} (Q : α → Lexer → Prop) (E : Diagnostic → Lexer → Prop)
    (step : Step α) : Prop :=
  match step.answer with
  | .ok a => Q a step.lexer
  | .error diagnostic => E diagnostic step.lexer

namespace Pass

variable {α β : Type}

/-- From a lexer with `P` the pass comes to an answer and a lexer with `Q`, or to a diagnostic and a
lexer with `E`. -/
def Ensures (P : Lexer → Prop) (pass : Pass α) (Q : α → Lexer → Prop)
    (E : Diagnostic → Lexer → Prop) : Prop :=
  ∀ lexer, P lexer → (pass.run lexer).Leaves Q E

/-- Whatever the pass comes to, the lexer has `P` afterwards if it had `P` before. -/
def Keeps (P : Lexer → Prop) (pass : Pass α) : Prop :=
  pass.Ensures P (fun _ ↦ P) fun _ ↦ P

namespace Ensures

variable {P P' : Lexer → Prop} {Q Q' : α → Lexer → Prop} {E : Diagnostic → Lexer → Prop}
  {pass : Pass α}

theorem of_ok (h : pass.Ensures P Q E) {lexer : Lexer} (hP : P lexer) {a : α}
    (ha : (pass.run lexer).answer = .ok a) : Q a (pass.run lexer).lexer := by
  have hleaves := h lexer hP
  rwa [Step.Leaves, ha] at hleaves

theorem of_error (h : pass.Ensures P Q E) {lexer : Lexer} (hP : P lexer) {diagnostic : Diagnostic}
    (hd : (pass.run lexer).answer = .error diagnostic) : E diagnostic (pass.run lexer).lexer := by
  have hleaves := h lexer hP
  rwa [Step.Leaves, hd] at hleaves

theorem mono (h : pass.Ensures P Q E) (hP : ∀ lexer, P' lexer → P lexer)
    (hQ : ∀ a lexer, Q a lexer → Q' a lexer) : pass.Ensures P' Q' E := by
  intro lexer hlexer
  rw [Step.Leaves]
  cases hanswer : (pass.run lexer).answer with
  | ok a => exact hQ a _ (h.of_ok (hP _ hlexer) hanswer)
  | error diagnostic => exact h.of_error (hP _ hlexer) hanswer

protected theorem pure {a : α} (h : ∀ lexer, P lexer → Q a lexer) :
    (pure a : Pass α).Ensures P Q E :=
  fun lexer hlexer ↦ h lexer hlexer

protected theorem fail {problem : Problem}
    (h : ∀ lexer, P lexer → E ⟨lexer.source, problem⟩ lexer) :
    (fail problem : Pass α).Ensures P Q E :=
  fun lexer hlexer ↦ h lexer hlexer

protected theorem record (entry : Record) : (record entry).Ensures P (fun _ ↦ P) E :=
  fun _ hlexer ↦ hlexer

protected theorem source : source.Ensures P (fun _ ↦ P) E := fun _ hlexer ↦ hlexer

/-- The second pass starts from what the first one leaves beside its answer. -/
protected theorem bind {R : β → Lexer → Prop} {next : α → Pass β} (h : pass.Ensures P Q E)
    (hnext : ∀ a, (next a).Ensures (Q a) R E) : (pass >>= next).Ensures P R E := by
  intro lexer hlexer
  cases hanswer : (pass.run lexer).answer with
  | ok a =>
    rw [run_bind_of_ok hanswer]
    exact hnext a _ (h.of_ok hlexer hanswer)
  | error diagnostic =>
    rw [run_bind_of_error hanswer]
    exact h.of_error hlexer hanswer

theorem keeps (h : pass.Ensures P Q E) (hQ : ∀ a lexer, Q a lexer → P lexer)
    (hE : ∀ diagnostic lexer, E diagnostic lexer → P lexer) : pass.Keeps P := by
  intro lexer hlexer
  rw [Step.Leaves]
  cases hanswer : (pass.run lexer).answer with
  | ok a => exact hQ a _ (h.of_ok hlexer hanswer)
  | error diagnostic => exact hE diagnostic _ (h.of_error hlexer hanswer)

end Ensures

theorem Keeps.of_run {P : Lexer → Prop} {pass : Pass α}
    (h : ∀ lexer, P lexer → P (pass.run lexer).lexer) : pass.Keeps P := by
  intro lexer hlexer
  rw [Step.Leaves]
  split <;> exact h lexer hlexer

theorem Keeps.run {P : Lexer → Prop} {pass : Pass α} (h : pass.Keeps P) {lexer : Lexer}
    (hP : P lexer) : P (pass.run lexer).lexer := by
  cases hanswer : (pass.run lexer).answer with
  | ok a => exact Ensures.of_ok h hP hanswer
  | error diagnostic => exact Ensures.of_error h hP hanswer

end Pass

open Lexer (peek next)

namespace Reader

section

variable {P Q : Lexer → Prop} {E : Diagnostic → Lexer → Prop}

/-- If every link goes on from where the one before it has left off, so does the chain. -/
theorem ensures_chain {below : Reader} {floor : Precedence}
    (hlink : ∀ lhs, (below.link floor lhs).Ensures P
      (fun value lexer ↦ if value.isSome then P lexer else Q lexer) E) (lhs : Float) :
    (below.chain floor lhs).Ensures P (fun _ ↦ Q) E := by
  intro lexer hlexer
  change (below.chainFrom floor lhs lexer).Leaves (fun _ ↦ Q) E
  fun_induction chainFrom below floor lhs lexer with
  | case1 lhs lexer step diagnostic h => exact (hlink lhs).of_error hlexer h
  | case2 lhs lexer step h => exact (hlink lhs).of_ok hlexer h
  | case3 lhs lexer step value h hlt more ih => exact ih ((hlink lhs).of_ok hlexer h)

end

section

variable {P : Lexer → Prop}

theorem keeps_operand (hnext : next.Keeps P) {below : Reader}
    (hbelow : ∀ floor, (below.read floor).Keeps P) : below.operand.Keeps P := by
  unfold operand
  refine hnext.bind fun token ↦ (Pass.Ensures.record _).bind fun _ ↦ ?_
  split
  · split
    · exact Pass.Ensures.pure fun _ h ↦ h
    · exact Pass.Ensures.fail fun _ h ↦ h
  · exact hbelow signFloor
  · exact (hbelow signFloor).bind fun _ ↦ Pass.Ensures.pure fun _ h ↦ h
  · refine (hbelow .lowest).bind fun _ ↦ hnext.bind fun close ↦ ?_
    split
    · exact Pass.Ensures.pure fun _ h ↦ h
    · exact Pass.Ensures.fail fun _ h ↦ h
  · exact Pass.Ensures.fail fun _ h ↦ h

theorem keeps_link (hnext : next.Keeps P) (hpeek : peek.Keeps P) {below : Reader}
    (hbelow : ∀ floor, (below.read floor).Keeps P) (floor : Precedence) (lhs : Float) :
    (below.link floor lhs).Keeps P := by
  unfold link
  refine hpeek.bind fun token ↦ ?_
  split
  · exact Pass.Ensures.pure fun _ h ↦ h
  · exact Pass.Ensures.fail fun _ h ↦ h
  · exact hnext.bind fun _ ↦ (hbelow _).bind fun _ ↦ (Pass.Ensures.record _).bind fun _ ↦
      Pass.Ensures.pure fun _ h ↦ h

/-- What is kept when a token is taken and when one is looked at is kept by every reader. -/
theorem keeps_read (hnext : next.Keeps P) (hpeek : peek.Keeps P) (limit levels : Nat)
    (floor : Precedence) : ((ofLevels limit levels).read floor).Keeps P := by
  induction levels generalizing floor with
  | zero =>
    rw [read_ofLevels_zero]
    exact hpeek.bind fun _ ↦ Pass.Ensures.fail fun _ h ↦ h
  | succ levels ih =>
    rw [read_ofLevels_succ]
    refine (keeps_operand hnext ih).bind fun lhs ↦ ensures_chain (fun lhs ↦ ?_) lhs
    refine (keeps_link hnext hpeek ih floor lhs).mono (fun _ h ↦ h) fun value lexer h ↦ ?_
    rwa [ite_self]

end

end Reader

namespace Evaluator

variable {P : Lexer → Prop}

theorem keeps_evaluate (hnext : next.Keeps P) (hpeek : peek.Keeps P) (maxDepth : Nat)
    (floor : Precedence) : (evaluate maxDepth floor).Keeps P :=
  Reader.keeps_read hnext hpeek maxDepth maxDepth floor

theorem keeps_evaluateAll (hnext : next.Keeps P) (hpeek : peek.Keeps P) (maxDepth : Nat) :
    (evaluateAll maxDepth).Keeps P := by
  unfold evaluateAll
  refine (keeps_evaluate hnext hpeek maxDepth .lowest).bind fun value ↦ hnext.bind fun token ↦ ?_
  split
  · exact Pass.Ensures.source.bind fun _ ↦ (Pass.Ensures.record _).bind fun _ ↦
      Pass.Ensures.pure fun _ h ↦ h
  · exact Pass.Ensures.fail fun _ h ↦ h

theorem keeps_meet (hnext : next.Keeps P) (hpeek : peek.Keeps P) {evaluator : Evaluator}
    (h : P evaluator.lexer) (request : Request) : P (evaluator.meet request).1.lexer := by
  cases request with
  | evaluate floor => exact (keeps_evaluate hnext hpeek evaluator.maxDepth floor).run h
  | evaluateAll => exact (keeps_evaluateAll hnext hpeek evaluator.maxDepth).run h
  | setMaxDepth maxDepth => exact h

end Evaluator

end Calculator
