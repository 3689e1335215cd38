import Calculator.Proofs.Lexing.Cursor
import Calculator.Proofs.Reading.Conditions
import Calculator.Proofs.Reading.Precedences
import Calculator.Proofs.Reading.Simulation

/-!
# What an evaluation leaves behind

An evaluation down to a floor looks one token ahead and never further. If it comes to a value, the
token after what was read is held. If it comes to a diagnostic, the item that the diagnostic is
about (`Problem.item`) is the last one scanned, and it was taken unless the problem was found by
looking at it: that is so where the limit is reached, and at a parenthesis after an operand
(`Problem.kept`).

## Where a lexer stands

A lexer stands `Behind` the last item that it scanned. A held token is always that item
(`Lexer.Level`), so with the two calls `next` and `peek` the item that was scanned last is known
from their answer, whether a token was held before or not. The rest follows the reader, call by
call.
-/

namespace Calculator

/-! ## What a problem leaves -/

namespace Problem

/-- The token that stays to be taken when a problem is reported. -/
def kept : Problem → Option Token
  | unexpectedToken found => if found.lexeme = .leftParen then some found else none
  | depthLimitExceeded _ found => some found
  | missingClosingParen _ _ | malformedNumber _ _ | unrecognizedCharacter _ _ => none

theorem kept_eq_some_iff {problem : Problem} {t : Token} :
    problem.kept = some t ↔
      (∃ limit, problem = .depthLimitExceeded limit t) ∨
        problem = .unexpectedToken t ∧ t.lexeme = .leftParen := by
  cases problem with
  | unexpectedToken found =>
    simp only [kept, Option.ite_none_right_eq_some, reduceCtorEq, exists_false, false_or,
      Problem.unexpectedToken.injEq, Option.some.injEq]
    constructor
    · rintro ⟨hparen, rfl⟩
      exact ⟨rfl, hparen⟩
    · rintro ⟨rfl, hparen⟩
      exact ⟨hparen, rfl⟩
  | depthLimitExceeded limit found => simp [kept]
  | _ => simp [kept]

theorem item_of_kept {problem : Problem} {t : Token} (h : problem.kept = some t) :
    problem.item = .token t := by
  rcases kept_eq_some_iff.mp h with ⟨limit, rfl⟩ | ⟨rfl, -⟩ <;> rfl

end Problem

namespace Lexer

/-! ## Where a lexer stands -/

/-- The item is the last one that the lexer scanned. -/
structure Behind (item : Item) (lexer : Lexer) : Prop where
  byte : lexer.byte = item.span.stop
  rest : ∀ t, item = .token t → t.lexeme = .endOfInput → lexer.rest = []

/-- The token is held, and nothing was scanned after it. -/
def Holds (t : Token) (lexer : Lexer) : Prop := lexer.held = some t ∧ lexer.Behind (.token t)

/-- If a token is held, then nothing was scanned after it. -/
def Level (lexer : Lexer) : Prop := ∀ t, lexer.held = some t → lexer.Behind (.token t)

/-- The token was taken, and nothing was scanned after it. -/
def Took (t : Token) (lexer : Lexer) : Prop := lexer.held = none ∧ lexer.Behind (.token t)

/-- What a diagnostic leaves behind. -/
def Refused (diagnostic : Diagnostic) (lexer : Lexer) : Prop :=
  lexer.held = diagnostic.problem.kept ∧ lexer.Behind diagnostic.problem.item

theorem Holds.level {t : Token} {lexer : Lexer} (h : lexer.Holds t) : lexer.Level := by
  intro t' ht'
  obtain rfl : t = t' := Option.some.inj (h.1.symm.trans ht')
  exact h.2

theorem Took.level {t : Token} {lexer : Lexer} (h : lexer.Took t) : lexer.Level := by
  intro t' ht'
  cases h.1.symm.trans ht'

theorem level_ofSource (source : Source) : (ofSource source).Level := by
  intro t ht
  cases ht

theorem Refused.level {diagnostic : Diagnostic} {lexer : Lexer} (h : Refused diagnostic lexer) :
    lexer.Level := by
  intro t ht
  rw [← Problem.item_of_kept (h.1.symm.trans ht)]
  exact h.2

theorem Behind.answer_next {t : Token} {lexer : Lexer} (h : lexer.Behind (.token t))
    (hend : t.lexeme = .endOfInput) (hheld : lexer.held = none ∨ lexer.held = some t) :
    (next.run lexer).answer = .ok t := by
  rcases hheld with hheld | hheld
  · have hbyte : lexer.byte = t.offset := by
      rw [h.byte, Item.stop_span]
      simp [Item.span, Token.span, Item.text, hend, Lexeme.text]
    obtain ⟨lexeme, offset⟩ := t
    obtain rfl : lexeme = .endOfInput := hend
    simp [next, scan, hheld, h.rest _ rfl rfl, hbyte]
  · simp only [next, hheld]

namespace Refused

variable {diagnostic : Diagnostic} {lexer : Lexer} (h : Refused diagnostic lexer)

include h

/-- A diagnostic leaves the lexer where its first label ends. -/
theorem stop_head?_labels :
    (diagnostic.problem.labels.head?.map fun label ↦ label.span.stop) = some lexer.byte := by
  rw [h.2.byte, Problem.span_item]
  rfl

theorem held_eq_some_iff (t : Token) :
    lexer.held = some t ↔
      (∃ limit, diagnostic.problem = .depthLimitExceeded limit t) ∨
        diagnostic.problem = .unexpectedToken t ∧ t.lexeme = .leftParen := by
  rw [h.1, Problem.kept_eq_some_iff]

theorem answer_next {t : Token} (hitem : diagnostic.problem.item = .token t)
    (hend : t.lexeme = .endOfInput) : (next.run lexer).answer = .ok t := by
  refine (hitem ▸ h.2).answer_next hend ?_
  cases hheld : lexer.held with
  | none => exact .inl rfl
  | some held =>
    have hkept := Problem.item_of_kept (h.1.symm.trans hheld)
    cases hitem.symm.trans hkept
    exact .inr rfl

end Refused

/-- The lexer is somewhere in the source. -/
def Along (source : Source) (lexer : Lexer) : Prop := ∃ cursor : Cursor, cursor.Tracks source lexer

/-- A held token is an item of the source, and the last one scanned. -/
theorem Along.exists_itemAt {source : Source} {lexer : Lexer} (h : lexer.Along source) {t : Token}
    (hheld : lexer.held = some t) :
    ∃ n, source.itemAt n = .token t ∧ lexer.unscanned = source.items.drop (n + 1) := by
  obtain ⟨cursor, htracks⟩ := h
  obtain ⟨hscanned, hitem⟩ := htracks.scanned_of_held_some hheld
  exact ⟨cursor.index, hitem, hscanned ▸ htracks.unscanned⟩

theorem Along.source_eq {source : Source} {lexer : Lexer} (h : lexer.Along source) :
    lexer.source = source := by
  obtain ⟨cursor, htracks⟩ := h
  exact htracks.source_eq

theorem Along.byte_eq_of_behind {source : Source} {lexer : Lexer} (h : lexer.Along source)
    {t : Token} (hbehind : lexer.Behind (.token t)) (hend : t.lexeme = .endOfInput) :
    lexer.byte = source.text.utf8ByteSize := by
  obtain ⟨cursor, htracks⟩ := h
  rw [← htracks.finish, finish, hbehind.rest t rfl hend, Text.size_nil, Nat.add_zero]

theorem along_ofSource (source : Source) : (ofSource source).Along source :=
  ⟨Cursor.start, Cursor.tracks_ofSource source⟩

/-! ## The two calls -/

theorem keeps_along_next (source : Source) : next.Keeps (Along source) := by
  refine Pass.Keeps.of_run ?_
  rintro lexer ⟨cursor, htracks⟩
  obtain ⟨after, log, hrun, htracks', -⟩ := htracks.run_next
  rw [hrun]
  exact ⟨cursor.take, htracks'⟩

theorem keeps_along_peek (source : Source) : peek.Keeps (Along source) := by
  refine Pass.Keeps.of_run ?_
  rintro lexer ⟨cursor, htracks⟩
  cases hitem : source.itemAt cursor.index with
  | token t =>
    obtain ⟨after, log, hrun, htracks', -⟩ := htracks.run_peek_of_token hitem
    rw [hrun]
    exact ⟨cursor.look, htracks'⟩
  | stray c offset =>
    obtain ⟨after, log, hrun, htracks', -⟩ := htracks.run_peek_of_stray hitem
    rw [hrun]
    exact ⟨cursor.take, htracks'⟩

theorem ensures_scan :
    scan.Ensures (fun lexer ↦ lexer.held = none) (fun t lexer ↦ lexer.Took t) Refused := by
  intro lexer hheld
  unfold scan
  dsimp only
  split
  · exact ⟨hheld, rfl, fun _ _ _ ↦ rfl⟩
  · split
    · next hmunch =>
      refine ⟨hheld, rfl, ?_⟩
      rintro _ ⟨rfl⟩ hend
      exact absurd hend (Lexeme.ne_endOfInput_of_munch? hmunch)
    · exact ⟨hheld, rfl, by rintro _ ⟨⟩⟩

theorem ensures_next : next.Ensures Level (fun t lexer ↦ lexer.Took t) Refused := by
  intro lexer hlevel
  cases hheld : lexer.held with
  | none =>
    simp only [next, hheld]
    exact ensures_scan lexer hheld
  | some t =>
    have hbehind := hlevel t hheld
    simp only [next, hheld]
    exact ⟨rfl, hbehind.byte, hbehind.rest⟩

theorem ensures_next_of_holds (t : Token) :
    next.Ensures (Holds t) (fun t' lexer ↦ t' = t ∧ lexer.Took t) Refused := by
  rintro lexer ⟨hheld, hbehind⟩
  simp only [next, hheld]
  exact ⟨rfl, rfl, hbehind.byte, hbehind.rest⟩

theorem ensures_peek : peek.Ensures Level (fun t lexer ↦ lexer.Holds t) Refused := by
  intro lexer hlevel
  cases hheld : lexer.held with
  | none =>
    cases hanswer : (scan.run lexer).answer with
    | ok t =>
      have hbehind := (ensures_scan.of_ok hheld hanswer).2
      simp only [peek, hheld, hanswer]
      exact ⟨rfl, hbehind.byte, hbehind.rest⟩
    | error diagnostic =>
      simp only [peek, hheld, hanswer]
      exact ensures_scan.of_error hheld hanswer
  | some t =>
    simp only [peek, hheld]
    exact ⟨hheld, hlevel t hheld⟩

theorem keeps_next : next.Keeps Level :=
  ensures_next.keeps (fun _ _ h ↦ h.level) fun _ _ h ↦ h.level

theorem keeps_peek : peek.Keeps Level :=
  ensures_peek.keeps (fun _ _ h ↦ h.level) fun _ _ h ↦ h.level

end Lexer

/-! ## Readers -/

open Lexer (peek next Level Holds Refused)

namespace Reader

/-- A reader that looks one token ahead. -/
def LooksAhead (reader : Reader) : Prop :=
  ∀ floor, (reader.read floor).Ensures Level (fun _ lexer ↦ ∃ t, lexer.Holds t) Refused

theorem ensures_operand {below : Reader} (hbelow : below.LooksAhead) :
    below.operand.Ensures Level (fun _ ↦ Level) Refused := by
  have hlevel : ∀ lexer : Lexer, (∃ t, lexer.Holds t) → lexer.Level := fun _ ⟨_, h⟩ ↦ h.level
  unfold operand
  refine Lexer.ensures_next.bind fun token ↦ (Pass.Ensures.record _).bind fun _ ↦ ?_
  obtain ⟨lexeme, offset⟩ := token
  cases lexeme with
  | number literal =>
    dsimp only
    split
    · exact Pass.Ensures.pure fun _ h ↦ h.level
    · exact Pass.Ensures.fail fun _ h ↦ h
  | plus => exact (hbelow signFloor).mono (fun _ h ↦ h.level) fun _ ↦ hlevel
  | minus =>
    exact ((hbelow signFloor).mono (fun _ h ↦ h.level) fun _ ↦ hlevel).bind fun _ ↦
      Pass.Ensures.pure fun _ h ↦ h
  | leftParen =>
    refine ((hbelow .lowest).mono (fun _ h ↦ h.level) fun _ ↦ hlevel).bind fun _ ↦
      Lexer.ensures_next.bind fun close ↦ ?_
    split
    · exact Pass.Ensures.pure fun _ h ↦ h.level
    · exact Pass.Ensures.fail fun _ h ↦ h
  | _ => exact Pass.Ensures.fail fun _ h ↦ h

theorem ensures_link {below : Reader} (hbelow : below.LooksAhead) (floor : Precedence)
    (lhs : Float) :
    (below.link floor lhs).Ensures Level
      (fun value lexer ↦ if value.isSome then lexer.Level else ∃ t, lexer.Holds t) Refused := by
  unfold link
  refine Lexer.ensures_peek.bind fun token ↦ ?_
  cases hrole : role floor token.lexeme with
  | ends => exact Pass.Ensures.pure fun _ h ↦ ⟨token, h⟩
  | strays =>
    -- the parenthesis was looked at and stays
    refine Pass.Ensures.fail fun _ h ↦ ⟨h.1.trans ?_, h.2⟩
    rw [Problem.kept, if_pos (eq_leftParen_of_role hrole)]
  | joins op =>
    refine (Lexer.ensures_next_of_holds token).bind fun _ ↦ ?_
    refine ((hbelow op.rightFloor).mono (fun _ h ↦ h.2.level) fun _ _ h ↦ h).bind fun _ ↦ ?_
    refine (Pass.Ensures.record _).bind fun _ ↦ Pass.Ensures.pure fun _ h ↦ ?_
    obtain ⟨_, h⟩ := h
    exact h.level

/-- **One token ahead.** Every reader leaves the token after what it read, or what is left by the
problem that it reports. -/
theorem looksAhead_ofLevels (limit levels : Nat) : (ofLevels limit levels).LooksAhead := by
  induction levels with
  | zero =>
    intro floor
    rw [read_ofLevels_zero]
    exact Lexer.ensures_peek.bind fun token ↦ Pass.Ensures.fail fun _ h ↦ h
  | succ levels ih =>
    intro floor
    rw [read_ofLevels_succ]
    exact (ensures_operand ih).bind (ensures_chain (ensures_link ih floor))

end Reader

namespace Evaluator

theorem ensures_evaluate (maxDepth : Nat) (floor : Precedence) :
    (evaluate maxDepth floor).Ensures Level (fun _ lexer ↦ ∃ t, lexer.Holds t) Refused :=
  Reader.looksAhead_ofLevels maxDepth maxDepth floor

theorem Reachable.level {evaluator : Evaluator} (h : evaluator.Reachable) :
    evaluator.lexer.Level := by
  induction h with
  | start source maxDepth => exact Lexer.level_ofSource source
  | meet _ request ih => exact keeps_meet Lexer.keeps_next Lexer.keeps_peek ih request

end Evaluator

end Calculator
