import Calculator.Proofs.Lexing.Partition
import Calculator.Proofs.Reading.Conditions
import Calculator.Proofs.Reading.Relocation
import Calculator.Proofs.Reading.Simulation

/-!
# Resuming is restarting

An evaluator in the middle of a text goes on as a new one would that is given only what is left of
the text. Nothing else is remembered: not the values, not the diagnostics, not the levels or the
parentheses that an abandoned evaluation was in. What is left begins with the token that is held, if
there is one.

## The construction

Three facts make this up. A lexer can be rewound to where its held token begins, and if the token is
looked at from there, the same lexer comes of it (`Lexer.Resumable`); every call keeps this. Of an
evaluator, whatever is asked, the first thing it does is to look at the next token or to take it, so
it may have been looked at before (`Pass.Looks`), and only its record moves. And what is left of the
text, read on its own, is read as in its place (`Evaluator.meetAll_relocate`).
-/

namespace Calculator

open Lexer (peek next)

theorem Text.append_inj_of_size {s t s' t' : List Char} (h : s ++ t = s' ++ t')
    (hsize : size s = size s') : s = s' ∧ t = t' := by
  rcases List.append_eq_append_iff.mp h with ⟨more, rfl, rfl⟩ | ⟨more, rfl, rfl⟩
  · rw [size_append, Nat.left_eq_add, size_eq_zero_iff] at hsize
    simp [hsize]
  · rw [size_append, Nat.add_eq_left, size_eq_zero_iff] at hsize
    simp [hsize]

/-! ## Looking first -/

section

variable {lexer after : Lexer} {t : Token} {log : List Record}

theorem Lexer.peek_of_scan (hheld : lexer.held = none)
    (h : scan.run lexer = ⟨.ok t, after, log⟩) :
    peek.run lexer = ⟨.ok t, { after with held := some t }, log⟩ := by
  simp only [peek, hheld, h]

theorem Lexer.scan_of_peek (hheld : lexer.held = none)
    (h : peek.run lexer = ⟨.ok t, after, log⟩) :
    scan.run lexer = ⟨.ok t, { after with held := none }, log⟩ := by
  have hscanned := (held_scan lexer).trans hheld
  simp only [peek, hheld] at h
  cases hanswer : (scan.run lexer).answer with
  | ok t' =>
    rw [hanswer] at h
    cases h
    rw [← hanswer, ← hscanned]
  | error diagnostic =>
    rw [hanswer] at h
    cases h

theorem Lexer.held_of_run_peek (h : peek.run lexer = ⟨.ok t, after, log⟩) :
    after.held = some t := by
  have hheld := held_of_peek (congrArg Step.answer h)
  rwa [h] at hheld

end

namespace Pass

variable {α β : Type}

/-- It makes no difference whether the next token was looked at before the pass, except that it was
recorded before. -/
def Looks (pass : Pass α) : Prop :=
  ∀ lexer t after log, peek.run lexer = ⟨.ok t, after, log⟩ →
    pass.run lexer = (pass.run after).after log

theorem Looks.bind {pass : Pass α} {next : α → Pass β} (h : pass.Looks) :
    (pass >>= next).Looks := by
  intro lexer t after log hpeek
  have hfirst := h lexer t after log hpeek
  cases hanswer : (pass.run after).answer with
  | ok a =>
    have hanswer' : (pass.run lexer).answer = .ok a := by rw [hfirst, Step.after, hanswer]
    rw [run_bind_of_ok hanswer', run_bind_of_ok hanswer, hfirst]
    simp only [Step.after, List.append_assoc]
  | error diagnostic =>
    have hanswer' : (pass.run lexer).answer = .error diagnostic := by
      rw [hfirst, Step.after, hanswer]
    rw [run_bind_of_error hanswer', run_bind_of_error hanswer, hfirst]
    rfl

theorem looks_peek : peek.Looks := by
  intro lexer t after log hpeek
  rw [hpeek]
  simp only [peek, Lexer.held_of_run_peek hpeek, Step.after, List.append_nil]

theorem looks_next : next.Looks := by
  intro lexer t after log hpeek
  cases hheld : lexer.held with
  | none =>
    simp only [next, hheld, Lexer.scan_of_peek hheld hpeek, Lexer.held_of_run_peek hpeek,
      Step.after, List.append_nil]
  | some t' =>
    simp only [peek, hheld] at hpeek
    cases hpeek
    rfl

end Pass

theorem Reader.looks_read (limit levels : Nat) (floor : Precedence) :
    ((ofLevels limit levels).read floor).Looks := by
  cases levels with
  | zero =>
    rw [read_ofLevels_zero]
    exact Pass.looks_peek.bind
  | succ levels =>
    rw [read_ofLevels_succ]
    exact Pass.looks_next.bind.bind

namespace Evaluator

theorem looks_evaluate (maxDepth : Nat) (floor : Precedence) : (evaluate maxDepth floor).Looks :=
  Reader.looks_read maxDepth maxDepth floor

theorem looks_evaluateAll (maxDepth : Nat) : (evaluateAll maxDepth).Looks :=
  (looks_evaluate maxDepth .lowest).bind

/-- Records before those of the first evaluation. -/
def logFirst (log : List Record) : List (Option (Step Float)) → List (Option (Step Float))
  | [] => []
  | none :: steps => none :: logFirst log steps
  | some step :: steps => some (step.after log) :: steps

theorem logFirst_nil (steps : List (Option (Step Float))) : logFirst [] steps = steps := by
  induction steps with
  | nil => rfl
  | cons step steps ih =>
    cases step with
    | none => rw [logFirst, ih]
    | some step => rfl

/-- It makes no difference to requests whether the next token was looked at before. -/
theorem meetAll_of_peek {lexer after : Lexer} {t : Token} {log : List Record}
    (h : peek.run lexer = ⟨.ok t, after, log⟩) (maxDepth : Nat) (requests : List Request) :
    meetAll ⟨lexer, maxDepth⟩ requests = logFirst log (meetAll ⟨after, maxDepth⟩ requests) := by
  induction requests generalizing maxDepth with
  | nil => rfl
  | cons request requests ih =>
    cases request with
    | evaluate floor =>
      have hrun := looks_evaluate maxDepth floor lexer t after log h
      simp only [meetAll, meet, hrun, logFirst]
      rfl
    | evaluateAll =>
      have hrun := looks_evaluateAll maxDepth lexer t after log h
      simp only [meetAll, meet, hrun, logFirst]
      rfl
    | setMaxDepth maxDepth => exact congrArg (none :: ·) (ih maxDepth)

end Evaluator

/-! ## Rewinding -/

namespace Lexer

/-- The lexer before its held token was scanned. -/
def rewind (lexer : Lexer) : Lexer :=
  match lexer.held with
  | none => lexer
  | some t => { lexer with rest := t.lexeme.text ++ lexer.rest, byte := t.offset, held := none }

/-- The lexer behind the blanks before the next item. -/
def skip (lexer : Lexer) : Lexer :=
  { lexer with
    rest := lexer.rest.dropWhile Char.isWhitespace
    byte := lexer.byte + Text.size (lexer.rest.takeWhile Char.isWhitespace) }

/-- The text that was not scanned is what remains of the source. -/
def Remains (lexer : Lexer) : Prop :=
  ∃ before, lexer.source.text.toList = before ++ lexer.rest ∧ Text.size before = lexer.byte

/-- A held token is the next in what remains of the source. -/
structure Resumable (lexer : Lexer) : Prop where
  remains : lexer.rewind.Remains
  peek : ∀ t, lexer.held = some t → peek.run lexer.rewind = ⟨.ok t, lexer, (Item.token t).lexed⟩

variable {lexer : Lexer}

theorem rewind_of_held_none (h : lexer.held = none) : lexer.rewind = lexer := by
  rw [rewind, h]

theorem rewind_of_held_some {t : Token} (h : lexer.held = some t) :
    lexer.rewind
      = { lexer with rest := t.lexeme.text ++ lexer.rest, byte := t.offset, held := none } := by
  rw [rewind, h]

theorem takeWhile_rest_skip (lexer : Lexer) :
    lexer.skip.rest.takeWhile Char.isWhitespace = [] ∧
      lexer.skip.rest.dropWhile Char.isWhitespace = lexer.skip.rest := by
  have hhead := List.head?_dropWhile_not Char.isWhitespace lexer.rest
  rw [skip]
  cases hrest : lexer.rest.dropWhile Char.isWhitespace with
  | nil => exact ⟨rfl, rfl⟩
  | cons c rest =>
    have hc : ¬c.isWhitespace = true := by simpa [hrest] using hhead
    exact ⟨List.takeWhile_cons_of_neg hc, List.dropWhile_cons_of_neg hc⟩

theorem run_scan_skip (lexer : Lexer) : scan.run lexer.skip = scan.run lexer := by
  obtain ⟨htake, hdrop⟩ := lexer.takeWhile_rest_skip
  simp only [scan, htake, hdrop, Text.size_nil, Nat.add_zero]
  rfl

theorem run_scan_eq (lexer : Lexer) :
    ∃ (item : Item) (rest : List Char), scan.run lexer
        = ⟨item.result lexer.source, { lexer with rest := rest, byte := item.span.stop },
            item.lexed⟩ ∧
      lexer.skip.rest = item.text ++ rest ∧ lexer.skip.byte = item.span.offset := by
  unfold scan skip
  dsimp only
  cases lexer.rest.dropWhile Char.isWhitespace with
  | nil => exact ⟨.endAt _, [], rfl, rfl, rfl⟩
  | cons c rest =>
    dsimp only
    cases hmunch : Lexeme.munch? c rest with
    | some found =>
      obtain ⟨lexeme, rest⟩ := found
      refine ⟨.token ⟨lexeme, _⟩, rest, ?_, (Lexeme.text_append_of_munch? hmunch).symm, rfl⟩
      rw [Item.lexed, if_neg (Lexeme.ne_endOfInput_of_munch? hmunch)]
      rfl
    | none => exact ⟨.stray c _, rest, rfl, rfl, rfl⟩

theorem Remains.skip (h : lexer.Remains) : lexer.skip.Remains := by
  obtain ⟨before, htext, hsize⟩ := h
  refine ⟨before ++ lexer.rest.takeWhile Char.isWhitespace, ?_, ?_⟩
  · rw [Lexer.skip, List.append_assoc, List.takeWhile_append_dropWhile]
    exact htext
  · rw [Text.size_append, hsize]
    rfl

theorem Remains.scan (h : lexer.Remains) : (scan.run lexer).lexer.Remains := by
  obtain ⟨item, rest, hrun, hrest, hbyte⟩ := lexer.run_scan_eq
  obtain ⟨before, htext, hsize⟩ := h.skip
  rw [hrun]
  refine ⟨before ++ item.text, ?_, ?_⟩
  · rw [List.append_assoc, ← hrest]
    exact htext
  · rw [Text.size_append, hsize, hbyte, Item.stop_span]

theorem resumable_of_held_none (hheld : lexer.held = none) (h : lexer.Remains) :
    lexer.Resumable := by
  refine ⟨by rwa [rewind_of_held_none hheld], fun t ht ↦ ?_⟩
  cases hheld.symm.trans ht

theorem resumable_ofSource (source : Source) : (ofSource source).Resumable :=
  resumable_of_held_none rfl ⟨[], rfl, rfl⟩

theorem keeps_resumable_next : Lexer.next.Keeps Resumable := by
  refine Pass.Keeps.of_run fun lexer h ↦ ?_
  cases hheld : lexer.held with
  | none =>
    have hremains := (rewind_of_held_none hheld ▸ h.remains).scan
    simp only [Lexer.next, hheld]
    exact resumable_of_held_none ((held_scan lexer).trans hheld) hremains
  | some t =>
    -- to take the token is to scan it again
    have hscan := scan_of_peek (by rw [rewind_of_held_some hheld]) (h.peek t hheld)
    have hremains := h.remains.scan
    rw [hscan] at hremains
    simp only [Lexer.next, hheld]
    exact resumable_of_held_none rfl hremains

theorem keeps_resumable_peek : Lexer.peek.Keeps Resumable := by
  refine Pass.Keeps.of_run fun lexer h ↦ ?_
  cases hheld : lexer.held with
  | none =>
    have hremains := rewind_of_held_none hheld ▸ h.remains
    obtain ⟨item, rest, hrun, hrest, hbyte⟩ := lexer.run_scan_eq
    cases item with
    | stray c offset =>
      have hscan := hremains.scan
      rw [hrun] at hscan
      simp only [Lexer.peek, hheld, hrun, Item.result_stray]
      exact resumable_of_held_none rfl hscan
    | token t =>
      -- to go back is to skip the blanks, which make no difference
      have hrewind : rewind { lexer with rest := rest, byte := t.span.stop, held := some t }
          = lexer.skip := by
        rw [rewind_of_held_some rfl, Lexer.skip, hheld]
        congr 1
        · exact hrest.symm
        · exact hbyte.symm
      have hskip : Lexer.peek.run lexer.skip = _ :=
        peek_of_scan hheld (lexer.run_scan_skip.trans hrun)
      rw [peek_of_scan hheld hrun]
      refine ⟨hrewind ▸ hremains.skip, ?_⟩
      rintro _ ⟨rfl⟩
      rw [← hrewind] at hskip
      exact hskip
  | some t =>
    simp only [Lexer.peek, hheld]
    exact h

/-- What is left, read on its own, is in its place what is left. -/
theorem rewind_eq_relocate (hended : lexer.ended = false) :
    lexer.rewind = (ofSource ⟨lexer.source.name, String.ofList lexer.rewind.rest⟩).relocate
      lexer.source lexer.rewind.byte := by
  obtain ⟨source, rest, byte, held, ended⟩ := lexer
  obtain rfl : ended = false := hended
  cases held <;> simp [rewind, relocate, ofSource]

end Lexer

namespace Evaluator

theorem Reachable.resumable {evaluator : Evaluator} (h : evaluator.Reachable) :
    evaluator.lexer.Resumable := by
  induction h with
  | start source maxDepth => exact Lexer.resumable_ofSource source
  | meet _ request ih =>
    exact keeps_meet Lexer.keeps_resumable_next Lexer.keeps_resumable_peek ih request

/-- **Resuming is restarting.** Whatever was asked of an evaluator before, it meets all further
requests as a new one does with the same limit, to which the text that is left is given: the answers
are the same and so are the records, but they stand in the whole text. What is left begins with the
held token, whose record was made before, or else where the lexer stands. What is wrong is put in
the same words there, and every label of it is moved. -/
theorem meetAll_eq_restart {evaluator : Evaluator} (h : evaluator.Reachable)
    (requests : List Request) :
    let source := evaluator.lexer.source
    let start := match evaluator.lexer.held with
      | some t => t.offset
      | none => evaluator.lexer.byte
    let seen := match evaluator.lexer.held with
      | some t => (Item.token t).lexed
      | none => []
    (∃ before after : List Char, source.text.toList = before ++ after ∧ Text.size before = start ∧
      logFirst seen (evaluator.meetAll requests)
        = (meetAll ⟨.ofSource ⟨source.name, String.ofList after⟩, evaluator.maxDepth⟩ requests).map
            (Option.map (Step.relocate source start id))) ∧
    ∀ problem : Problem,
      (problem.shift start).labels
        = problem.labels.map (fun label ↦ { label with span := label.span.shift start }) ∧
      (problem.shift start).code = problem.code ∧ (problem.shift start).message = problem.message ∧
      (problem.shift start).help = problem.help := by
  obtain ⟨lexer, maxDepth⟩ := evaluator
  have hresumable := h.resumable
  have hrewind := Lexer.rewind_eq_relocate h.sound.ended
  have hmoved := meetAll_relocate lexer.source lexer.rewind.byte
    ⟨.ofSource ⟨lexer.source.name, String.ofList lexer.rewind.rest⟩, maxDepth⟩ requests
  rw [relocate, ← hrewind] at hmoved
  obtain ⟨before, htext, hsize⟩ := hresumable.remains
  refine ⟨?_, fun problem ↦ ⟨problem.labels_shift _, problem.wording_shift _⟩⟩
  dsimp only
  cases hheld : lexer.held with
  | none =>
    rw [Lexer.rewind_of_held_none hheld] at htext hsize hmoved
    exact ⟨before, lexer.rest, htext, hsize, (logFirst_nil _).trans hmoved⟩
  | some t =>
    have hpeek := meetAll_of_peek (hresumable.peek t hheld) maxDepth requests
    rw [Lexer.rewind_of_held_some hheld] at htext hsize hmoved hpeek
    exact ⟨before, t.lexeme.text ++ lexer.rest, htext, hsize, hpeek.symm.trans hmoved⟩

/-- In `1 2*3)` the second numeral is held after the first one, and from there on all is as in
`2*3)`, which begins two bytes further on. -/
theorem meetAll_eq_restart_product :
    let source : Source := ⟨none, "1 2*3)"⟩
    let evaluator := ((⟨.ofSource source, 9⟩ : Evaluator).meet (.evaluate .lowest)).1
    let requests : List Request := [.evaluate .sum, .setMaxDepth 1, .evaluateAll]
    evaluator.Reachable ∧ evaluator.lexer.held = some ⟨.number ['2'], 2⟩ ∧
      logFirst [.lexed ⟨.number ['2'], 2⟩] (evaluator.meetAll requests)
        = (meetAll ⟨.ofSource ⟨none, "2*3)"⟩, 9⟩ requests).map
            (Option.map (Step.relocate source 2 id)) := by
  intro source evaluator requests
  have hreachable : evaluator.Reachable := .meet (.start source 9) (.evaluate .lowest)
  have hlexer : evaluator.lexer
      = ⟨source, ['*', '3', ')'], 3, some ⟨.number ['2'], 2⟩, false⟩ := by
    decide +kernel
  obtain ⟨⟨before, after, htext, hsize, hmeet⟩, -⟩ := meetAll_eq_restart hreachable requests
  rw [hlexer] at htext hsize hmeet
  have htext' : ['1', ' '] ++ ['2', '*', '3', ')'] = before ++ after := by
    rw [← htext]
    decide
  obtain ⟨-, rfl⟩ := Text.append_inj_of_size htext' hsize.symm
  exact ⟨hreachable, by rw [hlexer], hmeet⟩

end Evaluator

end Calculator
