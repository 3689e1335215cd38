import Mathlib.Data.List.Forall2
import Calculator.Proofs.Lexing.Kinds
import Calculator.Proofs.Reading.Simulation

/-!
# Inputs of the same items

Of its items an evaluation sees what they are and not where they stand, nor what separates them or
what the source is called. Two inputs with the same items, differently spaced, come to the same: to
the same value, or to the same problem, with its labels at the items that correspond.

## Two readings side by side

All that tells one reading from the other are stretches: those of the items, of the tokens on the
stack and of the tokens in a problem or in a record. So the two readings are compared through a
relation of stretches, `At`, of which nothing is known but that it holds of the items of the same
index and of the two ends. Whatever the machine makes of items that correspond corresponds again, by
one lemma for each part of the machine (`Machine.corresponds_run`).

As `At` we take in the end that two stretches belong to items of the same index (`Source.SameItem`).
A label of the one reading is then at the same item as the label of the other.
-/

namespace Calculator

/-! ## What corresponds -/

section

variable (At : Span → Span → Prop)

/-- Items of the same kind, at stretches that correspond. -/
def Item.Corresponds (item item' : Item) : Prop := item.kind = item'.kind ∧ At item.span item'.span

/-- Tokens of the same lexeme, at stretches that correspond. -/
def Token.Corresponds (t t' : Token) : Prop := t.lexeme = t'.lexeme ∧ At t.span t'.span

/-- Problems that are the same but for the stretches that they are about. -/
inductive Problem.Corresponds : Problem → Problem → Prop
  | unexpectedToken {t t' : Token} (h : t.Corresponds At t') :
      Corresponds (.unexpectedToken t) (.unexpectedToken t')
  | missingClosingParen {t t' opening opening' : Token} (h : t.Corresponds At t')
      (hopening : opening.Corresponds At opening') :
      Corresponds (.missingClosingParen t opening) (.missingClosingParen t' opening')
  | malformedNumber {literal : List Char} {offset offset' : Nat}
      (h : At ⟨offset, Text.size literal⟩ ⟨offset', Text.size literal⟩) :
      Corresponds (.malformedNumber literal offset) (.malformedNumber literal offset')
  | unrecognizedCharacter {c : Char} {offset offset' : Nat}
      (h : At ⟨offset, c.utf8Size⟩ ⟨offset', c.utf8Size⟩) :
      Corresponds (.unrecognizedCharacter c offset) (.unrecognizedCharacter c offset')
  | depthLimitExceeded {limit : Nat} {t t' : Token} (h : t.Corresponds At t') :
      Corresponds (.depthLimitExceeded limit t) (.depthLimitExceeded limit t')

/-- Labels of the same text, at stretches that correspond. -/
def Label.Corresponds (label label' : Label) : Prop :=
  label.text = label'.text ∧ At label.span label'.span

/-- Records that are the same but for where a token stands and for the text of the source. -/
inductive Record.Corresponds : Record → Record → Prop
  | lexed {t t' : Token} (h : t.Corresponds At t') : Corresponds (.lexed t) (.lexed t')
  | operand (lexeme : Lexeme) : Corresponds (.operand lexeme) (.operand lexeme)
  | combined (op : Operator) (lhs rhs : Float) :
      Corresponds (.combined op lhs rhs) (.combined op lhs rhs)
  | finished (text text' : String) (value : Float) :
      Corresponds (.finished text value) (.finished text' value)

/-- Frames that are the same but for where the parenthesis of a group stands. -/
inductive Frame.Corresponds : Frame → Frame → Prop
  | sign (s : Sign) (floor : Precedence) : Corresponds (.sign s floor) (.sign s floor)
  | group {opening opening' : Token} (h : opening.Corresponds At opening') (floor : Precedence) :
      Corresponds (.group opening floor) (.group opening' floor)
  | rhs (op : Operator) (lhs : Expr) (floor : Precedence) :
      Corresponds (.rhs op lhs floor) (.rhs op lhs floor)

end

theorem Item.Corresponds.token_or_stray {At : Span → Span → Prop} {item item' : Item}
    (h : item.Corresponds At item') :
    (∃ t t', item = .token t ∧ item' = .token t' ∧ t.Corresponds At t') ∨
      ∃ c offset offset', item = .stray c offset ∧ item' = .stray c offset' ∧
        At ⟨offset, c.utf8Size⟩ ⟨offset', c.utf8Size⟩ := by
  obtain ⟨hkind, hspan⟩ := h
  cases item with
  | token t =>
    cases item' with
    | token t' => exact .inl ⟨t, t', rfl, rfl, Kind.word.inj hkind, hspan⟩
    | stray c' offset' => cases hkind
  | stray c offset =>
    cases item' with
    | token t' => cases hkind
    | stray c' offset' =>
      cases hkind
      exact .inr ⟨c, offset, offset', rfl, rfl, hspan⟩

namespace Problem

variable {At : Span → Span → Prop} {problem problem' : Problem}

theorem Corresponds.labels (h : problem.Corresponds At problem') :
    List.Forall₂ (Label.Corresponds At) problem.labels problem'.labels := by
  cases h with
  | missingClosingParen h hopening => exact .cons ⟨rfl, h.2⟩ (.cons ⟨rfl, hopening.2⟩ .nil)
  | unexpectedToken h | depthLimitExceeded h => exact .cons ⟨rfl, h.2⟩ .nil
  | malformedNumber h | unrecognizedCharacter h => exact .cons ⟨rfl, h⟩ .nil

theorem Corresponds.wording (h : problem.Corresponds At problem') :
    problem.code = problem'.code ∧ problem.message = problem'.message ∧
      problem.help = problem'.help := by
  cases h with
  | unexpectedToken h =>
    have hmessage := congrArg (fun lexeme : Lexeme ↦ "Unexpected token '" ++ lexeme.name ++ "'") h.1
    exact ⟨rfl, hmessage, rfl⟩
  | _ => exact ⟨rfl, rfl, rfl⟩

end Problem

namespace Machine

section

variable (At : Span → Span → Prop)

/-- States that are the same but for their stacks, which correspond. -/
inductive State.Corresponds : State → State → Prop
  | mk (mode : Mode) (floor : Precedence) {frames frames' : List Frame}
      (h : List.Forall₂ (Frame.Corresponds At) frames frames') :
      Corresponds ⟨mode, floor, frames⟩ ⟨mode, floor, frames'⟩

/-- The same tree, or problems that correspond. -/
inductive AnswersCorrespond : Except Problem Expr → Except Problem Expr → Prop
  | ok (e : Expr) : AnswersCorrespond (.ok e) (.ok e)
  | error {problem problem' : Problem} (h : problem.Corresponds At problem') :
      AnswersCorrespond (.error problem) (.error problem')

/-- The same verdict, with states and answers that correspond. -/
inductive Verdict.Corresponds : Verdict → Verdict → Prop
  | go {next next' : State} (h : next.Corresponds At next') : Corresponds (.go next) (.go next')
  | keep {answer answer' : Except Problem Expr} (h : AnswersCorrespond At answer answer') :
      Corresponds (.keep answer) (.keep answer')
  | take {answer answer' : Except Problem Expr} (h : AnswersCorrespond At answer answer') :
      Corresponds (.take answer) (.take answer')

/-- Reactions with verdicts and records that correspond. -/
structure Reaction.Corresponds (reaction reaction' : Reaction) : Prop where
  verdict : reaction.verdict.Corresponds At reaction'.verdict
  log : List.Forall₂ (Record.Corresponds At) reaction.log reaction'.log

/-- Results with answers, rests and records that correspond. -/
structure Result.Corresponds (result result' : Result) : Prop where
  answer : AnswersCorrespond At result.answer result'.answer
  rest : List.Forall₂ (Item.Corresponds At) result.rest result'.rest
  held : result.held = result'.held
  log : List.Forall₂ (Record.Corresponds At) result.log result'.log

end

variable {At : Span → Span → Prop}

theorem Reaction.Corresponds.after {reaction reaction' : Reaction}
    (h : reaction.Corresponds At reaction') {log log' : List Record}
    (hlog : List.Forall₂ (Record.Corresponds At) log log') :
    (reaction.after log).Corresponds At (reaction'.after log') :=
  ⟨h.verdict, List.rel_append hlog h.log⟩

theorem Result.Corresponds.after {result result' : Result} (h : result.Corresponds At result')
    {log log' : List Record} (hlog : List.Forall₂ (Record.Corresponds At) log log') :
    (result.after log).Corresponds At (result'.after log') :=
  ⟨h.answer, h.rest, h.held, List.rel_append hlog h.log⟩

/-! ## Steps -/

section

variable {t t' : Token} {frames frames' : List Frame}

theorem corresponds_meet (ht : t.Corresponds At t')
    (hframes : List.Forall₂ (Frame.Corresponds At) frames frames') {released released' : Reaction}
    (hreleased : released.Corresponds At released') (e : Expr) (floor : Precedence) :
    (meet t e floor frames released).Corresponds At (meet t' e floor frames' released') := by
  rw [meet, meet, ht.1]
  cases Reader.role floor t'.lexeme with
  | ends => exact hreleased
  | strays => exact ⟨.keep (.error (.unexpectedToken ht)), .nil⟩
  | joins op => exact ⟨.go (.mk .operand op.rightFloor (.cons (.rhs op e floor) hframes)), .nil⟩

theorem corresponds_release (ht : t.Corresponds At t')
    (hframes : List.Forall₂ (Frame.Corresponds At) frames frames') (e : Expr) :
    (release t e frames).Corresponds At (release t' e frames') := by
  induction hframes generalizing e with
  | nil => exact ⟨.keep (.ok e), .nil⟩
  | cons hframe hframes ih =>
    cases hframe with
    | sign s outer => exact corresponds_meet ht hframes (ih (.sign s e)) _ outer
    | group hopening outer =>
      rw [release_group, release_group, ht.1]
      split
      · exact ⟨.go (.mk (.operator (.group e)) outer hframes), .nil⟩
      · exact ⟨.take (.error (.missingClosingParen ht hopening)), .nil⟩
    | rhs op lhs outer =>
      exact (corresponds_meet ht hframes (ih (.binary op lhs e)) _ outer).after
        (.cons (.combined op lhs.value e.value) .nil)

theorem corresponds_settle (ht : t.Corresponds At t')
    (hframes : List.Forall₂ (Frame.Corresponds At) frames frames') (e : Expr)
    (floor : Precedence) :
    (settle t e floor frames).Corresponds At (settle t' e floor frames') :=
  corresponds_meet ht hframes (corresponds_release ht hframes e) e floor

theorem corresponds_begin (ht : t.Corresponds At t')
    (hframes : List.Forall₂ (Frame.Corresponds At) frames frames') (floor : Precedence) :
    (begin t floor frames).Corresponds At (begin t' floor frames') := by
  obtain ⟨lexeme, offset⟩ := t
  obtain ⟨lexeme', offset'⟩ := t'
  obtain ⟨hlexeme, hspan⟩ := ht
  obtain rfl : lexeme = lexeme' := hlexeme
  cases lexeme with
  | number literal =>
    rw [begin_number, begin_number]
    split
    · exact .go (.mk (.operator (.number literal)) floor hframes)
    · exact .take (.error (.malformedNumber hspan))
  | plus => exact .go (.mk .operand signFloor (.cons (.sign .plus floor) hframes))
  | minus => exact .go (.mk .operand signFloor (.cons (.sign .minus floor) hframes))
  | leftParen =>
    have hopening : Token.Corresponds At ⟨.leftParen, offset⟩ ⟨.leftParen, offset'⟩ := ⟨rfl, hspan⟩
    exact .go (.mk .operand .lowest (.cons (.group hopening floor) hframes))
  | _ => exact .take (.error (.unexpectedToken ⟨rfl, hspan⟩))

end

/-- Of an item a step sees what it is. -/
theorem corresponds_step (limit : Nat) {state state' : State} (hstate : state.Corresponds At state')
    {item item' : Item} (hitem : item.Corresponds At item') :
    (state.step limit item).Corresponds At (state'.step limit item') := by
  obtain ⟨mode, floor, hframes⟩ := hstate
  rcases hitem.token_or_stray with ⟨t, t', rfl, rfl, ht⟩ | ⟨c, offset, offset', rfl, rfl, hspan⟩
  · cases mode with
    | operand =>
      rw [step_operand, step_operand, hframes.length_eq]
      split
      · refine ⟨corresponds_begin ht hframes floor, ?_⟩
        rw [ht.1]
        exact .cons (.operand _) .nil
      · exact ⟨.keep (.error (.depthLimitExceeded ht)), .nil⟩
    | operator e => exact corresponds_settle ht hframes e floor
  · exact ⟨.take (.error (.unrecognizedCharacter hspan)), .nil⟩

theorem corresponds_lexed {item item' : Item} (h : item.Corresponds At item') :
    List.Forall₂ (Record.Corresponds At) item.lexed item'.lexed := by
  rcases h.token_or_stray with ⟨t, t', rfl, rfl, ht⟩ | ⟨c, offset, offset', rfl, rfl, -⟩
  · rw [Item.lexed, Item.lexed, ht.1]
    split
    · exact .nil
    · exact .cons (.lexed ht) .nil
  · exact .nil

/-! ## Runs -/

/-- **Of its items a run sees what they are.** Runs on items that correspond come to results that
do. -/
theorem corresponds_run (limit : Nat) {finish finish' : Nat}
    (hfinish : (Item.endAt finish).Corresponds At (.endAt finish')) {state state' : State}
    (hstate : state.Corresponds At state') {items items' : List Item}
    (hitems : List.Forall₂ (Item.Corresponds At) items items') :
    (run limit finish state items).Corresponds At (run limit finish' state' items') := by
  induction hitems generalizing state state' with
  | nil =>
    obtain ⟨hverdict, hlog⟩ := corresponds_step limit hstate hfinish
    have hne := step_endAt_ne_go limit finish state
    rw [run_eq, run_eq]
    refine Result.Corresponds.after ?_ (corresponds_lexed hfinish)
    rw [List.headD_nil, List.headD_nil]
    generalize state.step limit (.endAt finish) = reaction at hverdict hlog hne ⊢
    generalize state'.step limit (.endAt finish') = reaction' at hverdict hlog ⊢
    obtain ⟨verdict, log⟩ := reaction
    obtain ⟨verdict', log'⟩ := reaction'
    cases hverdict with
    | go h => exact absurd rfl (hne _)
    | keep h => exact ⟨h, .nil, rfl, hlog⟩
    | take h => exact ⟨h, .nil, rfl, hlog⟩
  | cons hitem hitems ih =>
    obtain ⟨hverdict, hlog⟩ := corresponds_step limit hstate hitem
    rw [run_eq, run_eq]
    refine Result.Corresponds.after ?_ (corresponds_lexed hitem)
    rw [List.headD_cons, List.headD_cons]
    generalize state.step limit _ = reaction at hverdict hlog ⊢
    generalize state'.step limit _ = reaction' at hverdict hlog ⊢
    obtain ⟨verdict, log⟩ := reaction
    obtain ⟨verdict', log'⟩ := reaction'
    cases hverdict with
    | go h => exact (ih h).after hlog
    | keep h => exact ⟨h, .cons hitem hitems, rfl, hlog⟩
    | take h => exact ⟨h, hitems, rfl, hlog⟩

theorem Result.Corresponds.whole {result result' : Result} (h : result.Corresponds At result') :
    AnswersCorrespond At result.whole result'.whole := by
  obtain ⟨answer, rest, held, log⟩ := result
  obtain ⟨answer', rest', held', log'⟩ := result'
  obtain ⟨hanswer, hrest, -, -⟩ := h
  cases hanswer with
  | error hproblem => exact .error hproblem
  | ok e =>
    cases hrest with
    | nil => exact .ok e
    | cons hitem _ =>
      rcases hitem.token_or_stray with ⟨t, t', rfl, rfl, ht⟩ | ⟨c, offset, offset', rfl, rfl, -⟩
      · exact .error (.unexpectedToken ht)
      · exact .ok e

theorem Result.Corresponds.closing {result result' : Result} (h : result.Corresponds At result')
    (source source' : Source) :
    List.Forall₂ (Record.Corresponds At) (result.closing source) (result'.closing source') := by
  have hwhole := h.whole
  rw [Result.closing, Result.closing]
  generalize result.whole = answer at hwhole ⊢
  generalize result'.whole = answer' at hwhole ⊢
  cases hwhole with
  | ok e => exact .cons (.finished _ _ _) .nil
  | error h => exact .nil

end Machine

/-! ## Sources -/

namespace Source

/-- The stretches of what is met in a source, the end of the input included. -/
def spans (source : Source) : List Span :=
  source.items.map Item.span ++ [⟨source.text.utf8ByteSize, 0⟩]

theorem getElem?_spans {source : Source} {i : Nat} (h : i < source.items.length) :
    source.spans[i]? = some source.items[i].span := by
  rw [spans, List.getElem?_append_left (by rwa [List.length_map]), List.getElem?_map,
    List.getElem?_eq_getElem h, Option.map_some]

theorem getElem?_spans_length (source : Source) :
    source.spans[source.items.length]? = some (Item.endAt source.finish).span := by
  have hle : (source.items.map Item.span).length ≤ source.items.length :=
    Nat.le_of_eq (List.length_map _)
  rw [spans, List.getElem?_append_right hle, List.length_map, Nat.sub_self, source.finish_eq]
  rfl

/-- Two stretches belong to the items of the same index, or to the two ends. -/
def SameItem (source source' : Source) (span span' : Span) : Prop :=
  ∃ i : Nat, source.spans[i]? = some span ∧ source'.spans[i]? = some span'

section

variable {source source' : Source}

theorem corresponds_items (h : source.kinds = source'.kinds) :
    List.Forall₂ (Item.Corresponds (source.SameItem source')) source.items source'.items := by
  have hkinds : source.items.map Item.kind = source'.items.map Item.kind :=
    List.append_cancel_right h
  have hlength : source.items.length = source'.items.length := by
    rw [← List.length_map, hkinds, List.length_map]
  refine List.forall₂_iff_get.mpr ⟨hlength, fun i hi hi' ↦ ⟨?_, i, ?_, ?_⟩⟩
  · have hkind := congrArg (·[i]?) hkinds
    simpa [hi, hi'] using hkind
  · exact getElem?_spans hi
  · exact getElem?_spans hi'

theorem corresponds_endAt (h : source.kinds = source'.kinds) :
    (Item.endAt source.finish).Corresponds (source.SameItem source') (.endAt source'.finish) := by
  have hlength := (corresponds_items h).length_eq
  exact ⟨rfl, source.items.length, source.getElem?_spans_length,
    hlength ▸ source'.getElem?_spans_length⟩

theorem corresponds_reading (h : source.kinds = source'.kinds) (maxDepth : Nat) :
    (source.reading maxDepth).Corresponds (source.SameItem source') (source'.reading maxDepth) :=
  Machine.corresponds_run maxDepth (corresponds_endAt h) (.mk .operand .lowest .nil)
    (corresponds_items h)

/-- Sources of the same kinds have the same value, or diagnostics whose problems correspond. -/
theorem answers_of_kinds (h : source.kinds = source'.kinds) (maxDepth : Nat) :
    (∃ value, (source.evaluate maxDepth).answer = .ok value ∧
      (source'.evaluate maxDepth).answer = .ok value) ∨
    ∃ problem problem', (source.evaluate maxDepth).answer = .error ⟨source, problem⟩ ∧
      (source'.evaluate maxDepth).answer = .error ⟨source', problem'⟩ ∧
      problem.Corresponds (source.SameItem source') problem' := by
  have hwhole := (corresponds_reading h maxDepth).whole
  rw [answer_evaluate, answer_evaluate]
  generalize (source.reading maxDepth).whole = answer at hwhole ⊢
  generalize (source'.reading maxDepth).whole = answer' at hwhole ⊢
  cases hwhole with
  | ok e => exact .inl ⟨e.value, rfl, rfl⟩
  | error hproblem => exact .inr ⟨_, _, rfl, rfl, hproblem⟩

/-- **Spacing and names make no difference.** Two inputs with items of the same kinds come to the
same value, to the bit, or to diagnostics of the same problem with the same wording. Each names its
own source, and each label is at the item of the same index, the end of the input included. The logs
agree record by record but for the places of the tokens and for the text of the source. -/
theorem evaluate_of_kinds (h : source.kinds = source'.kinds) (maxDepth : Nat) :
    ((∃ value, (source.evaluate maxDepth).answer = .ok value ∧
        (source'.evaluate maxDepth).answer = .ok value) ∨
      ∃ diagnostic diagnostic', (source.evaluate maxDepth).answer = .error diagnostic ∧
        (source'.evaluate maxDepth).answer = .error diagnostic' ∧
        diagnostic.source.displayName = source.name.getD "<input>" ∧
        diagnostic'.source.displayName = source'.name.getD "<input>" ∧
        diagnostic.problem.Corresponds (source.SameItem source') diagnostic'.problem ∧
        diagnostic.problem.code = diagnostic'.problem.code ∧
        diagnostic.problem.message = diagnostic'.problem.message ∧
        diagnostic.problem.help = diagnostic'.problem.help ∧
        List.Forall₂ (fun label label' ↦ label.text = label'.text ∧
          ∃ i : Nat, source.spans[i]? = some label.span ∧ source'.spans[i]? = some label'.span)
          diagnostic.problem.labels diagnostic'.problem.labels) ∧
    List.Forall₂ (Record.Corresponds (source.SameItem source')) (source.evaluate maxDepth).log
      (source'.evaluate maxDepth).log := by
  constructor
  · rcases answers_of_kinds h maxDepth with
      hvalue | ⟨problem, problem', hanswer, hanswer', hproblem⟩
    · exact .inl hvalue
    · obtain ⟨hcode, hmessage, hhelp⟩ := hproblem.wording
      exact .inr ⟨_, _, hanswer, hanswer', rfl, rfl, hproblem, hcode, hmessage, hhelp,
        hproblem.labels⟩
  · have hreading := corresponds_reading h maxDepth
    rw [log_evaluate, log_evaluate]
    exact List.rel_append hreading.log (hreading.closing source source')

/-- In `(1` and in a wider spelling of it, from a file, the group is missing its end. -/
theorem evaluate_of_kinds_group :
    Source.kinds ⟨none, "(1"⟩ = Source.kinds ⟨some "sums", " ( 1\n"⟩ ∧
      (Source.evaluate ⟨none, "(1"⟩ 9).answer
        = .error ⟨⟨none, "(1"⟩, .missingClosingParen ⟨.endOfInput, 2⟩ ⟨.leftParen, 0⟩⟩ ∧
      ∃ diagnostic, (Source.evaluate ⟨some "sums", " ( 1\n"⟩ 9).answer = .error diagnostic ∧
        diagnostic.source.displayName = "sums" ∧
        diagnostic.problem = .missingClosingParen ⟨.endOfInput, 5⟩ ⟨.leftParen, 1⟩ := by
  have hkinds : Source.kinds ⟨none, "(1"⟩ = Source.kinds ⟨some "sums", " ( 1\n"⟩ := by
    decide +kernel
  have hanswer : (Source.evaluate ⟨none, "(1"⟩ 9).answer
      = .error ⟨⟨none, "(1"⟩, .missingClosingParen ⟨.endOfInput, 2⟩ ⟨.leftParen, 0⟩⟩ := by
    refine answer_eq_error_iff.mpr ⟨rfl, ?_⟩
    have hitems : Source.items ⟨none, "(1"⟩
        = [.token ⟨.leftParen, 0⟩, .token ⟨.number ['1'], 1⟩] := by decide +kernel
    rw [reading, hitems]
    rfl
  have hspans : Source.spans ⟨none, "(1"⟩ = [⟨0, 1⟩, ⟨1, 1⟩, ⟨2, 0⟩] := by decide +kernel
  have hspans' : Source.spans ⟨some "sums", " ( 1\n"⟩ = [⟨1, 1⟩, ⟨3, 1⟩, ⟨5, 0⟩] := by
    decide +kernel
  refine ⟨hkinds, hanswer, ?_⟩
  rcases (evaluate_of_kinds hkinds 9).1 with ⟨value, hvalue, -⟩ | hdiagnostics
  · cases hanswer.symm.trans hvalue
  · obtain ⟨_, diagnostic, hleft, hright, -, hname, hproblem, -⟩ := hdiagnostics
    cases hanswer.symm.trans hleft
    refine ⟨diagnostic, hright, hname, ?_⟩
    obtain ⟨source, problem⟩ := diagnostic
    cases hproblem with
    | @missingClosingParen _ t _ opening ht hopening =>
      obtain ⟨lexeme, offset⟩ := t
      obtain ⟨lexeme', offset'⟩ := opening
      obtain ⟨hlexeme, i, hi, hi'⟩ := ht
      obtain ⟨hlexeme', j, hj, hj'⟩ := hopening
      rw [hspans] at hi hj
      rw [hspans'] at hi' hj'
      obtain rfl : Lexeme.endOfInput = lexeme := hlexeme
      obtain rfl : Lexeme.leftParen = lexeme' := hlexeme'
      have hi2 : i = 2 := by
        rcases i with _ | _ | _ | i <;> simp [Token.span, Lexeme.text] at hi ⊢
      have hj0 : j = 0 := by
        rcases j with _ | _ | _ | j <;> simp [Token.span, Lexeme.text] at hj ⊢
      subst hi2 hj0
      cases hi'
      cases hj'
      rfl

end

end Source

end Calculator
