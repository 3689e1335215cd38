import Calculator.Proofs.Reading.Grammar
import Calculator.Proofs.Reading.Limits
import Mathlib.Data.List.Basic

/-!
# What the log tells

The records of an evaluation come from three places, with a token looked at in between, and so their
order is not that of the text. It is known from the tree all the same. What is recorded of a tree
besides its tokens is listed here by recursion on the tree, each record with the index of the token
that was scanned last (`Expr.events`): a token that begins an operand is recorded when it is taken,
and an operator when the token behind its right operand was looked at.

## The invariant

A state of the machine knows how many tokens were taken and what was recorded of them, since each
frame of its stack stands for some tokens of which everything was recorded (`State.taken`,
`State.events`). A step adds the one token and its own records (`tells_step`). When the machine has
come to a tree, nothing is left on the stack, and the records are those of the tree.
-/

namespace Calculator

/-! ## Records -/

/-- The kinds of records. -/
inductive Record.Kind where
  | lexed
  | operand
  | combined
  | finished
  deriving DecidableEq, Repr

/-- The kind of a record. -/
def Record.kind : Record → Kind
  | .lexed _ => .lexed
  | .operand _ => .operand
  | .combined _ _ _ => .combined
  | .finished _ _ => .finished

@[simp] theorem Record.kind_lexed (t : Token) : (Record.lexed t).kind = .lexed := rfl

@[simp] theorem Record.kind_operand (lexeme : Lexeme) : (Record.operand lexeme).kind = .operand :=
  rfl

@[simp] theorem Record.kind_combined (op : Operator) (lhs rhs : Float) :
    (Record.combined op lhs rhs).kind = .combined := rfl

@[simp] theorem Record.kind_finished (text : String) (value : Float) :
    (Record.finished text value).kind = .finished := rfl

namespace Expr

/-- The words with which operands begin, in the order of the text. -/
def operands : Expr → List Lexeme
  | number literal => [.number literal]
  | sign s operand => s.lexeme :: operand.operands
  | group content => .leftParen :: content.operands
  | binary _ lhs rhs => lhs.operands ++ rhs.operands

/-- The operators with the values of their operands, those of the operands first. -/
def nodes : Expr → List (Operator × Float × Float)
  | number _ => []
  | sign _ operand => operand.nodes
  | group content => content.nodes
  | binary op lhs rhs => lhs.nodes ++ rhs.nodes ++ [(op, lhs.value, rhs.value)]

/-- What is recorded of an expression besides its tokens, if the first of them has the index
`start`; each record comes with the index of the last token scanned before it. -/
def events : Nat → Expr → List (Nat × Record)
  | start, number literal => [(start, .operand (.number literal))]
  | start, sign s operand => (start, .operand s.lexeme) :: operand.events (start + 1)
  | start, group content => (start, .operand .leftParen) :: content.events (start + 1)
  | start, binary op lhs rhs =>
    lhs.events start ++ rhs.events (start + lhs.lexemes.length + 1)
      ++ [(start + (binary op lhs rhs).lexemes.length, .combined op lhs.value rhs.value)]

/-- What begins an operand is recorded with the index of its token. -/
theorem exists_getElem?_of_mem_events {e : Expr} {start index : Nat} {lexeme : Lexeme}
    (h : (index, .operand lexeme) ∈ e.events start) :
    ∃ i, index = start + i ∧ e.lexemes[i]? = some lexeme := by
  induction e generalizing start with
  | number literal =>
    cases List.mem_singleton.mp h
    exact ⟨0, rfl, rfl⟩
  | sign s operand ih =>
    rcases List.mem_cons.mp h with h | h
    · cases h
      exact ⟨0, rfl, rfl⟩
    · obtain ⟨i, rfl, hi⟩ := ih h
      exact ⟨i + 1, by omega, hi⟩
  | group content ih =>
    rcases List.mem_cons.mp h with h | h
    · cases h
      exact ⟨0, rfl, rfl⟩
    · obtain ⟨i, rfl, hi⟩ := ih h
      obtain ⟨hlt, -⟩ := List.getElem?_eq_some_iff.mp hi
      refine ⟨i + 1, by omega, ?_⟩
      rw [lexemes, List.getElem?_cons_succ, List.getElem?_append_left hlt, hi]
  | binary op lhs rhs ihl ihr =>
    rw [events, List.mem_append, List.mem_append, List.mem_singleton] at h
    rcases h with (h | h) | h
    · obtain ⟨i, rfl, hi⟩ := ihl h
      obtain ⟨hlt, -⟩ := List.getElem?_eq_some_iff.mp hi
      exact ⟨i, rfl, by rw [lexemes, List.getElem?_append_left hlt, hi]⟩
    · obtain ⟨i, rfl, hi⟩ := ihr h
      refine ⟨lhs.lexemes.length + (i + 1), by omega, ?_⟩
      rw [lexemes, List.getElem?_append_right (Nat.le_add_right _ _), Nat.add_sub_cancel_left,
        List.getElem?_cons_succ, hi]
    · cases h

theorem filter_operand_events (e : Expr) (start : Nat) :
    ((e.events start).map Prod.snd).filter (·.kind = .operand) = e.operands.map .operand := by
  induction e generalizing start with
  | number literal => rfl
  | sign s operand ih => simp [events, operands, ih]
  | group content ih => simp [events, operands, ih]
  | binary op lhs rhs ihl ihr => simp [events, operands, ihl, ihr]

theorem filter_combined_events (e : Expr) (start : Nat) :
    ((e.events start).map Prod.snd).filter (·.kind = .combined)
      = e.nodes.map fun node ↦ .combined node.1 node.2.1 node.2.2 := by
  induction e generalizing start with
  | number literal => rfl
  | sign s operand ih => simp [events, nodes, ih]
  | group content ih => simp [events, nodes, ih]
  | binary op lhs rhs ihl ihr => simp [events, nodes, ihl, ihr]

end Expr

namespace Machine

/-! ## What was recorded on the way to a state -/

/-- How many tokens a stack stands for. -/
def width : List Frame → Nat
  | [] => 0
  | .sign _ _ :: frames | .group _ _ :: frames => width frames + 1
  | .rhs _ lhs _ :: frames => width frames + lhs.lexemes.length + 1

/-- What was recorded of these tokens. -/
def recorded : List Frame → List (Nat × Record)
  | [] => []
  | .sign s _ :: frames => recorded frames ++ [(width frames, .operand s.lexeme)]
  | .group _ _ :: frames => recorded frames ++ [(width frames, .operand .leftParen)]
  | .rhs _ lhs _ :: frames => recorded frames ++ lhs.events (width frames)

/-- How many tokens were taken on the way to a state. -/
def State.taken (state : State) : Nat :=
  match state.mode with
  | .operand => width state.frames
  | .operator e => width state.frames + e.lexemes.length

/-- What was recorded of these tokens. -/
def State.events (state : State) : List (Nat × Record) :=
  match state.mode with
  | .operand => recorded state.frames
  | .operator e => recorded state.frames ++ e.events (width state.frames)

/-- What was recorded once a reaction to the token at an index is done: of all tokens up to this one
if the machine goes on, and of the tree if it has come to one. -/
def Verdict.Tells (index : Nat) (events : List (Nat × Record)) : Verdict → Prop
  | .go next => next.taken = index + 1 ∧ next.events = events
  | .keep (.ok e) => e.events 0 = events
  | .take (.ok _) => False
  | .keep (.error _) | .take (.error _) => True

/-- A reaction to the token at an index adds its records to those before. -/
def Reaction.Tells (index : Nat) (events : List (Nat × Record)) (reaction : Reaction) : Prop :=
  reaction.verdict.Tells index (events ++ reaction.log.map (index, ·)) ∧
    ∀ record ∈ reaction.log, record.kind = .operand ∨ record.kind = .combined

theorem Reaction.Tells.after {index : Nat} {events : List (Nat × Record)} {reaction : Reaction}
    {record : Record} (h : reaction.Tells index (events ++ [(index, record)]))
    (hkind : record.kind = .combined) : (reaction.after [record]).Tells index events := by
  obtain ⟨hverdict, hlog⟩ := h
  refine ⟨?_, fun other hother ↦ ?_⟩
  · rwa [List.append_assoc] at hverdict
  · rcases List.mem_cons.mp hother with rfl | hother
    · exact .inr hkind
    · exact hlog other hother

theorem tells_meet {t : Token} {e : Expr} {floor : Precedence} {frames : List Frame}
    {released : Reaction} {index : Nat} {events : List (Nat × Record)}
    (hindex : width frames + e.lexemes.length = index)
    (hevents : recorded frames ++ e.events (width frames) = events)
    (hreleased : released.Tells index events) :
    (meet t e floor frames released).Tells index events := by
  rw [meet]
  cases Reader.role floor t.lexeme with
  | ends => exact hreleased
  | strays => exact ⟨trivial, by simp⟩
  | joins op =>
    refine ⟨⟨?_, ?_⟩, by simp⟩
    · simp [State.taken, width, hindex]
    · simp [State.events, recorded, hevents]

theorem tells_settle {t : Token} {e : Expr} {floor : Precedence} {frames : List Frame}
    {index : Nat} {events : List (Nat × Record)}
    (hindex : width frames + e.lexemes.length = index)
    (hevents : recorded frames ++ e.events (width frames) = events) :
    (settle t e floor frames).Tells index events := by
  -- on the stack, since whatever is handed down meets the same token again
  induction frames generalizing e floor events with
  | nil =>
    refine tells_meet hindex hevents ⟨?_, by simp⟩
    simpa [Verdict.Tells, recorded, width] using hevents
  | cons frame frames ih =>
    refine tells_meet hindex hevents ?_
    rcases frame with ⟨s, outer⟩ | ⟨opening, outer⟩ | ⟨op, lhs, outer⟩
    · refine ih ?_ ?_
      · rw [Expr.lexemes, List.length_cons, ← hindex, width]
        omega
      · rw [← hevents, recorded, width, Expr.events, List.append_assoc, List.singleton_append]
    · rw [release_group]
      split
      · refine ⟨⟨?_, ?_⟩, by simp⟩
        · simp only [State.taken, Expr.lexemes, List.length_cons, List.length_append, ← hindex,
            width, List.length_nil]
          omega
        · simp [State.events, ← hevents, recorded, width, Expr.events]
      · exact ⟨trivial, by simp⟩
    · rw [release_rhs]
      have hsize : width frames + (Expr.binary op lhs e).lexemes.length = index := by
        simp only [width, Expr.lexemes, List.length_cons, List.length_append] at hindex ⊢
        omega
      refine Reaction.Tells.after (ih hsize ?_) rfl
      rw [Expr.events, hsize, ← hevents, recorded, width]
      simp only [List.append_assoc]

theorem tells_begin (t : Token) (floor : Precedence) (frames : List Frame) :
    (Reaction.mk (begin t floor frames) [.operand t.lexeme]).Tells (width frames)
      (recorded frames) := by
  obtain ⟨lexeme, offset⟩ := t
  refine ⟨?_, by simp⟩
  cases lexeme with
  | number literal =>
    rw [begin_number]
    split
    · exact ⟨rfl, rfl⟩
    · trivial
  | plus => exact ⟨rfl, rfl⟩
  | minus => exact ⟨rfl, rfl⟩
  | leftParen => exact ⟨rfl, rfl⟩
  | _ => trivial

theorem tells_step (limit : Nat) (state : State) (t : Token) :
    (state.step limit (.token t)).Tells state.taken state.events := by
  obtain ⟨_ | e, floor, frames⟩ := state
  · rw [step_operand]
    split
    · exact tells_begin t floor frames
    · exact ⟨trivial, by simp⟩
  · exact tells_settle rfl rfl

/-! ## Transcripts -/

/-- Tokens from an index on, each followed by the events of that index. -/
def transcript (start : Nat) (tokens : List Token) (events : List (Nat × Record)) : List Record :=
  (tokens.zipIdx start).flatMap fun (t, i) ↦
    (Item.token t).lexed ++ (events.filter (·.1 = i)).map Prod.snd

/-- `Transcribes start tokens events log` says that the log tells of the tokens, which are counted
from `start` on, and of the events, both in their order, and of each event after the token of that
index. -/
structure Transcribes (start : Nat) (tokens : List Token) (events : List (Nat × Record))
    (log : List Record) : Prop where
  bound : ∀ event ∈ events, start ≤ event.1
  log_eq : log = transcript start tokens events
  lexed : log.filter (·.kind = .lexed) = tokens.flatMap fun t ↦ (Item.token t).lexed
  others : ∀ kind, kind ≠ .lexed →
    log.filter (·.kind = kind) = (events.map Prod.snd).filter (·.kind = kind)

theorem transcribes_nil (start : Nat) : Transcribes start [] [] [] :=
  ⟨by simp, rfl, rfl, fun _ _ ↦ rfl⟩

theorem kind_of_mem_lexed {item : Item} {record : Record} (h : record ∈ item.lexed) :
    record.kind = .lexed := by
  unfold Item.lexed at h
  split at h
  · split at h
    · cases h
    · rw [List.mem_singleton.mp h, Record.kind_lexed]
  · cases h

section

variable {log : List Record}
  (hlog : ∀ record ∈ log, record.kind = .operand ∨ record.kind = .combined)

include hlog

theorem filter_lexed_append (item : Item) :
    (item.lexed ++ log).filter (·.kind = .lexed) = item.lexed := by
  have hnone : log.filter (·.kind = .lexed) = [] := by
    refine List.filter_eq_nil_iff.mpr fun record hrecord ↦ ?_
    rcases hlog record hrecord with h | h <;> simp [h]
  rw [List.filter_append, hnone, List.append_nil]
  exact List.filter_eq_self.mpr fun record hrecord ↦ by simp [kind_of_mem_lexed hrecord]

omit hlog in
theorem filter_others_append {kind : Record.Kind} (hkind : kind ≠ .lexed) (item : Item) :
    (item.lexed ++ log).filter (·.kind = kind) = log.filter (·.kind = kind) := by
  have hnone : item.lexed.filter (·.kind = kind) = [] := by
    refine List.filter_eq_nil_iff.mpr fun record hrecord ↦ ?_
    simp [kind_of_mem_lexed hrecord, hkind.symm]
  rw [List.filter_append, hnone, List.nil_append]

end

/-- In front of a log there can be that of a token. -/
theorem Transcribes.cons {start : Nat} {tokens : List Token} {events : List (Nat × Record)}
    {log rest : List Record} (h : Transcribes (start + 1) tokens events rest) (t : Token)
    (hlog : ∀ record ∈ log, record.kind = .operand ∨ record.kind = .combined) :
    Transcribes start (t :: tokens) (log.map (start, ·) ++ events)
      ((Item.token t).lexed ++ log ++ rest) := by
  refine ⟨fun event hevent ↦ ?_, ?_, ?_, fun kind hkind ↦ ?_⟩
  · rcases List.mem_append.mp hevent with hevent | hevent
    · obtain ⟨record, -, rfl⟩ := List.mem_map.mp hevent
      exact Nat.le_refl _
    · exact Nat.le_of_succ_le (h.bound event hevent)
  · have hlater : events.filter (·.1 = start) = [] := by
      refine List.filter_eq_nil_iff.mpr fun event hevent ↦ ?_
      have := h.bound event hevent
      simp only [decide_eq_true_eq]
      omega
    rw [transcript, List.zipIdx_cons, List.flatMap_cons, h.log_eq, transcript]
    congr 1
    · simp [hlater, List.filter_map, Function.comp_def]
    · refine List.flatMap_congr fun (t', i) hmem ↦ ?_
      have hlt : start + 1 ≤ i := List.le_snd_of_mem_zipIdx hmem
      have hearlier : (log.map (start, ·)).filter (·.1 = i) = [] := by
        refine List.filter_eq_nil_iff.mpr fun event hevent ↦ ?_
        obtain ⟨record, -, rfl⟩ := List.mem_map.mp hevent
        simp only [decide_eq_true_eq]
        omega
      dsimp only
      rw [List.filter_append, hearlier, List.nil_append]
  · rw [List.filter_append, filter_lexed_append hlog, h.lexed, List.flatMap_cons]
  · rw [List.filter_append, filter_others_append hkind, h.others kind hkind, List.map_append,
      List.filter_append, List.map_map]
    simp [Function.comp_def]

/-! ## Runs -/

/-- What was recorded between a state and the tree that a run comes to is told by the log. -/
theorem run_tells {state : State} (limit finish : Nat) (items : List Item) {e : Expr}
    (hanswer : (run limit finish state items).answer = .ok e) :
    ∃ (taken : List Token) (t : Token) (events : List (Nat × Record)),
      items = taken.map Item.token ++ (run limit finish state items).rest ∧
      (run limit finish state items).rest.headD (.endAt finish) = .token t ∧
      e.events 0 = state.events ++ events ∧
      Transcribes state.taken (taken ++ [t]) events (run limit finish state items).log := by
  refine run_induction (motive := fun state items result ↦ result.answer = .ok e →
    ∃ (taken : List Token) (t : Token) (events : List (Nat × Record)),
      items = taken.map Item.token ++ result.rest ∧ result.rest.headD (.endAt finish) = .token t ∧
      e.events 0 = state.events ++ events ∧
      Transcribes state.taken (taken ++ [t]) events result.log) items ?_ ?_ ?_ ?_ state hanswer
  · intro state next log t items hstep ih hanswer
    obtain ⟨⟨htaken, hevents⟩, hlog⟩ := hstep ▸ tells_step limit state t
    obtain ⟨taken, t', events, hitems, hfront, htree, htold⟩ := ih hanswer
    rw [htaken] at htold
    refine ⟨t :: taken, t', log.map (state.taken, ·) ++ events, congrArg _ hitems, hfront, ?_,
      htold.cons t hlog⟩
    rw [htree, hevents, List.append_assoc]
  · rintro state answer log t items hfront hstep ⟨rfl⟩
    obtain ⟨htree, hlog⟩ := hstep ▸ tells_step limit state t
    have htold := (transcribes_nil (state.taken + 1)).cons t hlog
    rw [List.append_nil, List.append_nil] at htold
    exact ⟨[], t, log.map (state.taken, ·), rfl, hfront, htree, htold⟩
  · rintro state answer log t items hfront hstep ⟨rfl⟩
    obtain ⟨hfalse, -⟩ := hstep ▸ tells_step limit state t
    exact hfalse.elim
  · rintro state c offset items ⟨⟩

/-- A run that comes to a problem has told of the tokens up to the item that the problem is
about. -/
theorem run_tells_of_error {state : State} (limit finish : Nat) (items : List Item)
    {problem : Problem} (hanswer : (run limit finish state items).answer = .error problem) :
    ∃ (taken : List Token) (rest : List Item), items = taken.map Item.token ++ rest ∧
      rest.headD (.endAt finish) = problem.item ∧
      (run limit finish state items).log.filter (·.kind = .lexed)
        = (taken.flatMap fun t ↦ (Item.token t).lexed) ++ problem.item.lexed := by
  -- where the run ends with a token, that is the item which the problem is about
  have hstop {state : State} {verdict : Verdict} {log : List Record} {t : Token}
      {items : List Item} (hfront : items.headD (.endAt finish) = .token t)
      (hstep : state.step limit (.token t) = ⟨verdict, log⟩)
      (hverdict : verdict.PointsTo (.token t) → problem.item = .token t) :
      ∃ (taken : List Token) (rest : List Item), items = taken.map Item.token ++ rest ∧
        rest.headD (.endAt finish) = problem.item ∧
        ((Item.token t).lexed ++ log).filter (·.kind = .lexed)
          = (taken.flatMap fun t ↦ (Item.token t).lexed) ++ problem.item.lexed := by
    obtain ⟨-, hlog⟩ := hstep ▸ tells_step limit state t
    have hpoints := pointsTo_step limit state (.token t)
    rw [hstep] at hpoints
    have hitem := hverdict hpoints
    exact ⟨[], items, rfl, hfront.trans hitem.symm, hitem ▸ filter_lexed_append hlog _⟩
  refine run_induction (motive := fun _ items result ↦ result.answer = .error problem →
    ∃ (taken : List Token) (rest : List Item), items = taken.map Item.token ++ rest ∧
      rest.headD (.endAt finish) = problem.item ∧
      result.log.filter (·.kind = .lexed)
        = (taken.flatMap fun t ↦ (Item.token t).lexed) ++ problem.item.lexed)
    items ?_ ?_ ?_ ?_ state hanswer
  · intro state next log t items hstep ih hanswer
    obtain ⟨-, hlog⟩ := hstep ▸ tells_step limit state t
    obtain ⟨taken, rest, hitems, hfront, hlexed⟩ := ih hanswer
    refine ⟨t :: taken, rest, congrArg _ hitems, hfront, ?_⟩
    rw [Result.after, List.filter_append, filter_lexed_append hlog, hlexed, List.flatMap_cons,
      List.append_assoc]
  · rintro state answer log t items hfront hstep ⟨rfl⟩
    exact hstop hfront hstep id
  · rintro state answer log t items hfront hstep ⟨rfl⟩
    exact hstop hfront hstep id
  · rintro state c offset items ⟨rfl⟩
    exact ⟨[], .stray c offset :: items, rfl, rfl, rfl⟩

theorem filter_finished_run (limit finish : Nat) (state : State) (items : List Item) :
    (run limit finish state items).log.filter (·.kind = .finished) = [] := by
  have hreaction {state : State} {t : Token} {verdict : Verdict} {log : List Record}
      (hstep : state.step limit (.token t) = ⟨verdict, log⟩) :
      ((Item.token t).lexed ++ log).filter (·.kind = .finished) = [] := by
    obtain ⟨-, hlog⟩ := hstep ▸ tells_step limit state t
    rw [filter_others_append (by decide)]
    refine List.filter_eq_nil_iff.mpr fun record hrecord ↦ ?_
    rcases hlog record hrecord with h | h <;> simp [h]
  refine run_induction (motive := fun _ _ result ↦ result.log.filter (·.kind = .finished) = [])
    items ?_ ?_ ?_ ?_ state
  · intro state next log t items hstep ih
    rw [Result.after, List.filter_append, hreaction hstep, ih, List.append_nil]
  · intro state answer log t items _ hstep
    exact hreaction hstep
  · intro state answer log t items _ hstep
    exact hreaction hstep
  · intro state c offset items
    rfl

end Machine

namespace Source

theorem flatMap_lexed {source : Source} {tokens : List Token} {rest : List Item}
    (hitems : source.items = tokens.map Item.token ++ rest) :
    (tokens.flatMap fun t ↦ (Item.token t).lexed) = tokens.map .lexed := by
  have hlexed : ∀ t ∈ tokens, (Item.token t).lexed = [.lexed t] := fun t ht ↦
    if_neg (Item.lexeme_ne_endOfInput_of_mem_listFrom (hitems ▸ List.mem_append_left rest
      (List.mem_map_of_mem (f := Item.token) ht)))
  rw [List.flatMap_congr hlexed]
  exact (List.map_eq_flatMap ..).symm

theorem transcribes_reading {source : Source} {maxDepth : Nat} {value : Float}
    (h : (source.evaluate maxDepth).answer = .ok value) :
    ∃ (tokens : List Token) (e : Expr), source.items = tokens.map Item.token ∧
      Derives .expr (tokens.map Token.lexeme) e ∧ value = e.value ∧
      Machine.Transcribes 0 (tokens ++ [⟨.endOfInput, source.finish⟩]) (e.events 0)
        (source.reading maxDepth).log := by
  obtain ⟨tokens, e, hitems, hderives, hvalue, hanswer, hrest⟩ := reading_of_answer h
  obtain ⟨taken, t, events, htaken, hfront, htree, htold⟩ :=
    Machine.run_tells maxDepth source.finish source.items hanswer
  rw [← reading] at htaken hfront htold
  rw [hrest, List.append_nil, hitems] at htaken
  obtain rfl : tokens = taken := List.map_injective_iff.mpr (fun _ _ ↦ Item.token.inj) htaken
  rw [hrest] at hfront
  cases hfront
  obtain rfl : e.events 0 = events := htree
  exact ⟨tokens, e, hitems, hderives, hvalue, htold⟩

theorem filter_lexed_reading {source : Source} {maxDepth : Nat} {problem : Problem}
    (hwhole : (source.reading maxDepth).whole = .error problem) :
    ∃ (tokens : List Token) (rest : List Item), source.items = tokens.map Item.token ++ rest ∧
      rest.headD (.endAt source.finish) = problem.item ∧
      (source.reading maxDepth).log.filter (·.kind = .lexed)
        = tokens.map .lexed ++ problem.item.lexed := by
  cases hanswer : (source.reading maxDepth).answer with
  | error found =>
    cases (Machine.Result.whole_of_answer_eq_error hanswer).symm.trans hwhole
    obtain ⟨tokens, rest, hitems, hfront, hlexed⟩ :=
      Machine.run_tells_of_error maxDepth source.finish source.items hanswer
    exact ⟨tokens, rest, hitems, hfront, flatMap_lexed hitems ▸ hlexed⟩
  | ok e =>
    -- a token is left behind the tree, and it was looked at
    obtain ⟨tokens, t, events, hitems, hfront, -, htold⟩ :=
      Machine.run_tells maxDepth source.finish source.items hanswer
    rcases Machine.Result.answer_of_whole_eq_error hwhole with herror | ⟨t', rest, hrest, rfl⟩
    · cases hanswer.symm.trans herror
    · rw [← reading, hrest] at hitems hfront
      cases hfront
      refine ⟨tokens, _, hitems, rfl, htold.lexed.trans ?_⟩
      rw [List.flatMap_append, flatMap_lexed hitems]
      simp [Problem.item]

/-- **The log tells the evaluation.** If an evaluation comes to a value, the log has the tokens of
the input, and behind each of them, and at the end of the input, the events of the tree that have
its index: a record of the token itself if it begins an operand, and the operators whose right
operands end before it. Taken by their kinds, the records are the tokens in order, the words with
which operands begin in order, the operators with the values of their operands, those of the
operands first, and one record of the whole, which is the last and from which the input can be read
back.

If it comes to a diagnostic, there is no record of the whole, and the tokens in the log are those up
to the item that the diagnostic is about. -/
theorem log_tells (source : Source) (maxDepth : Nat) :
    (∀ value, (source.evaluate maxDepth).answer = .ok value →
      ∃ (tokens : List Token) (e : Expr), source.items = tokens.map Item.token ∧
        Derives .expr (tokens.map Token.lexeme) e ∧ value = e.value ∧
        (source.evaluate maxDepth).log
          = ((tokens ++ [Token.mk .endOfInput source.text.utf8ByteSize]).zipIdx.flatMap
              fun (t, i) ↦ (Item.token t).lexed
                ++ ((e.events 0).filter (·.1 = i)).map Prod.snd)
            ++ [.finished source.text value] ∧
        (source.evaluate maxDepth).log.filter (·.kind = .lexed) = tokens.map .lexed ∧
        (source.evaluate maxDepth).log.filter (·.kind = .operand) = e.operands.map .operand ∧
        (∀ i lexeme, (i, .operand lexeme) ∈ e.events 0 →
          (tokens.map Token.lexeme)[i]? = some lexeme) ∧
        (source.evaluate maxDepth).log.filter (·.kind = .combined)
          = (e.nodes.map fun node ↦ .combined node.1 node.2.1 node.2.2) ∧
        (source.evaluate maxDepth).log.filter (·.kind = .finished)
          = [.finished source.text value] ∧
        ∃ quoted, (Record.finished source.text value).line
            = "DEBUG " ++ quoted ++ " = " ++ Record.showFloat value ∧
          Text.Quoted.decode quoted.toList = some source.text.toList) ∧
    ∀ diagnostic, (source.evaluate maxDepth).answer = .error diagnostic →
      (source.evaluate maxDepth).log.filter (·.kind = .finished) = [] ∧
      ∃ (tokens : List Token) (rest : List Item), source.items = tokens.map Item.token ++ rest ∧
        rest.headD (.endAt source.text.utf8ByteSize) = diagnostic.problem.item ∧
        (source.evaluate maxDepth).log.filter (·.kind = .lexed)
          = tokens.map .lexed ++ diagnostic.problem.item.lexed := by
  have hnone : (source.reading maxDepth).log.filter (·.kind = .finished) = [] :=
    Machine.filter_finished_run ..
  rw [log_evaluate, Machine.Result.closing]
  refine ⟨fun value hvalue ↦ ?_, fun diagnostic hdiagnostic ↦ ?_⟩
  · obtain ⟨tokens, e, hitems, hderives, rfl, htold⟩ := transcribes_reading hvalue
    obtain ⟨e', hwhole, hvalue'⟩ := answer_eq_ok_iff.mp hvalue
    have hlexed := flatMap_lexed (hitems.trans (List.append_nil _).symm)
    rw [hwhole, ← source.finish_eq]
    dsimp only
    rw [← hvalue']
    refine ⟨tokens, e, hitems, hderives, rfl, congrArg (· ++ _) htold.log_eq, ?_, ?_, ?_, ?_, ?_,
      Record.quote source.text.toList, rfl, ?_⟩
    · rw [List.filter_append, htold.lexed, List.flatMap_append, hlexed]
      simp [Item.lexed]
    · rw [List.filter_append, htold.others _ (by decide), e.filter_operand_events]
      exact List.append_nil _
    · intro i lexeme hmem
      obtain ⟨i, rfl, hi⟩ := Expr.exists_getElem?_of_mem_events hmem
      rw [Nat.zero_add, ← hderives.lexemes_eq, hi]
    · rw [List.filter_append, htold.others _ (by decide), e.filter_combined_events]
      exact List.append_nil _
    · rw [List.filter_append, hnone]
      rfl
    · rw [Record.quote, String.toList_ofList, Text.Quoted.decode_encode]
  · obtain ⟨-, hwhole⟩ := answer_eq_error_iff.mp hdiagnostic
    rw [hwhole, ← source.finish_eq, List.append_nil]
    exact ⟨hnone, filter_lexed_reading hwhole⟩

/-- In `2*3-1` the product is told when the minus was scanned, and the difference in the end. -/
theorem log_tells_difference :
    (Source.evaluate ⟨none, "2*3-1"⟩ 2).answer
        = .ok (Numeral.value ['2'] * Numeral.value ['3'] - Numeral.value ['1']) ∧
      (Source.evaluate ⟨none, "2*3-1"⟩ 2).log
        = [.lexed ⟨.number ['2'], 0⟩, .operand (.number ['2']), .lexed ⟨.star, 1⟩,
            .lexed ⟨.number ['3'], 2⟩, .operand (.number ['3']), .lexed ⟨.minus, 3⟩,
            .combined .star (Numeral.value ['2']) (Numeral.value ['3']),
            .lexed ⟨.number ['1'], 4⟩, .operand (.number ['1']),
            .combined .minus (Numeral.value ['2'] * Numeral.value ['3']) (Numeral.value ['1']),
            .finished "2*3-1"
              (Numeral.value ['2'] * Numeral.value ['3'] - Numeral.value ['1'])] := by
  have hitems : Source.items ⟨none, "2*3-1"⟩ = [⟨.number ['2'], 0⟩, ⟨.star, 1⟩,
      ⟨.number ['3'], 2⟩, ⟨.minus, 3⟩, ⟨.number ['1'], 4⟩].map Item.token := by decide +kernel
  have hfactor (c : Char) (h : Numeral.WellFormed [c]) :
      Derives .power [.number [c]] (.number [c]) := .unary (.number h)
  have hproduct : Derives .term [.number ['2'], .star, .number ['3']]
      (.binary .star (.number ['2']) (.number ['3'])) :=
    .product (.inl rfl) (.factor (hfactor '2' (by decide))) (hfactor '3' (by decide))
  have hderives : Derives .expr [.number ['2'], .star, .number ['3'], .minus, .number ['1']]
      (.binary .minus (.binary .star (.number ['2']) (.number ['3'])) (.number ['1'])) :=
    .sum (.inr rfl) (.term hproduct) (.factor (hfactor '1' (by decide)))
  have hlevels : (Expr.binary .minus (.binary .star (.number ['2']) (.number ['3']))
      (.number ['1'])).levels ≤ 2 := by decide
  have hanswer := answer_of_derives hitems hderives hlevels
  refine ⟨hanswer, ?_⟩
  obtain ⟨tokens, e, htokens, htree, -, hlog, -⟩ := (log_tells ⟨none, "2*3-1"⟩ 2).1 _ hanswer
  obtain rfl := List.map_injective_iff.mpr (fun _ _ ↦ Item.token.inj) (hitems.symm.trans htokens)
  obtain rfl := hderives.unique htree
  exact hlog

end Source

end Calculator
