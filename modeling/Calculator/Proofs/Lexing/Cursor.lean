import Calculator.Proofs.Lexing.Items

/-!
# Calls in any order

A lexer may be asked to look at a token, to take it or to list it, in any order. Whatever the order
is, it behaves like a *cursor* that goes along the items of the source, of which the calls change
nothing: a call is about the item at the cursor, and the end of the input stands behind all items.

## What a cursor knows

The answers depend on two things alone: on how many items were taken, and on whether the listing
has come to its end. The third, how many items were scanned, is what the place of the lexer in the
text and the log depend on (`Cursor.byte`, `Cursor.log`). It is the number of the items that were
taken, and one more as long as a token is held.

## How the two are compared

`Cursor.Tracks` says that a lexer is where a cursor is. A held token is the item at the cursor, so
that to take it is to pass an item which was scanned before, and nothing is recorded again. Every
call keeps this (`Cursor.Tracks.call`).
-/

namespace Calculator

namespace Source

variable (source : Source)

/-- The item at an index; behind the last one there is the end of the input. -/
def itemAt (n : Nat) : Item := source.items[n]?.getD (.endAt source.text.utf8ByteSize)

theorem itemAt_of_le {n : Nat} (h : source.items.length ≤ n) :
    source.itemAt n = .endAt source.text.utf8ByteSize := by
  rw [itemAt, List.getElem?_eq_none h, Option.getD_none]

theorem lexeme_ne_endOfInput_of_itemAt {n : Nat} {t : Token} (hlt : n < source.items.length)
    (h : source.itemAt n = .token t) : t.lexeme ≠ .endOfInput := by
  rw [itemAt, List.getElem?_eq_getElem hlt, Option.getD_some] at h
  exact Item.lexeme_ne_endOfInput_of_mem_listFrom (h ▸ List.getElem_mem hlt)

theorem lexed_itemAt (n : Nat) :
    (source.itemAt n).lexed = source.items[n]?.toList.flatMap Item.lexed := by
  rw [itemAt]
  cases source.items[n]? with
  | none => rfl
  | some item => simp

end Source

/-- A place in the list of the items of a source. -/
structure Cursor where
  /-- How many items were taken. -/
  index : Nat
  /-- How many items were scanned, the end of the input among them. -/
  scanned : Nat
  /-- Whether the listing has come to its end. -/
  ended : Bool
  deriving DecidableEq, Repr

namespace Cursor

/-- The cursor before the first item. -/
def start : Cursor := ⟨0, 0, false⟩

/-- The item at the cursor is the last one scanned. -/
def look (cursor : Cursor) : Cursor := { cursor with scanned := cursor.index + 1 }

/-- The item at the cursor is taken. -/
def take (cursor : Cursor) : Cursor := { cursor.look with index := cursor.index + 1 }

/-- The answer to a call, and the cursor afterwards. -/
def call (source : Source) (cursor : Cursor) :
    Lexer.Call → Except Diagnostic (Option Token) × Cursor
  | .peek =>
    match source.itemAt cursor.index with
    | .token t => (.ok (some t), cursor.look)
    | .stray c offset => (.error ⟨source, .unrecognizedCharacter c offset⟩, cursor.take)
  | .next => (((source.itemAt cursor.index).result source).map some, cursor.take)
  | .yield =>
    if cursor.ended then (.ok none, cursor)
    else if cursor.index < source.items.length then
      (((source.itemAt cursor.index).result source).map some, cursor.take)
    else (.ok none, { cursor.take with ended := true })

/-- The answers to calls one after another, and the cursor after each of them. -/
def calls (source : Source) (cursor : Cursor) :
    List Lexer.Call → List (Except Diagnostic (Option Token) × Cursor)
  | [] => []
  | first :: rest => cursor.call source first :: calls source (cursor.call source first).2 rest

/-- The cursor after calls. -/
def after (source : Source) (cursor : Cursor) (calls : List Lexer.Call) : Cursor :=
  calls.foldl (fun cursor first ↦ (cursor.call source first).2) cursor

/-- Where the last item that was scanned ends. -/
def byte (source : Source) (cursor : Cursor) : Nat :=
  match cursor.scanned with
  | 0 => 0
  | n + 1 => (source.itemAt n).span.stop

/-- A record of each token that was scanned. -/
def log (source : Source) (cursor : Cursor) : List Record :=
  (source.items.take cursor.scanned).flatMap Item.lexed

/-! ## Lexers at a cursor -/

/-- `cursor.Tracks source lexer` says that the lexer is where the cursor is. -/
structure Tracks (source : Source) (cursor : Cursor) (lexer : Lexer) : Prop where
  source_eq : lexer.source = source
  finish : lexer.finish = source.text.utf8ByteSize
  ended : lexer.ended = cursor.ended
  unscanned : lexer.unscanned = source.items.drop cursor.scanned
  byte : lexer.byte = cursor.byte source
  held :
    match lexer.held with
    | none => cursor.scanned = cursor.index
    | some t => cursor.scanned = cursor.index + 1 ∧ source.itemAt cursor.index = .token t

theorem tracks_ofSource (source : Source) : start.Tracks source (.ofSource source) :=
  ⟨rfl, (Lexer.finish_ofSource source).trans source.finish_eq, rfl, rfl, rfl, rfl⟩

namespace Tracks

variable {source : Source} {cursor : Cursor} {lexer : Lexer}

theorem scanned_of_held_none (h : cursor.Tracks source lexer) (hheld : lexer.held = none) :
    cursor.scanned = cursor.index := by
  have := h.held
  rwa [hheld] at this

theorem scanned_of_held_some (h : cursor.Tracks source lexer) {t : Token}
    (hheld : lexer.held = some t) :
    cursor.scanned = cursor.index + 1 ∧ source.itemAt cursor.index = .token t := by
  have := h.held
  rwa [hheld] at this

/-- With a token held, the item at the cursor is the last one scanned already. -/
theorem look_of_held_some (h : cursor.Tracks source lexer) {t : Token}
    (hheld : lexer.held = some t) : cursor.look = cursor := by
  rw [look, ← (h.scanned_of_held_some hheld).1]

theorem coherent (h : cursor.Tracks source lexer) : lexer.Coherent := by
  intro t hheld hend
  obtain ⟨hscanned, hitem⟩ := h.scanned_of_held_some hheld
  have hle : source.items.length ≤ cursor.index :=
    Nat.le_of_not_lt fun hlt ↦ source.lexeme_ne_endOfInput_of_itemAt hlt hitem hend
  rw [source.itemAt_of_le hle] at hitem
  cases hitem
  refine ⟨?_, h.finish.symm⟩
  rw [h.unscanned, hscanned, List.drop_eq_nil_of_le (Nat.le_succ_of_le hle)]

theorem ahead (h : cursor.Tracks source lexer) :
    lexer.ahead = source.items.drop cursor.index := by
  cases hheld : lexer.held with
  | none =>
    rw [Lexer.ahead_of_held_none hheld, h.unscanned, h.scanned_of_held_none hheld]
  | some t =>
    obtain ⟨hscanned, hitem⟩ := h.scanned_of_held_some hheld
    rw [Lexer.ahead_of_held_some hheld, h.unscanned, hscanned]
    by_cases hlt : cursor.index < source.items.length
    · rw [if_neg (source.lexeme_ne_endOfInput_of_itemAt hlt hitem), List.drop_eq_getElem_cons hlt,
        ← hitem, Source.itemAt, List.getElem?_eq_getElem hlt, Option.getD_some]
    · have hle := Nat.le_of_not_lt hlt
      rw [source.itemAt_of_le hle] at hitem
      cases hitem
      rw [if_pos rfl, List.drop_eq_nil_of_le hle]

theorem run_scan (h : cursor.Tracks source lexer) (hheld : lexer.held = none) :
    ∃ after, Lexer.scan.run lexer
        = ⟨(source.itemAt cursor.index).result source, after, (source.itemAt cursor.index).lexed⟩ ∧
      after.held = none ∧ cursor.take.Tracks source after := by
  have hscanned := h.scanned_of_held_none hheld
  have hunscanned := h.unscanned
  rw [hscanned] at hunscanned
  have hitem : lexer.unscanned.headD (.endAt lexer.finish) = source.itemAt cursor.index := by
    rw [hunscanned, h.finish, Source.itemAt, List.headD_eq_head?_getD, List.head?_drop]
  obtain ⟨rest, hrun, hlist, hfinish⟩ := Lexer.run_scan lexer
  rw [hitem] at hrun hlist hfinish
  rw [hunscanned, List.tail_drop] at hlist
  rw [h.source_eq] at hrun
  refine ⟨_, hrun, hheld, rfl, hfinish.trans h.finish, h.ended, hlist, rfl, ?_⟩
  rw [hheld]
  rfl

/-- What is recorded of the item at the cursor when it is scanned. -/
theorem log_append_lexed (h : cursor.Tracks source lexer) (hheld : lexer.held = none) :
    cursor.log source ++ (source.itemAt cursor.index).lexed = cursor.look.log source := by
  rw [log, log, look, h.scanned_of_held_none hheld, List.take_add_one, List.flatMap_append,
    source.lexed_itemAt]

theorem run_next (h : cursor.Tracks source lexer) :
    ∃ after log, Lexer.next.run lexer
        = ⟨(source.itemAt cursor.index).result source, after, log⟩ ∧
      cursor.take.Tracks source after ∧ cursor.log source ++ log = cursor.take.log source := by
  cases hheld : lexer.held with
  | none =>
    obtain ⟨after, hrun, -, htracks⟩ := h.run_scan hheld
    exact ⟨after, _, by simp only [Lexer.next, hheld, hrun], htracks, h.log_append_lexed hheld⟩
  | some t =>
    -- it was scanned and recorded before
    obtain ⟨hscanned, hitem⟩ := h.scanned_of_held_some hheld
    refine ⟨{ lexer with held := none }, [], ?_, ?_, ?_⟩
    · simp only [Lexer.next, hheld, hitem, Item.result_token]
    · rw [take, h.look_of_held_some hheld]
      exact ⟨h.source_eq, h.finish, h.ended, h.unscanned, h.byte, hscanned⟩
    · rw [take, h.look_of_held_some hheld, List.append_nil]
      rfl

theorem run_peek_of_token (h : cursor.Tracks source lexer) {t : Token}
    (hitem : source.itemAt cursor.index = .token t) :
    ∃ after log, Lexer.peek.run lexer = ⟨.ok t, after, log⟩ ∧
      cursor.look.Tracks source after ∧ cursor.log source ++ log = cursor.look.log source := by
  cases hheld : lexer.held with
  | none =>
    obtain ⟨after, hrun, -, htracks⟩ := h.run_scan hheld
    have hlog := h.log_append_lexed hheld
    rw [hitem] at hrun hlog
    refine ⟨{ after with held := some t }, _, ?_, ?_, hlog⟩
    · simp only [Lexer.peek, hheld, hrun, Item.result_token]
    · exact ⟨htracks.source_eq, htracks.finish, htracks.ended, htracks.unscanned, htracks.byte,
        rfl, hitem⟩
  | some held =>
    have heq := (h.scanned_of_held_some hheld).2.symm.trans hitem
    cases heq
    rw [h.look_of_held_some hheld]
    exact ⟨lexer, [], by simp only [Lexer.peek, hheld], h, List.append_nil _⟩

theorem run_peek_of_stray (h : cursor.Tracks source lexer) {c : Char} {offset : Nat}
    (hitem : source.itemAt cursor.index = .stray c offset) :
    ∃ after log, Lexer.peek.run lexer
        = ⟨.error ⟨source, .unrecognizedCharacter c offset⟩, after, log⟩ ∧
      cursor.take.Tracks source after ∧ cursor.log source ++ log = cursor.take.log source := by
  cases hheld : lexer.held with
  | none =>
    obtain ⟨after, hrun, -, htracks⟩ := h.run_scan hheld
    have hlog := h.log_append_lexed hheld
    rw [hitem] at hrun hlog
    exact ⟨after, _, by simp only [Lexer.peek, hheld, hrun, Item.result_stray], htracks, hlog⟩
  | some held =>
    cases (h.scanned_of_held_some hheld).2.symm.trans hitem

/-- **One call.** A lexer answers as the cursor does and comes to where the cursor comes to, and it
records what is newly scanned. -/
theorem call (h : cursor.Tracks source lexer) (first : Lexer.Call) :
    ((Lexer.call first).run lexer).answer = (cursor.call source first).1 ∧
      (cursor.call source first).2.Tracks source ((Lexer.call first).run lexer).lexer ∧
      cursor.log source ++ ((Lexer.call first).run lexer).log
        = (cursor.call source first).2.log source := by
  cases first with
  | peek =>
    rw [Lexer.call, Pass.run_map, Cursor.call]
    cases hitem : source.itemAt cursor.index with
    | token t =>
      obtain ⟨after, log, hrun, htracks, hlog⟩ := h.run_peek_of_token hitem
      rw [hrun]
      exact ⟨rfl, htracks, hlog⟩
    | stray c offset =>
      obtain ⟨after, log, hrun, htracks, hlog⟩ := h.run_peek_of_stray hitem
      rw [hrun]
      exact ⟨rfl, htracks, hlog⟩
  | next =>
    obtain ⟨after, log, hrun, htracks, hlog⟩ := h.run_next
    rw [Lexer.call, Pass.run_map, Cursor.call, hrun]
    exact ⟨rfl, htracks, hlog⟩
  | yield =>
    obtain ⟨after, log, hrun, htracks, hlog⟩ := h.run_next
    rw [Lexer.call, Cursor.call, ← h.ended]
    cases hended : lexer.ended with
    | true =>
      rw [Lexer.run_yield_of_ended hended, if_pos rfl]
      exact ⟨rfl, h, List.append_nil _⟩
    | false =>
      rw [if_neg Bool.false_ne_true]
      by_cases hlt : cursor.index < source.items.length
      · -- an item is no end of the input
        rw [if_pos hlt]
        cases hitem : source.itemAt cursor.index with
        | token t =>
          have hne := source.lexeme_ne_endOfInput_of_itemAt hlt hitem
          rw [hitem] at hrun
          simp only [Lexer.yield, hended, hrun, Item.result_token, hne]
          exact ⟨rfl, htracks, hlog⟩
        | stray c offset =>
          rw [hitem] at hrun
          simp only [Lexer.yield, hended, hrun, Item.result_stray]
          exact ⟨rfl, htracks, hlog⟩
      · rw [if_neg hlt]
        rw [source.itemAt_of_le (Nat.le_of_not_lt hlt)] at hrun
        simp only [Lexer.yield, hended, hrun, Item.endAt, Item.result_token]
        exact ⟨rfl, ⟨htracks.source_eq, htracks.finish, rfl, htracks.unscanned, htracks.byte,
          htracks.held⟩, hlog⟩

end Tracks

/-! ## Calls one after another -/

/-- **Calls in any order.** From wherever a cursor is, a lexer there answers all calls as the cursor
does, is in the same place of the text after each of them, and in the end has recorded the same. -/
theorem Tracks.calls {source : Source} {cursor : Cursor} {lexer : Lexer}
    (h : cursor.Tracks source lexer) (calls : List Lexer.Call) :
    (Lexer.calls calls lexer).map (fun step ↦ (step.answer, step.lexer.byte))
        = (cursor.calls source calls).map (fun step ↦ (step.1, step.2.byte source)) ∧
      cursor.log source ++ (Lexer.calls calls lexer).flatMap Step.log
        = (cursor.after source calls).log source := by
  induction calls generalizing cursor lexer with
  | nil => exact ⟨rfl, List.append_nil _⟩
  | cons first rest ih =>
    obtain ⟨hanswer, htracks, hlog⟩ := h.call first
    obtain ⟨hanswers, hlogs⟩ := ih htracks
    refine ⟨?_, ?_⟩
    · rw [Lexer.calls, Cursor.calls, List.map_cons, List.map_cons, hanswer, htracks.byte, hanswers]
    · rw [Lexer.calls, List.flatMap_cons, ← List.append_assoc, hlog, hlogs]
      rfl

end Cursor

/-- **A lexer is a cursor.** From the beginning of a source a lexer answers calls in any order as
the cursor over the items does. In the text it always stands where the last item ends that was
scanned, and its log has one record for each token that was scanned. -/
theorem Lexer.calls_eq_cursor (source : Source) (calls : List Call) :
    (ofSource source).listing = source.items.map (Item.result source) ∧
    (ofSource source).byte = Cursor.start.byte source ∧
    (Lexer.calls calls (ofSource source)).map (fun step ↦ (step.answer, step.lexer.byte))
      = (Cursor.start.calls source calls).map (fun step ↦ (step.1, step.2.byte source)) ∧
    (Lexer.calls calls (ofSource source)).flatMap Step.log
      = (Cursor.start.after source calls).log source := by
  obtain ⟨hanswers, hlog⟩ := (Cursor.tracks_ofSource source).calls calls
  exact ⟨listing_ofSource source, rfl, hanswers, hlog⟩

end Calculator
