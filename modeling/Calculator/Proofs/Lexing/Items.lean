import Calculator.Lexer

/-!
# The items of a text

What a lexer meets in a text are *items*: tokens, and characters that are in no lexeme. Which items
there are and where they stand is fixed by the text alone, so they are listed here by recursion on
the text (`Item.listFrom`), with no lexer in sight.

## What is ahead of a lexer

A lexer is a place in that list. `Lexer.ahead` are the items that were not taken yet, a held token
among them, and `Lexer.front` is the next one, which is the end of the input if there are no more.
Taking the front and looking at it are described in these terms alone (`run_next`, `run_peek`), so
that whatever reads through a lexer can be followed on the list of items.

The one thing that a lexer could have wrong is a held end of the input that is not where the input
ends. No call brings that about; `Lexer.Coherent` excludes it.

## The log of a held token

A token is recorded when it is scanned, which is before it is taken if it was looked at first. So
the front adds its record to the log, `Lexer.frontLog`, unless it is held already.
-/

namespace Calculator

/-- What is met in a text: a token, or a character that is in no lexeme. -/
inductive Item where
  | token (token : Token)
  | stray (character : Char) (offset : Nat)
  deriving DecidableEq, Repr

namespace Item

/-- The characters of an item. -/
def text : Item → List Char
  | token t => t.lexeme.text
  | stray c _ => [c]

/-- The stretch of the input that an item covers. -/
def span : Item → Span
  | token t => t.span
  | stray c offset => ⟨offset, c.utf8Size⟩

/-- What a lexer answers when it meets an item. -/
def result (source : Source) : Item → Except Diagnostic Token
  | token t => .ok t
  | stray c offset => .error ⟨source, .unrecognizedCharacter c offset⟩

/-- The record that is made of an item: of a token, unless it is the end of the input. -/
def lexed : Item → List Record
  | token t => if t.lexeme = .endOfInput then [] else [.lexed t]
  | stray _ _ => []

/-- The end of the input. -/
def endAt (offset : Nat) : Item := .token ⟨.endOfInput, offset⟩

@[simp] theorem result_token (source : Source) (t : Token) : (token t).result source = .ok t := rfl

@[simp] theorem result_stray (source : Source) (c : Char) (offset : Nat) :
    (stray c offset).result source = .error ⟨source, .unrecognizedCharacter c offset⟩ := rfl

theorem result_inj {source : Source} {item item' : Item} :
    item.result source = item'.result source ↔ item = item' := by
  cases item <;> cases item' <;> simp

theorem length_span (item : Item) : item.span.length = Text.size item.text := by
  cases item <;> rfl

theorem stop_span (item : Item) : item.span.stop = item.span.offset + Text.size item.text := by
  rw [Span.stop, length_span]

/-! ## The list of the items -/

/-- The item at the head of a text that begins with `c`, and the text after it. -/
def munch (offset : Nat) (c : Char) (rest : List Char) : Item × List Char :=
  match Lexeme.munch? c rest with
  | some (lexeme, after) => (.token ⟨lexeme, offset⟩, after)
  | none => (.stray c offset, rest)

theorem munch_of_some {c : Char} {rest : List Char} {lexeme : Lexeme} {after : List Char}
    (h : Lexeme.munch? c rest = some (lexeme, after)) (offset : Nat) :
    munch offset c rest = (.token ⟨lexeme, offset⟩, after) := by
  rw [munch, h]

theorem munch_of_none {c : Char} {rest : List Char} (h : Lexeme.munch? c rest = none)
    (offset : Nat) : munch offset c rest = (.stray c offset, rest) := by
  rw [munch, h]

@[simp] theorem offset_munch (offset : Nat) (c : Char) (rest : List Char) :
    (munch offset c rest).1.span.offset = offset := by
  unfold munch
  split <;> rfl

theorem text_append_munch (offset : Nat) (c : Char) (rest : List Char) :
    (munch offset c rest).1.text ++ (munch offset c rest).2 = c :: rest := by
  unfold munch
  split
  · next h => exact Lexeme.text_append_of_munch? h
  · rfl

theorem text_munch_ne_nil (offset : Nat) (c : Char) (rest : List Char) :
    (munch offset c rest).1.text ≠ [] := by
  unfold munch
  split
  · next h => exact Lexeme.text_ne_nil_of_munch? h
  · exact List.cons_ne_nil _ _

theorem length_munch_lt (offset : Nat) (c : Char) (rest : List Char) :
    (munch offset c rest).2.length < (c :: rest).length := by
  rw [← text_append_munch offset c rest, List.length_append]
  have := List.length_pos_iff.mpr (text_munch_ne_nil offset c rest)
  omega

theorem stop_munch_add (offset : Nat) (c : Char) (rest : List Char) :
    (munch offset c rest).1.span.stop + Text.size (munch offset c rest).2
      = offset + Text.size (c :: rest) := by
  rw [stop_span, offset_munch, ← text_append_munch offset c rest, Text.size_append]
  omega

/-- The items of a text that begins at an offset. -/
def listFrom (offset : Nat) : List Char → List Item
  | [] => []
  | c :: rest =>
    if c.isWhitespace then listFrom (offset + c.utf8Size) rest
    else
      (munch offset c rest).1
        :: listFrom (munch offset c rest).1.span.stop (munch offset c rest).2
termination_by text => text.length
decreasing_by
  · exact Nat.lt_succ_self _
  · exact length_munch_lt offset c rest

@[simp] theorem listFrom_nil (offset : Nat) : listFrom offset [] = [] := by
  rw [listFrom]

theorem listFrom_cons_of_isWhitespace {c : Char} (h : c.isWhitespace = true) (offset : Nat)
    (rest : List Char) : listFrom offset (c :: rest) = listFrom (offset + c.utf8Size) rest := by
  rw [listFrom, if_pos h]

theorem listFrom_cons_of_not_isWhitespace {c : Char} (h : ¬c.isWhitespace = true) (offset : Nat)
    (rest : List Char) :
    listFrom offset (c :: rest) = (munch offset c rest).1
      :: listFrom (munch offset c rest).1.span.stop (munch offset c rest).2 := by
  rw [listFrom, if_neg h]

/-- What separates the items makes no difference but to their places. -/
theorem listFrom_dropWhile (offset : Nat) (text : List Char) :
    listFrom offset text
      = listFrom (offset + Text.size (text.takeWhile Char.isWhitespace))
          (text.dropWhile Char.isWhitespace) := by
  induction text generalizing offset with
  | nil => simp
  | cons c rest ih =>
    by_cases h : c.isWhitespace = true
    · rw [listFrom_cons_of_isWhitespace h, ih, List.takeWhile_cons_of_pos h,
        List.dropWhile_cons_of_pos h, Text.size_cons, Nat.add_assoc]
    · rw [List.takeWhile_cons_of_neg h, List.dropWhile_cons_of_neg h, Text.size_nil,
        Nat.add_zero]

theorem text_ne_nil_of_mem_listFrom {item : Item} (offset : Nat) (text : List Char)
    (h : item ∈ listFrom offset text) : item.text ≠ [] := by
  fun_induction listFrom offset text with
  | case1 => cases h
  | case2 offset c rest _ ih => exact ih h
  | case3 offset c rest _ ih =>
    rcases List.mem_cons.mp h with rfl | h
    · exact text_munch_ne_nil offset c rest
    · exact ih h

theorem lexeme_ne_endOfInput_of_mem_listFrom {t : Token} {offset : Nat} {text : List Char}
    (h : .token t ∈ listFrom offset text) : t.lexeme ≠ .endOfInput := by
  intro hend
  refine text_ne_nil_of_mem_listFrom offset text h ?_
  rw [Item.text, hend]
  rfl

end Item

/-- The item that a problem is about. -/
def Problem.item : Problem → Item
  | unexpectedToken found | missingClosingParen found _ | depthLimitExceeded _ found => .token found
  | malformedNumber literal offset => .token ⟨.number literal, offset⟩
  | unrecognizedCharacter c offset => .stray c offset

@[simp] theorem Problem.span_item (problem : Problem) : problem.item.span = problem.span := by
  cases problem <;> rfl

/-- The items of a source. -/
def Source.items (source : Source) : List Item := Item.listFrom 0 source.text.toList

/-- Where a source ends. -/
def Source.finish (source : Source) : Nat := Text.size source.text.toList

theorem Source.finish_eq (source : Source) : source.finish = source.text.utf8ByteSize := by
  rw [finish, ← Text.utf8ByteSize_ofList, String.ofList_toList]

namespace Lexer

/-! ## What is ahead of a lexer -/

/-- Where the input ends. -/
def finish (lexer : Lexer) : Nat := lexer.byte + Text.size lexer.rest

/-- The items that were not scanned yet. -/
def unscanned (lexer : Lexer) : List Item := Item.listFrom lexer.byte lexer.rest

/-- The items that were not taken yet. -/
def ahead (lexer : Lexer) : List Item :=
  match lexer.held with
  | none => lexer.unscanned
  | some token =>
    if token.lexeme = .endOfInput then [] else .token token :: lexer.unscanned

/-- The next item. -/
def front (lexer : Lexer) : Item := lexer.ahead.headD (.endAt lexer.finish)

/-- What the front adds to the log when it is taken or looked at. -/
def frontLog (lexer : Lexer) : List Record :=
  match lexer.held with
  | none => lexer.front.lexed
  | some _ => []

/-- If the end of the input is held, then this is where the input ends. -/
def Coherent (lexer : Lexer) : Prop :=
  ∀ token, lexer.held = some token → token.lexeme = .endOfInput →
    lexer.unscanned = [] ∧ token.offset = lexer.finish

/-- From a lexer one comes to `after`, with these items ahead and this token held. -/
structure MovesTo (lexer after : Lexer) (items : List Item) (held : Option Token) : Prop where
  source : after.source = lexer.source
  finish : after.finish = lexer.finish
  ended : after.ended = lexer.ended
  held : after.held = held
  ahead : after.ahead = items
  coherent : after.Coherent

theorem MovesTo.trans {lexer after last : Lexer} {items items' : List Item}
    {held held' : Option Token} (h : lexer.MovesTo after items held)
    (h' : after.MovesTo last items' held') : lexer.MovesTo last items' held' :=
  ⟨h'.source.trans h.source, h'.finish.trans h.finish, h'.ended.trans h.ended, h'.held, h'.ahead,
    h'.coherent⟩

theorem MovesTo.self {lexer after : Lexer} {items : List Item} {held : Option Token}
    (h : lexer.MovesTo after items held) : lexer.MovesTo after after.ahead after.held :=
  ⟨h.source, h.finish, h.ended, rfl, rfl, h.coherent⟩

theorem ahead_of_held_none {lexer : Lexer} (h : lexer.held = none) :
    lexer.ahead = lexer.unscanned := by
  rw [ahead, h]

theorem ahead_of_held_some {lexer : Lexer} {token : Token} (h : lexer.held = some token) :
    lexer.ahead =
      if token.lexeme = .endOfInput then [] else .token token :: lexer.unscanned := by
  rw [ahead, h]

theorem frontLog_of_held_none {lexer : Lexer} (h : lexer.held = none) :
    lexer.frontLog = lexer.front.lexed := by
  rw [frontLog, h]

theorem frontLog_of_held_some {lexer : Lexer} {token : Token} (h : lexer.held = some token) :
    lexer.frontLog = [] := by
  rw [frontLog, h]

theorem coherent_of_held_none {lexer : Lexer} (h : lexer.held = none) : lexer.Coherent := by
  intro token htoken
  rw [h] at htoken
  cases htoken

theorem front_of_held_some {lexer : Lexer} {token : Token} (hc : lexer.Coherent)
    (h : lexer.held = some token) : lexer.front = .token token := by
  rw [front, ahead_of_held_some h]
  by_cases hend : token.lexeme = .endOfInput
  · obtain ⟨-, hoffset⟩ := hc token h hend
    rw [if_pos hend, List.headD_nil, Item.endAt, ← hend, ← hoffset]
  · rw [if_neg hend, List.headD_cons]

theorem tail_ahead_of_held_some {lexer : Lexer} {token : Token} (hc : lexer.Coherent)
    (h : lexer.held = some token) : lexer.ahead.tail = lexer.unscanned := by
  rw [ahead_of_held_some h]
  by_cases hend : token.lexeme = .endOfInput
  · rw [if_pos hend, List.tail_nil, (hc token h hend).1]
  · rw [if_neg hend, List.tail_cons]

/-! ## What the calls do -/

/-- Scanning meets the first item that was not scanned, and goes behind it. -/
theorem run_scan (lexer : Lexer) :
    let item := lexer.unscanned.headD (.endAt lexer.finish)
    ∃ rest, scan.run lexer
        = ⟨item.result lexer.source, { lexer with rest := rest, byte := item.span.stop },
            item.lexed⟩ ∧
      Item.listFrom item.span.stop rest = lexer.unscanned.tail ∧
      item.span.stop + Text.size rest = lexer.finish := by
  have hsize : lexer.byte + Text.size (lexer.rest.takeWhile Char.isWhitespace)
      + Text.size (lexer.rest.dropWhile Char.isWhitespace) = lexer.finish := by
    rw [Nat.add_assoc, ← Text.size_append, List.takeWhile_append_dropWhile, finish]
  have hitems := Item.listFrom_dropWhile lexer.byte lexer.rest
  rw [← unscanned] at hitems
  unfold scan
  dsimp only
  split
  · next hrest =>
    rw [hrest] at hsize hitems
    rw [Text.size_nil, Nat.add_zero] at hsize
    rw [hitems, hsize, Item.listFrom_nil]
    exact ⟨[], rfl, by simp, rfl⟩
  · next c rest hrest =>
    have hc : ¬c.isWhitespace = true := by
      have := List.head?_dropWhile_not Char.isWhitespace lexer.rest
      rw [hrest] at this
      simpa using this
    rw [hrest] at hsize hitems
    rw [Item.listFrom_cons_of_not_isWhitespace hc] at hitems
    rw [hitems, List.headD_cons, List.tail_cons]
    refine ⟨_, ?_, rfl, by rw [Item.stop_munch_add, hsize]⟩
    split
    · next hmunch =>
      rw [Item.munch_of_some hmunch, Item.lexed, if_neg (Lexeme.ne_endOfInput_of_munch? hmunch)]
      rfl
    · next hmunch =>
      rw [Item.munch_of_none hmunch]
      rfl

/-- Taking a token takes the front. -/
theorem run_next {lexer : Lexer} (hc : lexer.Coherent) :
    ∃ after, next.run lexer = ⟨lexer.front.result lexer.source, after, lexer.frontLog⟩ ∧
      lexer.MovesTo after lexer.ahead.tail none := by
  cases hheld : lexer.held with
  | none =>
    obtain ⟨rest, hrun, hlist, hfinish⟩ := run_scan lexer
    have hahead := ahead_of_held_none hheld
    rw [← hahead] at hrun hlist hfinish
    rw [← front] at hrun hlist hfinish
    refine ⟨{ lexer with rest := rest, byte := lexer.front.span.stop }, ?_,
      ⟨rfl, hfinish, rfl, hheld, ?_, coherent_of_held_none hheld⟩⟩
    · simp only [next, hheld, hrun, frontLog_of_held_none hheld]
    · rw [← hlist]
      exact ahead_of_held_none hheld
  | some token =>
    -- it was recorded when it was scanned
    refine ⟨{ lexer with held := none }, ?_,
      ⟨rfl, rfl, rfl, rfl, (tail_ahead_of_held_some hc hheld).symm, coherent_of_held_none rfl⟩⟩
    rw [front_of_held_some hc hheld, frontLog_of_held_some hheld]
    simp only [next, hheld, Item.result_token]

/-- If the first item that was not scanned is a token, it heads the list unless it is the end. -/
theorem unscanned_eq_of_headD {lexer : Lexer} {token : Token}
    (h : lexer.unscanned.headD (.endAt lexer.finish) = .token token) :
    (if token.lexeme = .endOfInput then [] else .token token :: lexer.unscanned.tail)
        = lexer.unscanned ∧
      (token.lexeme = .endOfInput → token.offset = lexer.finish) := by
  cases hitems : lexer.unscanned with
  | nil =>
    rw [hitems] at h
    cases h
    exact ⟨if_pos rfl, fun _ ↦ rfl⟩
  | cons item items =>
    rw [hitems] at h
    cases h
    have hne : token.lexeme ≠ .endOfInput :=
      Item.lexeme_ne_endOfInput_of_mem_listFrom (hitems ▸ List.mem_cons_self)
    exact ⟨if_neg hne, fun hend ↦ absurd hend hne⟩

theorem run_peek_of_token {lexer : Lexer} (hc : lexer.Coherent) {token : Token}
    (hfront : lexer.front = .token token) :
    ∃ after, peek.run lexer = ⟨.ok token, after, lexer.frontLog⟩ ∧
      lexer.MovesTo after lexer.ahead (some token) := by
  cases hheld : lexer.held with
  | none =>
    obtain ⟨rest, hrun, hlist, hfinish⟩ := run_scan lexer
    rw [front, ahead_of_held_none hheld] at hfront
    obtain ⟨hcons, hoffset⟩ := unscanned_eq_of_headD hfront
    rw [hfront] at hrun hlist hfinish
    refine ⟨{ lexer with rest := rest, byte := token.span.stop, held := some token }, ?_,
      ⟨rfl, hfinish, rfl, rfl, ?_, ?_⟩⟩
    · rw [frontLog_of_held_none hheld, front, ahead_of_held_none hheld, hfront]
      simp only [peek, hheld, hrun, Item.result_token]
      rfl
    · rw [ahead_of_held_none hheld, ← hcons, ← hlist]
      rfl
    · rintro _ ⟨rfl⟩ hend
      rw [if_pos hend] at hcons
      rw [← hcons] at hlist
      exact ⟨hlist, (hoffset hend).trans hfinish.symm⟩
  | some held =>
    have hsome : held = token := by
      have := (front_of_held_some hc hheld).symm.trans hfront
      cases this
      rfl
    subst hsome
    refine ⟨lexer, ?_, ⟨rfl, rfl, rfl, hheld, rfl, hc⟩⟩
    rw [frontLog_of_held_some hheld]
    simp only [peek, hheld]

/-- Looking at a character that is in no lexeme takes it. -/
theorem run_peek_of_stray {lexer : Lexer} (hc : lexer.Coherent) {c : Char} {offset : Nat}
    (hfront : lexer.front = .stray c offset) :
    ∃ after, peek.run lexer
        = ⟨.error ⟨lexer.source, .unrecognizedCharacter c offset⟩, after, lexer.frontLog⟩ ∧
      lexer.MovesTo after lexer.ahead.tail none := by
  cases hheld : lexer.held with
  | none =>
    obtain ⟨after, hrun, hmoves⟩ := run_next hc
    rw [hfront, Item.result_stray] at hrun
    simp only [next, hheld] at hrun
    exact ⟨after, by simp only [peek, hheld, hrun], hmoves⟩
  | some held =>
    have := (front_of_held_some hc hheld).symm.trans hfront
    cases this

/-! ## The listing -/

theorem lexeme_ne_endOfInput_of_mem_ahead {lexer : Lexer} {token : Token}
    (h : .token token ∈ lexer.ahead) : token.lexeme ≠ .endOfInput := by
  rw [ahead] at h
  split at h
  · exact Item.lexeme_ne_endOfInput_of_mem_listFrom h
  · split at h
    · cases h
    · next hne =>
      rcases List.mem_cons.mp h with h | h
      · cases h
        exact hne
      · exact Item.lexeme_ne_endOfInput_of_mem_listFrom h

theorem run_yield_of_cons {lexer : Lexer} (hc : lexer.Coherent) (hended : lexer.ended = false)
    {item : Item} {items : List Item} (h : lexer.ahead = item :: items) :
    ∃ after, yield.run lexer = ⟨(item.result lexer.source).map some, after, lexer.frontLog⟩ ∧
      lexer.MovesTo after items none := by
  obtain ⟨after, hrun, hmoves⟩ := run_next hc
  rw [h, List.tail_cons] at hmoves
  rw [front, h, List.headD_cons] at hrun
  refine ⟨after, ?_, hmoves⟩
  cases item with
  | token token =>
    have hne : token.lexeme ≠ .endOfInput :=
      lexeme_ne_endOfInput_of_mem_ahead (h ▸ List.mem_cons_self)
    simp [yield, hended, hrun, hne, Except.map]
  | stray c offset => simp [yield, hended, hrun, Except.map]

theorem run_yield_of_nil {lexer : Lexer} (hc : lexer.Coherent) (hended : lexer.ended = false)
    (h : lexer.ahead = []) :
    (yield.run lexer).answer = .ok none ∧ (yield.run lexer).lexer.ended = true := by
  obtain ⟨after, hrun, -⟩ := run_next hc
  rw [front, h, List.headD_nil] at hrun
  simp [yield, hended, hrun, Item.endAt]

theorem run_yield_of_ended {lexer : Lexer} (h : lexer.ended = true) :
    yield.run lexer = ⟨.ok none, lexer, []⟩ := by
  simp only [yield, h, if_true]

theorem listing_eq (lexer : Lexer) :
    lexer.listing =
      match (yield.run lexer).answer with
      | .ok none => []
      | .ok (some token) => .ok token :: (yield.run lexer).lexer.listing
      | .error diagnostic => .error diagnostic :: (yield.run lexer).lexer.listing := by
  rw [listing]
  split
  case h_1 hanswer => rw [hanswer]
  case h_2 hanswer => simp only [hanswer]
  case h_3 hanswer => simp only [hanswer]

/-- The listing gives the items ahead one after another. -/
theorem listing_eq_map_ahead {lexer : Lexer} (hc : lexer.Coherent) (hended : lexer.ended = false) :
    lexer.listing = lexer.ahead.map (Item.result lexer.source) := by
  induction hitems : lexer.ahead generalizing lexer with
  | nil => rw [listing_eq, (run_yield_of_nil hc hended hitems).1, List.map_nil]
  | cons item items ih =>
    obtain ⟨after, hrun, hmoves⟩ := run_yield_of_cons hc hended hitems
    have hrest := ih hmoves.coherent (hmoves.ended.trans hended) hmoves.ahead
    rw [hmoves.source] at hrest
    rw [List.map_cons, ← hrest]
    cases item with
    | token token => rw [listing_eq, hrun, Item.result_token, Except.map]
    | stray c offset => rw [listing_eq, hrun, Item.result_stray, Except.map]

theorem answers_of_ended {lexer : Lexer} (h : lexer.ended = true) (n : Nat) :
    (calls (List.replicate n .yield) lexer).map Step.answer = List.replicate n (.ok none) := by
  induction n with
  | zero => rfl
  | succ n ih =>
    rw [List.replicate_succ, List.replicate_succ, calls, call, run_yield_of_ended h]
    exact congrArg _ ih

/-- Listed one by one, the items ahead come first, and then whatever is asked for at the end. -/
theorem answers_replicate_append {lexer : Lexer} (hc : lexer.Coherent)
    (hended : lexer.ended = false) :
    ∃ last : Lexer, last.Coherent ∧ last.ended = false ∧ last.ahead = [] ∧
      last.source = lexer.source ∧ last.finish = lexer.finish ∧
      ∀ more, (calls (List.replicate lexer.ahead.length .yield ++ more) lexer).map Step.answer
        = (lexer.ahead.map fun item ↦ (item.result lexer.source).map some)
          ++ (calls more last).map Step.answer := by
  induction hitems : lexer.ahead generalizing lexer with
  | nil => exact ⟨lexer, hc, hended, hitems, rfl, rfl, fun more ↦ rfl⟩
  | cons item items ih =>
    obtain ⟨after, hrun, hmoves⟩ := run_yield_of_cons hc hended hitems
    obtain ⟨last, hlast, hlastEnded, hnil, hsource, hfinish, hanswers⟩ :=
      ih hmoves.coherent (hmoves.ended.trans hended) hmoves.ahead
    refine ⟨last, hlast, hlastEnded, hnil, hsource.trans hmoves.source,
      hfinish.trans hmoves.finish, fun more ↦ ?_⟩
    rw [List.length_cons, List.replicate_succ, List.cons_append, calls, call, hrun, List.map_cons,
      List.map_cons, List.cons_append, hanswers, hmoves.source]

/-! ## From the beginning -/

theorem coherent_ofSource (source : Source) : (ofSource source).Coherent :=
  coherent_of_held_none rfl

theorem ahead_ofSource (source : Source) : (ofSource source).ahead = source.items :=
  ahead_of_held_none rfl

theorem finish_ofSource (source : Source) : (ofSource source).finish = source.finish :=
  Nat.zero_add _

/-- The listing of a source gives its items. -/
theorem listing_ofSource (source : Source) :
    (ofSource source).listing = source.items.map (Item.result source) := by
  rw [listing_eq_map_ahead (coherent_ofSource source) rfl, ahead_ofSource]
  rfl

theorem listing_ofSource_eq_map_ok_iff {source : Source} {tokens : List Token} :
    (ofSource source).listing = tokens.map Except.ok ↔ source.items = tokens.map Item.token := by
  have hresults : tokens.map Except.ok = (tokens.map Item.token).map (Item.result source) := by
    rw [List.map_map]
    rfl
  rw [listing_ofSource, hresults]
  exact List.map_inj_right fun _ _ ↦ Item.result_inj.mp

end Lexer

end Calculator
