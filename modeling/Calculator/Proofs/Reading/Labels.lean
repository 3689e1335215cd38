import Calculator.Proofs.Lexing.Rendering
import Calculator.Proofs.Reading.Lookahead
import Calculator.Proofs.Reading.Openings
import Calculator.Proofs.Reading.Simulation

/-!
# What labels show

A diagnostic labels stretches of the source, and the report cuts them out of it. Whatever was asked
of a lexer or an evaluator before, each label lies in the source and between two characters of it,
and under the first one stands what the problem names. The second one, if there is one, shows the
parenthesis of a group which has nothing in it but an expression.

## Why the places are right

A problem is about an item of the source or about its end (`Machine.item_mem_of_whole`), and the
items are cut out of the source one by one (`Source.shows_of_mem_items`). A lexer may have come to
its place in any way: what is ahead of it is the end of the list of the items.
-/

namespace Calculator

/-! ## Stretches of a source -/

namespace Source

/-- A stretch of the source covers a text. -/
def Shows (source : Source) (span : Span) (text : List Char) : Prop :=
  ∃ before after, source.text.toList = before ++ (text ++ after) ∧
    span.offset = Text.size before ∧ span.length = Text.size text

variable {source : Source} {span : Span} {text : List Char}

theorem Shows.stop_le (h : source.Shows span text) : span.stop ≤ source.text.utf8ByteSize := by
  obtain ⟨before, after, htext, hoffset, hlength⟩ := h
  rw [← source.finish_eq, finish, htext, Span.stop, hoffset, hlength, Text.size_append,
    Text.size_append]
  omega

/-- What begins behind some characters begins on the boundary of one. -/
theorem isValid_size {before after : List Char} (h : source.text.toList = before ++ after) :
    String.Pos.Raw.IsValid source.text ⟨Text.size before⟩ := by
  rw [String.Pos.Raw.isValid_iff_exists_append]
  refine ⟨String.ofList before, String.ofList after, ?_, ?_⟩
  · rw [← String.ofList_append, ← h, String.ofList_toList]
  · rw [← Text.utf8ByteSize_ofList]
    rfl

theorem Shows.isValid (h : source.Shows span text) :
    String.Pos.Raw.IsValid source.text ⟨span.offset⟩ ∧
      String.Pos.Raw.IsValid source.text ⟨span.stop⟩ := by
  obtain ⟨before, after, htext, hoffset, hlength⟩ := h
  constructor
  · rw [hoffset]
    exact isValid_size htext
  · rw [← List.append_assoc] at htext
    rw [Span.stop, hoffset, hlength, ← Text.size_append]
    exact isValid_size htext

theorem shows_of_mem_items {item : Item} (h : item ∈ source.items) :
    source.Shows item.span item.text := by
  obtain ⟨before, after, htext, hoffset, -⟩ := (Partition.listFrom 0 source.text.toList).placed _ h
  exact ⟨before, after, htext, by rw [hoffset, Nat.zero_add], item.length_span⟩

theorem shows_finish (source : Source) : source.Shows ⟨source.text.utf8ByteSize, 0⟩ [] := by
  refine ⟨source.text.toList, [], by simp, ?_, rfl⟩
  rw [← source.finish_eq, finish]

end Source

/-! ## What problems name -/

/-- What a problem names: the token, the numeral or the character that it is about. -/
def Problem.named : Problem → String
  | unexpectedToken found | missingClosingParen found _ | depthLimitExceeded _ found =>
    found.lexeme.name
  | malformedNumber literal _ => String.ofList literal
  | unrecognizedCharacter c _ => String.singleton c

theorem Problem.toList_named {problem : Problem} (h : problem.item.text ≠ []) :
    problem.named.toList = problem.item.text := by
  have hname : ∀ lexeme : Lexeme, lexeme.text ≠ [] → lexeme.name.toList = lexeme.text := by
    intro lexeme hlexeme
    cases lexeme with
    | endOfInput => exact absurd rfl hlexeme
    | _ => exact String.toList_ofList
  cases problem with
  | unexpectedToken | missingClosingParen | depthLimitExceeded => exact hname _ h
  | malformedNumber => exact String.toList_ofList
  | unrecognizedCharacter c offset => exact String.toList_singleton c

theorem Source.named_ne_of_mem_items {source : Source} {problem : Problem}
    (h : problem.item ∈ source.items) : problem.named ≠ "end of input" := by
  intro hnamed
  obtain ⟨_, _, -, -, hlongest⟩ := (Partition.listFrom 0 source.text.toList).placed _ h
  obtain ⟨hne, hblank⟩ := hlongest.not_isWhitespace
  rw [← Problem.toList_named hne, hnamed] at hblank
  exact hblank ' ' (by decide) (by decide)

/-- The stretch of a problem covers what the problem names, or it is the end of the input. -/
theorem Source.shows_named {source : Source} {problem : Problem}
    (h : problem.item ∈ source.items ++ [.endAt source.text.utf8ByteSize]) :
    if problem.named = "end of input" then problem.span = ⟨source.text.utf8ByteSize, 0⟩
    else source.Shows problem.span problem.named.toList := by
  rcases List.mem_append.mp h with hitem | hend
  · have hne := Item.text_ne_nil_of_mem_listFrom 0 source.text.toList hitem
    rw [if_neg (named_ne_of_mem_items hitem), Problem.toList_named hne, ← problem.span_item]
    exact shows_of_mem_items hitem
  · have hitem := List.mem_singleton.mp hend
    have hspan : problem.span = ⟨source.text.utf8ByteSize, 0⟩ := by
      rw [← problem.span_item, hitem]
      rfl
    split
    · exact hspan
    · next hne =>
      refine absurd ?_ hne
      rcases problem with ⟨⟨_, _⟩⟩ | ⟨⟨_, _⟩⟩ | _ | _ | ⟨_, ⟨_, _⟩⟩ <;> cases hitem <;> rfl

/-! ## What labels show -/

/-- The group that the token `opening` opens is not closed where `found` stands: nothing is in it
but an expression. -/
structure Source.Unclosed (source : Source) (opening found : Token) : Prop where
  shows : source.Shows opening.span ['(']
  stop_le : opening.span.stop ≤ found.span.offset
  content : ∃ (before rest : List (Except Diagnostic Token)) (inner : List Token),
    (Lexer.ofSource source).listing = before ++ .ok opening :: (inner.map Except.ok ++ rest) ∧
    rest.headD (.ok ⟨.endOfInput, source.text.utf8ByteSize⟩) = .ok found ∧
    ∃ maxDepth value,
      (Source.evaluate ⟨none, Layout.joined (inner.map Token.lexeme)⟩ maxDepth).answer = .ok value

/-- The labels of a problem fit the source. -/
structure Problem.Located (problem : Problem) (source : Source) : Prop where
  inside : ∀ label ∈ problem.labels, label.span.stop ≤ source.text.utf8ByteSize
  bounds : ∀ label ∈ problem.labels,
    String.Pos.Raw.IsValid source.text ⟨label.span.offset⟩ ∧
      String.Pos.Raw.IsValid source.text ⟨label.span.stop⟩
  first : ∃ label more, problem.labels = label :: more ∧ label.span.offset = problem.offset ∧
    if problem.named = "end of input" then label.span = ⟨source.text.utf8ByteSize, 0⟩
    else source.Shows label.span problem.named.toList
  group : ∀ found opening, problem = .missingClosingParen found opening →
    ∃ label label', problem.labels = [label, label'] ∧ label.span = found.span ∧
      label'.span = opening.span ∧ source.Unclosed opening found

/-- The labels fit if the problem is about an item, and if the group that it finds unclosed is. -/
theorem Problem.located {source : Source} {problem : Problem}
    (h : problem.item ∈ source.items ++ [.endAt source.text.utf8ByteSize])
    (hgroup : ∀ found opening, problem = .missingClosingParen found opening →
      source.Unclosed opening found) : problem.Located source := by
  have hfirst := source.shows_named h
  have hshows : ∀ label ∈ problem.labels, ∃ text, source.Shows label.span text := by
    intro label hlabel
    rcases List.mem_cons.mp hlabel with rfl | hlabel
    · split at hfirst
      · exact ⟨[], hfirst ▸ source.shows_finish⟩
      · exact ⟨_, hfirst⟩
    · cases problem with
      | missingClosingParen found opening =>
        obtain rfl := List.mem_singleton.mp hlabel
        exact ⟨_, (hgroup found opening rfl).shows⟩
      | _ => cases hlabel
  constructor
  · intro label hlabel
    obtain ⟨text, htext⟩ := hshows label hlabel
    exact htext.stop_le
  · intro label hlabel
    obtain ⟨text, htext⟩ := hshows label hlabel
    exact htext.isValid
  · exact ⟨_, _, rfl, rfl, hfirst⟩
  · rintro found opening rfl
    exact ⟨_, _, rfl, rfl, rfl, hgroup found opening rfl⟩

/-! ## Groups that are not closed -/

namespace Source

theorem stop_le_of_mem {source : Source} {before after : List Item} {item next : Item}
    (h : before ++ item :: after = source.items)
    (hnext : next ∈ after ++ [.endAt source.text.utf8ByteSize]) :
    item.span.stop ≤ next.span.offset := by
  rcases List.mem_append.mp hnext with hafter | hend
  · have hincreasing := (Partition.listFrom 0 source.text.toList).increasing
    rw [← items, ← h] at hincreasing
    exact List.rel_of_pairwise_cons (List.pairwise_append.mp hincreasing).2.1 hafter
  · obtain rfl := List.mem_singleton.mp hend
    exact (source.shows_of_mem_items (h ▸ List.mem_append_right _ List.mem_cons_self)).stop_le

theorem exists_answer_joined {source : Source} {tokens : List Token} {e : Expr}
    (h : ∀ t ∈ tokens, .token t ∈ source.items)
    (hderives : Derives .expr (tokens.map Token.lexeme) e) :
    ∃ maxDepth value,
      (Source.evaluate ⟨none, Layout.joined (tokens.map Token.lexeme)⟩ maxDepth).answer
        = .ok value := by
  have hlegal : ∀ lexeme ∈ tokens.map Token.lexeme, lexeme.Legal := by
    intro lexeme hlexeme
    obtain ⟨t, ht, rfl⟩ := List.mem_map.mp hlexeme
    exact legal_of_mem_items (h t ht)
  obtain ⟨tokens', hlisting, hlexemes⟩ := Layout.exists_listing_joined hlegal none
  rw [← hlexemes] at hderives
  exact ⟨e.levels, e.value, answer_of_derives (Lexer.listing_ofSource_eq_map_ok_iff.mp hlisting)
    hderives (Nat.le_refl _)⟩

/-- A run on the last items of a source finds a group unclosed where it is. -/
theorem unclosed_of_run {source : Source} {items : List Item} (hitems : items <:+ source.items)
    {limit : Nat} {floor : Precedence} {found opening : Token}
    (h : (Machine.run limit source.text.utf8ByteSize (Machine.start floor) items).answer
      = .error (.missingClosingParen found opening)) : source.Unclosed opening found := by
  obtain ⟨hopening, before, inner, rest, content, hsplit, hfound, hderives⟩ :=
    Machine.run_unclosed (Machine.recalls_start floor) h
  obtain ⟨first, hfirst⟩ := hitems
  rw [List.map_nil, List.nil_append] at hsplit
  rw [hsplit, ← List.append_assoc] at hfirst
  generalize first ++ before.map Item.token = front at hfirst
  have hmem : ∀ item ∈ .token opening :: (inner.map Item.token ++ rest), item ∈ source.items :=
    fun item hitem ↦ hfirst ▸ List.mem_append_right _ hitem
  constructor
  · have hshows := shows_of_mem_items (hmem _ List.mem_cons_self)
    rwa [show (Item.token opening).text = ['('] from congrArg Lexeme.text hopening] at hshows
  · have hnext := hfound ▸ Machine.headD_mem_append source.text.utf8ByteSize rest
    have hlater := List.mem_append_right (inner.map Item.token) hnext
    rw [← List.append_assoc] at hlater
    exact stop_le_of_mem hfirst hlater
  · refine ⟨front.map (Item.result source), rest.map (Item.result source), inner, ?_, ?_, ?_⟩
    · rw [Lexer.listing_ofSource, ← hfirst, List.map_append, List.map_cons, List.map_append,
        List.map_map]
      rfl
    · rw [← Item.result_token source found, ← hfound]
      cases rest <;> rfl
    · refine source.exists_answer_joined (fun t ht ↦ ?_) hderives
      exact hmem _ (List.mem_cons_of_mem _ (List.mem_append_left _ (List.mem_map_of_mem ht)))

end Source

/-! ## What is reported of a source -/

/-- A diagnostic is reported of a source: by one of the calls that a lexer answers from the
beginning of the source on, or by one of the requests that an evaluator meets. -/
inductive Source.Reports (source : Source) (diagnostic : Diagnostic) : Prop
  | call {calls : List Lexer.Call} {step : Step (Option Token)}
      (hstep : step ∈ Lexer.calls calls (.ofSource source))
      (h : step.answer = .error diagnostic)
  | request {maxDepth : Nat} {requests : List Evaluator.Request} {step : Step Float}
      (hstep : some step ∈ Evaluator.meetAll ⟨.ofSource source, maxDepth⟩ requests)
      (h : step.answer = .error diagnostic)

theorem Cursor.exists_stray_of_call {source : Source} {cursor : Cursor} {first : Lexer.Call}
    {diagnostic : Diagnostic} (h : (cursor.call source first).1 = .error diagnostic) :
    ∃ c offset, source.itemAt cursor.index = .stray c offset ∧
      diagnostic = ⟨source, .unrecognizedCharacter c offset⟩ := by
  cases hitem : source.itemAt cursor.index with
  | token t =>
    rcases first with _ | _ | _ <;> simp only [call, hitem] at h
    · cases h
    · cases h
    · split at h
      · cases h
      · split at h <;> cases h
  | stray c offset =>
    refine ⟨c, offset, rfl, ?_⟩
    rcases first with _ | _ | _ <;> simp only [call, hitem] at h
    · exact (Except.error.inj h).symm
    · exact (Except.error.inj h).symm
    · split at h
      · cases h
      · split at h
        · exact (Except.error.inj h).symm
        · cases h

theorem Source.itemAt_mem (source : Source) (n : Nat) :
    source.itemAt n ∈ source.items ++ [.endAt source.text.utf8ByteSize] := by
  rw [itemAt]
  cases hitem : source.items[n]? with
  | none => exact List.mem_append_right _ (List.mem_singleton_self _)
  | some item => exact List.mem_append_left _ (List.mem_of_getElem? hitem)

theorem Cursor.Tracks.located {source : Source} {cursor : Cursor} {lexer : Lexer}
    (h : cursor.Tracks source lexer) {calls : List Lexer.Call} {step : Step (Option Token)}
    (hstep : step ∈ Lexer.calls calls lexer) {diagnostic : Diagnostic}
    (hanswer : step.answer = .error diagnostic) :
    diagnostic.source = source ∧ diagnostic.problem.Located source := by
  induction calls generalizing cursor lexer with
  | nil => cases hstep
  | cons first rest ih =>
    obtain ⟨hfirst, htracks, -⟩ := h.call first
    rcases List.mem_cons.mp hstep with rfl | hstep
    · obtain ⟨c, offset, hitem, rfl⟩ := exists_stray_of_call (hfirst.symm.trans hanswer)
      have hmem := source.itemAt_mem cursor.index
      rw [hitem] at hmem
      exact ⟨rfl, Problem.located hmem (by rintro _ _ ⟨⟩)⟩
    · exact ih htracks hstep

theorem Lexer.whole_reading (lexer : Lexer) (maxDepth : Nat) (floor : Precedence) :
    (lexer.reading maxDepth floor).whole
      = (Machine.run maxDepth lexer.finish (Machine.start floor) lexer.ahead).whole := by
  obtain ⟨hanswer, hrest, -⟩ := lexer.reading_eq_run maxDepth floor
  rw [Machine.Result.whole, Machine.Result.whole, hanswer, hrest]

namespace Evaluator

/-- What a request reports is wrong with a reading of what is ahead. -/
theorem whole_of_meet {evaluator : Evaluator} (hc : evaluator.lexer.Coherent) {request : Request}
    {step : Step Float} (hstep : (evaluator.meet request).2 = some step) {diagnostic : Diagnostic}
    (h : step.answer = .error diagnostic) :
    diagnostic.source = evaluator.lexer.source ∧ ∃ floor,
      (evaluator.lexer.reading evaluator.maxDepth floor).whole = .error diagnostic.problem := by
  have hof : ∀ {answer : Except Problem Expr} {source : Source},
      (answer.map Expr.value).mapError (Diagnostic.mk source) = .error diagnostic →
        diagnostic.source = source ∧ answer = .error diagnostic.problem := by
    rintro (problem | e) source ⟨⟩
    exact ⟨rfl, rfl⟩
  rcases request with floor | _ | maxDepth
  · obtain ⟨after, hrun, -⟩ := run_evaluate hc evaluator.maxDepth floor
    rw [meet, hrun] at hstep
    cases hstep
    obtain ⟨hsource, hanswer⟩ := hof h
    exact ⟨hsource, floor, Machine.Result.whole_of_answer_eq_error hanswer⟩
  · obtain ⟨after, hrun, -⟩ := run_evaluateAll hc evaluator.maxDepth
    rw [meet, hrun] at hstep
    cases hstep
    obtain ⟨hsource, hanswer⟩ := hof h
    exact ⟨hsource, .lowest, hanswer⟩
  · cases hstep

theorem located_of_meet {source : Source} {evaluator : Evaluator}
    (h : evaluator.lexer.Along source) {request : Request} {step : Step Float}
    (hstep : (evaluator.meet request).2 = some step) {diagnostic : Diagnostic}
    (hanswer : step.answer = .error diagnostic) :
    diagnostic.source = source ∧ diagnostic.problem.Located source := by
  obtain ⟨cursor, htracks⟩ := h
  obtain ⟨hsource, floor, hwhole⟩ := whole_of_meet htracks.coherent hstep hanswer
  rw [Lexer.whole_reading, htracks.ahead, htracks.finish] at hwhole
  have hsuffix := List.drop_suffix cursor.index source.items
  refine ⟨hsource.trans htracks.source_eq, Problem.located ?_ ?_⟩
  · refine List.mem_append.mpr ((List.mem_append.mp (Machine.item_mem_of_whole hwhole)).imp_left ?_)
    exact fun hitem ↦ hsuffix.subset hitem
  · intro found opening hproblem
    rw [hproblem] at hwhole
    rcases Machine.Result.answer_of_whole_eq_error hwhole with hwrong | ⟨_, _, -, hother⟩
    · exact source.unclosed_of_run hsuffix hwrong
    · cases hother

theorem located_of_meetAll {source : Source} {evaluator : Evaluator}
    (h : evaluator.lexer.Along source) {requests : List Request} {step : Step Float}
    (hstep : some step ∈ evaluator.meetAll requests) {diagnostic : Diagnostic}
    (hanswer : step.answer = .error diagnostic) :
    diagnostic.source = source ∧ diagnostic.problem.Located source := by
  induction requests generalizing evaluator with
  | nil => cases hstep
  | cons request requests ih =>
    rcases List.mem_cons.mp hstep with hfirst | hstep
    · exact located_of_meet h hfirst.symm hanswer
    · refine ih (keeps_meet ?_ (Lexer.keeps_along_peek source) h request) hstep
      exact Lexer.keeps_along_next source

end Evaluator

/-- **Labels are right.** Whatever is reported of a source, by the calls of a lexer or the requests
of an evaluator, is labelled in the source: each label lies between two characters, the first one
shows what the problem names and stands where the problem stands, and the one of a group that is not
closed shows its parenthesis, behind which there is an expression up to the first label. -/
theorem Source.labels_of_reports {source : Source} {diagnostic : Diagnostic}
    (h : source.Reports diagnostic) :
    diagnostic.source = source ∧ diagnostic.problem.Located source := by
  rcases h with ⟨hstep, hanswer⟩ | ⟨hstep, hanswer⟩
  · exact (Cursor.tracks_ofSource source).located hstep hanswer
  · exact Evaluator.located_of_meetAll (Lexer.along_ofSource source) hstep hanswer

/-- In `é(1 2` the group is found unclosed by the second request, as the first one has met the
character that is in no lexeme. The places behind that character are counted in bytes. -/
theorem Source.labels_of_reports_unclosed :
    Source.Reports ⟨none, "é(1 2"⟩ ⟨⟨none, "é(1 2"⟩,
        .missingClosingParen ⟨.number ['2'], 5⟩ ⟨.leftParen, 2⟩⟩ ∧
      Source.Unclosed ⟨none, "é(1 2"⟩ ⟨.leftParen, 2⟩ ⟨.number ['2'], 5⟩ := by
  have hitems : Source.items ⟨none, "é(1 2"⟩ = [.stray 'é' 0, .token ⟨.leftParen, 2⟩,
      .token ⟨.number ['1'], 3⟩, .token ⟨.number ['2'], 5⟩] := by decide +kernel
  obtain ⟨after, hfirst, hmoves, -⟩ := Evaluator.run_evaluate
    (Lexer.coherent_ofSource ⟨none, "é(1 2"⟩) defaultMaxDepth .lowest
  obtain ⟨last, hsecond, -⟩ := Evaluator.run_evaluate hmoves.coherent defaultMaxDepth .lowest
  have hahead := hmoves.ahead
  rw [(Lexer.reading_eq_run _ _ _).2.1, Lexer.ahead_ofSource, hitems] at hahead
  rw [(after.reading_eq_run _ _).1, hahead, hmoves.source] at hsecond
  have hstep : some ((Evaluator.evaluate defaultMaxDepth .lowest).run after) ∈ Evaluator.meetAll
      ⟨.ofSource ⟨none, "é(1 2"⟩, defaultMaxDepth⟩ [.evaluate .lowest, .evaluate .lowest] := by
    simp [Evaluator.meetAll, Evaluator.meet, hfirst]
  have hreports := Source.Reports.request hstep (congrArg Step.answer hsecond)
  obtain ⟨-, hlocated⟩ := labels_of_reports hreports
  obtain ⟨_, _, -, -, -, hunclosed⟩ := hlocated.group _ _ rfl
  exact ⟨hreports, hunclosed⟩

end Calculator
