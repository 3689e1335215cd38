import Calculator.Proofs.Lexing.Rendering
import Calculator.Proofs.Reading.Grammar
import Calculator.Proofs.Reading.Limits

/-!
# Characters in no lexeme

The listing of the tokens goes on after a character that is in no lexeme, and an evaluation ends
there. So what the two report of one source can be compared: the evaluation fails wherever the
listing has a diagnostic in it, and it reports either the first of these diagnostics or a problem
that stands before all of them.

## Why nothing is passed over

There are several ways for an evaluation to come upon such a character, as it looks at some items
and takes others. But each item is met once, in the order of the listing, and a reading goes on
after tokens only. So before the item that a problem is about there are tokens and nothing else
(`Source.exists_taken_of_diagnostic`), whatever the limit is.
-/

namespace Calculator

/-! ## What was read before a problem -/

namespace Source

variable {source : Source} {maxDepth : Nat}

/-- Before the item that a diagnostic is about there are tokens only. -/
theorem exists_taken_of_diagnostic {diagnostic : Diagnostic}
    (h : (source.evaluate maxDepth).answer = .error diagnostic) :
    diagnostic.source = source ∧ ∃ (taken : List Token) (rest : List Item),
      source.items = taken.map Item.token ++ rest ∧
      diagnostic.problem.item = rest.headD (.endAt source.finish) := by
  obtain ⟨hsource, hwhole⟩ := answer_eq_error_iff.mp h
  refine ⟨hsource, ?_⟩
  cases hanswer : (source.reading maxDepth).answer with
  | error problem =>
    cases hwhole.symm.trans (Machine.Result.whole_of_answer_eq_error hanswer)
    exact Machine.exists_taken_of_answer hanswer
  | ok e =>
    -- an expression was read, and the problem is that a token is left
    obtain ⟨taken, t, hitems, -⟩ := Machine.run_sound (Machine.hasRead_start .lowest) maxDepth
      source.finish source.items hanswer
    rcases Machine.Result.answer_of_whole_eq_error hwhole with herror | ⟨t', rest, hrest, hproblem⟩
    · cases hanswer.symm.trans herror
    · rw [← reading, hrest] at hitems
      exact ⟨taken, _, hitems, by rw [hproblem]; rfl⟩

theorem error_mem_listing_iff {diagnostic : Diagnostic} :
    .error diagnostic ∈ (Lexer.ofSource source).listing ↔
      ∃ c offset, .stray c offset ∈ source.items ∧
        diagnostic = ⟨source, .unrecognizedCharacter c offset⟩ := by
  rw [Lexer.listing_ofSource, List.mem_map]
  constructor
  · rintro ⟨t | ⟨c, offset⟩, hitem, hresult⟩
    · cases hresult
    · exact ⟨c, offset, hitem, (Except.error.inj hresult).symm⟩
  · rintro ⟨c, offset, hitem, rfl⟩
    exact ⟨_, hitem, rfl⟩

theorem exists_listing_of_answer {value : Float}
    (h : (source.evaluate maxDepth).answer = .ok value) :
    ∃ tokens : List Token, (Lexer.ofSource source).listing = tokens.map Except.ok := by
  obtain ⟨tokens, -, hitems, -⟩ := derives_of_answer h
  exact ⟨tokens, Lexer.listing_ofSource_eq_map_ok_iff.mpr hitems⟩

theorem exists_diagnostic_of_mem_listing {stray : Diagnostic}
    (h : .error stray ∈ (Lexer.ofSource source).listing) (maxDepth : Nat) :
    ∃ diagnostic, (source.evaluate maxDepth).answer = .error diagnostic := by
  cases hanswer : (source.evaluate maxDepth).answer with
  | error diagnostic => exact ⟨diagnostic, rfl⟩
  | ok value =>
    obtain ⟨tokens, hlisting⟩ := exists_listing_of_answer hanswer
    rw [hlisting] at h
    obtain ⟨t, -, ht⟩ := List.mem_map.mp h
    cases ht

theorem listing_of_unrecognizedCharacter {diagnostic : Diagnostic}
    (h : (source.evaluate maxDepth).answer = .error diagnostic) {c : Char} {offset : Nat}
    (hproblem : diagnostic.problem = .unrecognizedCharacter c offset) :
    ∃ (tokens : List Token) (rest : List (Except Diagnostic Token)),
      (Lexer.ofSource source).listing = tokens.map Except.ok ++ .error diagnostic :: rest := by
  obtain ⟨hsource, taken, rest, hitems, hfront⟩ := exists_taken_of_diagnostic h
  rw [hproblem] at hfront
  cases rest with
  | nil => cases hfront
  | cons item rest =>
    rw [List.headD_cons] at hfront
    have hresult : item.result source = .error diagnostic := by
      rw [← hfront, ← hsource]
      exact congrArg (Except.error ∘ Diagnostic.mk diagnostic.source) hproblem.symm
    refine ⟨taken, rest.map (Item.result source), ?_⟩
    rw [Lexer.listing_ofSource, hitems, List.map_append, List.map_cons, List.map_map, hresult]
    rfl

theorem offset_lt_of_mem_listing {diagnostic stray : Diagnostic}
    (h : (source.evaluate maxDepth).answer = .error diagnostic)
    (hproblem : ∀ c offset, diagnostic.problem ≠ .unrecognizedCharacter c offset)
    (hstray : .error stray ∈ (Lexer.ofSource source).listing) :
    diagnostic.problem.offset < stray.problem.offset := by
  obtain ⟨-, taken, rest, hitems, hfront⟩ := exists_taken_of_diagnostic h
  obtain ⟨c, offset, hmem, rfl⟩ := error_mem_listing_iff.mp hstray
  have htoken : ∀ c offset, diagnostic.problem.item ≠ .stray c offset := by
    intro c offset hitem
    cases hkind : diagnostic.problem with
    | unrecognizedCharacter => exact hproblem _ _ hkind
    | _ => rw [hkind] at hitem; cases hitem
  -- the character is among the items behind the one that the problem is about
  have hrest : .stray c offset ∈ rest := by
    rw [hitems, List.mem_append] at hmem
    refine hmem.resolve_left fun htaken ↦ ?_
    obtain ⟨t, -, ht⟩ := List.mem_map.mp htaken
    cases ht
  cases rest with
  | nil => cases hrest
  | cons item rest =>
    rw [List.headD_cons] at hfront
    have hplaces := source.pairwise_places
    rw [places, hitems, ← hfront, List.map_append, List.map_cons, List.append_assoc,
      List.cons_append] at hplaces
    have hlater := (List.pairwise_append.mp hplaces).2.1
    rcases List.mem_cons.mp hrest with heq | hrest
    · exact absurd (hfront.trans heq.symm) (htoken c offset)
    · have hlt := List.rel_of_pairwise_cons hlater
        (List.mem_append_left _ (List.mem_map_of_mem hrest))
      rwa [diagnostic.problem.span_item] at hlt

end Source

/-! ## The two commands -/

theorem exitCode_printListing_eq_iff (items : List (Except Diagnostic Token)) :
    (printListing items).exitCode = 65 ↔ ∃ diagnostic, .error diagnostic ∈ items := by
  induction items with
  | nil => exact iff_of_false (by decide) (by simp)
  | cons item items ih =>
    cases item with
    | error diagnostic => exact iff_of_true rfl ⟨diagnostic, List.mem_cons_self⟩
    | ok token =>
      rw [printListing, ih]
      simp only [List.mem_cons, reduceCtorEq, false_or]

theorem exitCode_evalCommand_eq_iff (maxDepth : Nat) (expression : String) :
    ((evalCommand maxDepth expression).exitCode = 0 ↔
      ∃ value, (Source.evaluate ⟨none, expression⟩ maxDepth).answer = .ok value) ∧
    ((evalCommand maxDepth expression).exitCode = 65 ↔
      ∃ diagnostic, (Source.evaluate ⟨none, expression⟩ maxDepth).answer = .error diagnostic) := by
  rw [evalCommand_eq]
  cases (Source.evaluate ⟨none, expression⟩ maxDepth).answer with
  | ok value =>
    exact ⟨iff_of_true rfl ⟨value, rfl⟩, iff_of_false (show ¬0 = 65 by decide) nofun⟩
  | error diagnostic =>
    exact ⟨iff_of_false (show ¬65 = 0 by decide) nofun, iff_of_true rfl ⟨diagnostic, rfl⟩⟩

namespace Source

/-- **Listing and evaluating agree.** Where the listing of a source has a diagnostic in it, the
evaluation fails, below every limit. A character in no lexeme that it reports is the first one
listed, and the diagnostics are the same; any other problem stands before all that are listed. So
an expression that is evaluated is listed to its end, and one that cannot be listed is not evaluated
either. -/
theorem evaluate_strays (source : Source) (maxDepth : Nat) :
    (∀ stray, .error stray ∈ (Lexer.ofSource source).listing →
      ∃ diagnostic, (source.evaluate maxDepth).answer = .error diagnostic) ∧
    (∀ diagnostic, (source.evaluate maxDepth).answer = .error diagnostic →
      (∀ c offset, diagnostic.problem = .unrecognizedCharacter c offset →
        ∃ (tokens : List Token) (rest : List (Except Diagnostic Token)),
          (Lexer.ofSource source).listing = tokens.map Except.ok ++ .error diagnostic :: rest) ∧
      ((∀ c offset, diagnostic.problem ≠ .unrecognizedCharacter c offset) →
        ∀ stray, .error stray ∈ (Lexer.ofSource source).listing →
          diagnostic.problem.offset < stray.problem.offset)) ∧
    ((evalCommand maxDepth source.text).exitCode = 0 →
      ∃ tokens : List Token,
        (Lexer.ofSource ⟨none, source.text⟩).listing = tokens.map Except.ok ∧
        tokenizeCommand source.text
          = { exitCode := 0
              output := String.join (tokens.map fun token ↦ token.lexeme.display ++ "\n") ++ "EOF\n"
              reports := [] }) ∧
    ((tokenizeCommand source.text).exitCode = 65 ↔
      ∃ stray, .error stray ∈ (Lexer.ofSource ⟨none, source.text⟩).listing) ∧
    ((tokenizeCommand source.text).exitCode = 65 →
      (evalCommand maxDepth source.text).exitCode = 65) := by
  have hexit := exitCode_printListing_eq_iff (Lexer.ofSource ⟨none, source.text⟩).listing
  obtain ⟨hzero, hwrong⟩ := exitCode_evalCommand_eq_iff maxDepth source.text
  refine ⟨fun stray hstray ↦ exists_diagnostic_of_mem_listing hstray maxDepth,
    fun diagnostic h ↦ ⟨fun c offset hproblem ↦ listing_of_unrecognizedCharacter h hproblem,
      fun hproblem stray hstray ↦ offset_lt_of_mem_listing h hproblem hstray⟩,
    fun heval ↦ ?_, hexit, fun hlisted ↦ ?_⟩
  · obtain ⟨value, hvalue⟩ := hzero.mp heval
    obtain ⟨tokens, hlisting⟩ := exists_listing_of_answer hvalue
    refine ⟨tokens, hlisting, ?_⟩
    rw [tokenizeCommand, hlisting, printListing_map_ok, List.map_append, List.map_map,
      String.join_append]
    rfl
  · obtain ⟨stray, hstray⟩ := hexit.mp hlisted
    exact hwrong.mpr (exists_diagnostic_of_mem_listing hstray maxDepth)

/-- In `(1+$` the character is what is reported, as by the listing; in `1.2.3 $` it is the numeral
before it, and in `1+2` nothing is. -/
theorem evaluate_strays_dollar :
    ((Source.evaluate ⟨none, "(1+$"⟩ defaultMaxDepth).answer
        = .error ⟨⟨none, "(1+$"⟩, .unrecognizedCharacter '$' 3⟩ ∧
      ∃ (tokens : List Token) (rest : List (Except Diagnostic Token)),
        (Lexer.ofSource ⟨none, "(1+$"⟩).listing = tokens.map Except.ok
          ++ .error ⟨⟨none, "(1+$"⟩, .unrecognizedCharacter '$' 3⟩ :: rest) ∧
    ((Source.evaluate ⟨none, "1.2.3 $"⟩ defaultMaxDepth).answer
        = .error ⟨⟨none, "1.2.3 $"⟩, .malformedNumber ['1', '.', '2', '.', '3'] 0⟩ ∧
      (Problem.malformedNumber ['1', '.', '2', '.', '3'] 0).offset
        < (Problem.unrecognizedCharacter '$' 6).offset ∧
      (tokenizeCommand "1.2.3 $").exitCode = 65 ∧
      (evalCommand defaultMaxDepth "1.2.3 $").exitCode = 65) ∧
    (evalCommand defaultMaxDepth "1+2").exitCode = 0 ∧
      (tokenizeCommand "1+2").output = "NUMBER 1\nPLUS +\nNUMBER 2\nEOF\n" := by
  have hgroup : Source.items ⟨none, "(1+$"⟩ = [.token ⟨.leftParen, 0⟩, .token ⟨.number ['1'], 1⟩,
      .token ⟨.plus, 2⟩, .stray '$' 3] := by decide +kernel
  have hnumeral : Source.items ⟨none, "1.2.3 $"⟩
      = [.token ⟨.number ['1', '.', '2', '.', '3'], 0⟩, .stray '$' 6] := by decide +kernel
  have hsum : Source.items ⟨none, "1+2"⟩
      = [⟨.number ['1'], 0⟩, ⟨.plus, 1⟩, ⟨.number ['2'], 2⟩].map Item.token := by decide +kernel
  have hgroupAnswer : (Source.evaluate ⟨none, "(1+$"⟩ defaultMaxDepth).answer
      = .error ⟨⟨none, "(1+$"⟩, .unrecognizedCharacter '$' 3⟩ := by
    refine answer_eq_error_iff.mpr ⟨rfl, ?_⟩
    rw [reading, hgroup]
    rfl
  have hnumeralAnswer : (Source.evaluate ⟨none, "1.2.3 $"⟩ defaultMaxDepth).answer
      = .error ⟨⟨none, "1.2.3 $"⟩, .malformedNumber ['1', '.', '2', '.', '3'] 0⟩ := by
    refine answer_eq_error_iff.mpr ⟨rfl, ?_⟩
    rw [reading, hnumeral]
    rfl
  have hlisted : .error ⟨⟨none, "1.2.3 $"⟩, .unrecognizedCharacter '$' 6⟩
      ∈ (Lexer.ofSource ⟨none, "1.2.3 $"⟩).listing :=
    error_mem_listing_iff.mpr ⟨'$', 6, by rw [hnumeral]; simp, rfl⟩
  have hone : Numeral.WellFormed ['1'] := by decide
  have htwo : Numeral.WellFormed ['2'] := by decide
  have hderives := @Derives.sum .plus _ _ _ _ (.inl rfl) (.term (.factor (.unary (.number hone))))
    (.factor (.unary (.number htwo)))
  have hlevels : (Expr.binary .plus (.number ['1']) (.number ['2'])).levels ≤ defaultMaxDepth := by
    decide
  have hvalue := answer_of_derives hsum hderives hlevels
  have heval := (exitCode_evalCommand_eq_iff defaultMaxDepth "1+2").1.mpr ⟨_, hvalue⟩
  -- three sources, each for its part of the statement
  obtain ⟨-, hreported, -⟩ := evaluate_strays ⟨none, "(1+$"⟩ defaultMaxDepth
  obtain ⟨-, hbefore, -, hexit, hwrong⟩ := evaluate_strays ⟨none, "1.2.3 $"⟩ defaultMaxDepth
  obtain ⟨-, -, hprinted, -⟩ := evaluate_strays ⟨none, "1+2"⟩ defaultMaxDepth
  refine ⟨⟨hgroupAnswer, (hreported _ hgroupAnswer).1 _ _ rfl⟩, ⟨hnumeralAnswer,
    (hbefore _ hnumeralAnswer).2 (fun _ _ ↦ Problem.noConfusion) _ hlisted, hexit.mpr ⟨_, hlisted⟩,
    hwrong (hexit.mpr ⟨_, hlisted⟩)⟩, heval, ?_⟩
  obtain ⟨tokens, hlisting, hcommand⟩ := hprinted heval
  have htokens := hsum.symm.trans (Lexer.listing_ofSource_eq_map_ok_iff.mp hlisting)
  obtain rfl := List.map_injective_iff.mpr (fun _ _ ↦ Item.token.inj) htokens
  rw [hcommand]
  rfl

end Source

end Calculator
