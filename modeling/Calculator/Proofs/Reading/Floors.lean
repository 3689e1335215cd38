import Calculator.Proofs.Reading.Grammar
import Calculator.Proofs.Reading.Simulation

/-!
# What is read down to a floor

A floor stands for a kind of phrase, and what is read down to it is a phrase of that kind from the
front of what is ahead. The token after the phrase settles where the phrase ends: it must not bind
tighter than the floor, and it is left where it is. Of all ways to split what is ahead there is at
most one with such a token, and if there is one then this is what is read.

## Below a sign

A sign reads its operand down to a floor of its own. So what follows a sign and its operand must
not bind tighter than that floor either, whatever the floor of the whole is. It makes a difference
in one place: a parenthesis binds as a call and may follow a phrase that is read down to a call, but
not if the phrase begins with a sign (`Lexeme.Ends`).
-/

namespace Calculator

/-! ## The token after a phrase -/

namespace Lexeme

/-- A lexeme that does not bind tighter than a floor. -/
def Stops (floor : Precedence) (lexeme : Lexeme) : Prop :=
  ∀ precedence, lexeme.precedence? = some precedence → ¬floor < precedence

/-- A lexeme that can follow the words of a phrase which is read down to a floor. -/
def Ends (floor : Precedence) (words : List Lexeme) (lexeme : Lexeme) : Prop :=
  lexeme.Stops floor ∧ ∀ s : Sign, words.head? = some s.lexeme → lexeme.Stops signFloor

end Lexeme

namespace Reader

theorem role_eq_ends_iff {floor : Precedence} {lexeme : Lexeme} :
    role floor lexeme = .ends ↔ lexeme.Stops floor := by
  rw [Lexeme.Stops, role]
  cases lexeme.precedence? with
  | none => exact iff_of_true rfl (by rintro _ ⟨⟩)
  | some precedence =>
    by_cases hlt : floor < precedence
    · refine iff_of_false (fun h ↦ ?_) fun h ↦ h precedence rfl hlt
      dsimp only at h
      rw [if_pos hlt] at h
      split at h <;> cases h
    · refine iff_of_true (if_neg hlt) ?_
      rintro _ ⟨rfl⟩
      exact hlt

/-- What ends an operand down to a floor can follow every phrase of that kind, but for a parenthesis
after what is read down to a call. -/
theorem role_stop_phrase {floor : Precedence} {lexeme : Lexeme} (h : role floor lexeme = .ends) :
    role floor.phrase.stop lexeme = .ends ∨ floor = .call ∧ lexeme = .leftParen := by
  cases floor with
  | call =>
    cases lexeme with
    | leftParen => exact .inr ⟨rfl, rfl⟩
    | _ => exact .inl rfl
  | _ => exact .inl (role_eq_ends_mono h (by decide))

end Reader

namespace Machine

section

variable {limit finish : Nat} {floor : Precedence} {t : Token} {rest : List Item}
  {tokens : List Token} {e : Expr}

theorem run_start_of_ends (h : Derives floor.phrase (tokens.map Token.lexeme) e)
    (hends : t.lexeme.Ends floor (tokens.map Token.lexeme)) (hlevels : e.levels ≤ limit)
    (hnext : rest.headD (.endAt finish) = .token t) :
    ∃ log, run limit finish (start floor) (tokens.map Item.token ++ rest)
      = ⟨.ok e, rest, true, log⟩ := by
  have hrole := Reader.role_eq_ends_iff.mpr hends.1
  have hfit : ([] : List Frame).length + e.levels ≤ limit := by
    rwa [List.length_nil, Nat.zero_add]
  obtain ⟨log, hrun⟩ : ∃ log, run limit finish (start floor) (tokens.map Item.token ++ rest)
      = (resume limit finish rest (settle t e floor [])).after log := by
    rcases Reader.role_stop_phrase hrole with hstop | ⟨rfl, hparen⟩
    · exact readable_of_derives h limit finish tokens rfl floor [] t rest (Nat.le_refl _) hstop
        hfit hnext
    · -- nothing is read below the floor of a sign here
      generalize hwords : tokens.map Token.lexeme = words at h hends
      cases h with
      | number hwell =>
        obtain ⟨⟨_, offset⟩, rfl, rfl⟩ := List.map_eq_singleton_iff.mp hwords
        exact run_number hwell hlevels hnext offset
      | group h => exact run_group (readable_of_derives h limit finish) hwords hfit hnext
      | @sign s =>
        have hstops := hends.2 s rfl
        rw [hparen] at hstops
        exact absurd (by decide) (hstops .call rfl)
  rw [settle_of_ends hrole, release_nil, resume_keep] at hrun
  exact ⟨_, hrun⟩

theorem answer_run_of_strays {words : List Lexeme} {frames : List Frame}
    (h : Derives .unary words e) (hwords : tokens.map Token.lexeme = words)
    (hrole : Reader.role floor t.lexeme = .strays)
    (hlevels : frames.length + e.levels ≤ limit)
    (hnext : rest.headD (.endAt finish) = .token t) :
    (run limit finish ⟨.operand, floor, frames⟩ (tokens.map Item.token ++ rest)).answer
      = .error (.unexpectedToken t) := by
  induction e generalizing words tokens floor frames with
  | number literal =>
    cases h with
    | number hwell =>
      obtain ⟨⟨_, offset⟩, rfl, rfl⟩ := List.map_eq_singleton_iff.mp hwords
      obtain ⟨log, hrun⟩ := run_number hwell hlevels hnext offset
      rw [hrun, settle_of_strays hrole]
      rfl
  | group content =>
    cases h with
    | group h =>
      obtain ⟨log, hrun⟩ := run_group (readable_of_derives h limit finish) hwords hlevels hnext
      rw [hrun, settle_of_strays hrole]
      rfl
  | sign s operand ih =>
    cases h with
    | sign h =>
      obtain ⟨⟨_, offset⟩, more, rfl, rfl, hmore⟩ := List.map_eq_cons_iff.mp hwords
      rw [Expr.levels] at hlevels
      have hsign : Reader.role signFloor t.lexeme = .strays := by
        rw [Reader.eq_leftParen_of_role hrole]
        rfl
      rw [List.map_cons, List.cons_append,
        run_operand_of_go (by omega) (begin_sign s offset floor frames)]
      exact ih h hmore hsign (by rw [List.length_cons]; omega)
  | binary op lhs rhs => cases h

theorem ends_of_run (h : Derives floor.phrase (tokens.map Token.lexeme) e)
    (hrole : Reader.role floor t.lexeme = .ends) (hlevels : e.levels ≤ limit)
    (hnext : rest.headD (.endAt finish) = .token t) {e' : Expr}
    (hanswer : (run limit finish (start floor) (tokens.map Item.token ++ rest)).answer = .ok e') :
    t.lexeme.Ends floor (tokens.map Token.lexeme) := by
  refine ⟨Reader.role_eq_ends_iff.mp hrole, fun s hs ↦ ?_⟩
  rcases Reader.role_stop_phrase hrole with hstop | ⟨rfl, hparen⟩
  · exact Reader.role_eq_ends_iff.mp (Reader.role_eq_ends_mono hstop (by cases floor <;> decide))
  · -- the operand of the sign would be refused
    exfalso
    generalize hwords : tokens.map Token.lexeme = words at h hs
    cases h with
    | number => cases s <;> cases hs
    | group => cases s <;> cases hs
    | @sign s _ _ h =>
      obtain ⟨⟨_, offset⟩, more, rfl, rfl, hmore⟩ := List.map_eq_cons_iff.mp hwords
      rw [Expr.levels] at hlevels
      have hsign : Reader.role signFloor t.lexeme = .strays := by
        rw [hparen]
        rfl
      have hroom : ([] : List Frame).length < limit := by
        rw [List.length_nil]
        omega
      have hrefused : (run limit finish ⟨.operand, signFloor, [.sign s .call]⟩
          (more.map Item.token ++ rest)).answer = .error (.unexpectedToken t) :=
        answer_run_of_strays h hmore hsign hlevels hnext
      rw [List.map_cons, List.cons_append, start,
        run_operand_of_go hroom (begin_sign s offset .call [])] at hanswer
      cases hrefused.symm.trans hanswer

end

end Machine

/-! ## Splitting what is ahead -/

namespace Lexer

/-- `lexer.Splits floor tokens e t rest` says that the tokens and then the rest are ahead of the
lexer, that the tokens are a phrase with the tree `e` of the kind that is read down to the floor,
and that `t`, which is the first of the rest or the end of the input, can follow it. -/
structure Splits (lexer : Lexer) (floor : Precedence) (tokens : List Token) (e : Expr) (t : Token)
    (rest : List (Except Diagnostic Token)) : Prop where
  listing : lexer.listing = tokens.map .ok ++ rest
  front : rest.headD (.ok ⟨.endOfInput, lexer.source.text.utf8ByteSize⟩) = .ok t
  derives : Derives floor.phrase (tokens.map Token.lexeme) e
  ends : t.lexeme.Ends floor (tokens.map Token.lexeme)

end Lexer

namespace Evaluator

variable {evaluator : Evaluator} {floor : Precedence} {tokens : List Token} {e : Expr} {t : Token}
  {rest : List (Except Diagnostic Token)}

theorem Sound.listing_eq (h : evaluator.Sound) :
    evaluator.lexer.listing = evaluator.lexer.ahead.map (Item.result evaluator.lexer.source) :=
  Lexer.listing_eq_map_ahead h.coherent h.ended

theorem Sound.exists_ahead_eq (h : evaluator.Sound)
    (hsplits : evaluator.lexer.Splits floor tokens e t rest) :
    ∃ items, evaluator.lexer.ahead = tokens.map Item.token ++ items ∧
      items.map (Item.result evaluator.lexer.source) = rest ∧
      items.headD (.endAt evaluator.lexer.finish) = .token t := by
  have hlisting := h.listing_eq.symm.trans hsplits.listing
  obtain ⟨before, items, hahead, hbefore, rfl⟩ := List.map_eq_append_iff.mp hlisting
  have hmap : tokens.map Except.ok
      = (tokens.map Item.token).map (Item.result evaluator.lexer.source) := by
    rw [List.map_map]
    rfl
  rw [hmap] at hbefore
  rw [(List.map_inj_right fun _ _ ↦ Item.result_inj.mp).mp hbefore] at hahead
  have hresult : (items.headD (.endAt evaluator.lexer.finish)).result evaluator.lexer.source
      = (Item.token t).result evaluator.lexer.source := by
    have hfront := hsplits.front
    rw [← h.finish] at hfront
    cases items <;> exact hfront
  exact ⟨items, hahead, rfl, Item.result_inj.mp hresult⟩

/-- A phrase that something follows which can follow it is read, and what follows is held. -/
theorem Sound.run_evaluate_of_splits (h : evaluator.Sound) {maxDepth : Nat}
    (hsplits : evaluator.lexer.Splits floor tokens e t rest) (hlevels : e.levels ≤ maxDepth) :
    ((evaluate maxDepth floor).run evaluator.lexer).answer = .ok e.value ∧
      ((evaluate maxDepth floor).run evaluator.lexer).lexer.listing = rest ∧
      ((evaluate maxDepth floor).run evaluator.lexer).lexer.held = some t := by
  obtain ⟨items, hahead, hrest, hnext⟩ := h.exists_ahead_eq hsplits
  obtain ⟨log, hrun⟩ :=
    Machine.run_start_of_ends hsplits.derives hsplits.ends hlevels hnext
  rw [← hahead] at hrun
  obtain ⟨hanswer, hleft, hheld⟩ := evaluator.lexer.reading_eq_run maxDepth floor
  rw [hrun] at hanswer hleft hheld
  obtain ⟨after, hevaluate, hmoves, hafter⟩ := run_evaluate h.coherent maxDepth floor
  rw [hanswer] at hevaluate
  rw [hleft] at hmoves
  rw [hheld] at hafter
  rw [hevaluate]
  refine ⟨rfl, ?_, ?_⟩
  · rw [Lexer.listing_eq_map_ahead hmoves.coherent (hmoves.ended.trans h.ended), hmoves.ahead,
      hmoves.source, hrest]
  · obtain ⟨held, hsome⟩ := Option.isSome_iff_exists.mp hafter
    have hfront := Lexer.front_of_held_some hmoves.coherent hsome
    rw [Lexer.front, hmoves.ahead, hmoves.finish, hnext] at hfront
    cases hfront
    exact hsome

/-- What is read comes from a split. -/
theorem Sound.exists_splits_of_answer (h : evaluator.Sound) {maxDepth : Nat} {value : Float}
    (hlimit : evaluator.lexer.ahead.length ≤ maxDepth)
    (hvalue : ((evaluate maxDepth floor).run evaluator.lexer).answer = .ok value) :
    ∃ tokens e t rest, evaluator.lexer.Splits floor tokens e t rest ∧ value = e.value := by
  obtain ⟨after, hevaluate, -⟩ := run_evaluate h.coherent maxDepth floor
  obtain ⟨hreading, -⟩ := evaluator.lexer.reading_eq_run maxDepth floor
  rw [hevaluate, hreading] at hvalue
  cases hanswer : (Machine.run maxDepth evaluator.lexer.finish (Machine.start floor)
      evaluator.lexer.ahead).answer with
  | error problem =>
    rw [hanswer] at hvalue
    cases hvalue
  | ok e =>
    rw [hanswer] at hvalue
    cases hvalue
    obtain ⟨tokens, t, hahead, hnext, hderives, hrole⟩ :=
      Machine.run_sound (Machine.hasRead_start floor) maxDepth _ _ hanswer
    generalize (Machine.run maxDepth evaluator.lexer.finish (Machine.start floor)
      evaluator.lexer.ahead).rest = items at hahead hnext
    rw [List.nil_append] at hderives
    have hlevels := hderives.levels_le_length
    rw [hahead] at hanswer hlimit
    rw [List.length_append, List.length_map] at hlimit
    refine ⟨tokens, e, t, items.map (Item.result evaluator.lexer.source), ⟨?_, ?_, hderives, ?_⟩,
      rfl⟩
    · rw [h.listing_eq, hahead, List.map_append, List.map_map]
      rfl
    · have hresult := congrArg (Item.result evaluator.lexer.source) hnext
      rw [h.finish] at hresult
      cases items <;> exact hresult
    · exact Machine.ends_of_run hderives hrole (by omega) hnext hanswer

/-- **The meaning of a floor.** With more levels than there are items left, what is read down to a
floor is the phrase of its kind with which they begin, if something follows that can follow it, and
nothing is read if there is none. There is one such phrase at most; its tokens are taken, and what
follows is left and held. -/
theorem evaluate_iff_splits (h : evaluator.Reachable)
    (hlimit : evaluator.lexer.listing.length < evaluator.maxDepth) (floor : Precedence) :
    (∀ value, ((evaluate evaluator.maxDepth floor).run evaluator.lexer).answer = .ok value ↔
      ∃ tokens e t rest, evaluator.lexer.Splits floor tokens e t rest ∧ value = e.value) ∧
    ∀ tokens e t rest, evaluator.lexer.Splits floor tokens e t rest →
      ((evaluate evaluator.maxDepth floor).run evaluator.lexer).lexer.listing = rest ∧
      ((evaluate evaluator.maxDepth floor).run evaluator.lexer).lexer.held = some t ∧
      ∀ tokens' e' t' rest', evaluator.lexer.Splits floor tokens' e' t' rest' →
        tokens' = tokens ∧ e' = e ∧ t' = t ∧ rest' = rest := by
  have hsound := h.sound
  have hread : ∀ {tokens e t rest}, evaluator.lexer.Splits floor tokens e t rest →
      ((evaluate evaluator.maxDepth floor).run evaluator.lexer).answer = .ok e.value ∧
      ((evaluate evaluator.maxDepth floor).run evaluator.lexer).lexer.listing = rest ∧
      ((evaluate evaluator.maxDepth floor).run evaluator.lexer).lexer.held = some t := by
    intro tokens e t rest hsplits
    refine hsound.run_evaluate_of_splits hsplits ?_
    have hlevels := hsplits.derives.levels_le_length
    rw [hsplits.listing, List.length_append, List.length_map] at hlimit
    omega
  refine ⟨fun value ↦ ⟨fun hvalue ↦ ?_, ?_⟩, fun tokens e t rest hsplits ↦ ?_⟩
  · rw [hsound.listing_eq, List.length_map] at hlimit
    exact hsound.exists_splits_of_answer (Nat.le_of_lt hlimit) hvalue
  · rintro ⟨tokens, e, t, rest, hsplits, rfl⟩
    exact (hread hsplits).1
  · obtain ⟨-, hrest, hheld⟩ := hread hsplits
    refine ⟨hrest, hheld, fun tokens' e' t' rest' hsplits' ↦ ?_⟩
    obtain ⟨-, hrest', hheld'⟩ := hread hsplits'
    obtain rfl : rest' = rest := hrest'.symm.trans hrest
    obtain rfl : t' = t := Option.some.inj (hheld'.symm.trans hheld)
    have htokens := List.append_cancel_right (hsplits'.listing.symm.trans hsplits.listing)
    obtain rfl : tokens' = tokens := (List.map_inj_right fun _ _ ↦ Except.ok.inj).mp htokens
    exact ⟨rfl, hsplits.derives.unique hsplits'.derives, rfl, rfl⟩

/-- What stands after the first phrase of `1 2*3)` is held, and the second phrase begins with it. -/
theorem evaluate_sum_held :
    let evaluator := ((⟨.ofSource ⟨none, "1 2*3)"⟩, 9⟩ : Evaluator).meet (.evaluate .lowest)).1
    evaluator.Reachable ∧ evaluator.lexer.listing.length < evaluator.maxDepth ∧
      evaluator.lexer.held = some ⟨.number ['2'], 2⟩ ∧
      ((evaluate evaluator.maxDepth .sum).run evaluator.lexer).answer
        = .ok (Numeral.value ['2'] * Numeral.value ['3']) := by
  intro evaluator
  have hreachable : evaluator.Reachable := .meet (.start _ 9) (.evaluate .lowest)
  have hlexer : evaluator.lexer
      = ⟨⟨none, "1 2*3)"⟩, ['*', '3', ')'], 3, some ⟨.number ['2'], 2⟩, false⟩ := by
    decide +kernel
  have hahead : evaluator.lexer.ahead = [.token ⟨.number ['2'], 2⟩, .token ⟨.star, 3⟩,
      .token ⟨.number ['3'], 4⟩, .token ⟨.rightParen, 5⟩] := by
    rw [hlexer]
    decide +kernel
  have hlisting := hreachable.sound.listing_eq
  rw [hahead] at hlisting
  have hlimit : evaluator.lexer.listing.length < evaluator.maxDepth := by
    rw [hlisting]
    decide +kernel
  have htwo : Numeral.WellFormed ['2'] := by decide
  have hthree : Numeral.WellFormed ['3'] := by decide
  have hends : Lexeme.rightParen.Ends .sum [.number ['2'], .star, .number ['3']] :=
    ⟨by rintro _ ⟨⟩, fun s hs ↦ by cases s <;> cases hs⟩
  have hsplits : evaluator.lexer.Splits .sum
      [⟨.number ['2'], 2⟩, ⟨.star, 3⟩, ⟨.number ['3'], 4⟩]
      (.binary .star (.number ['2']) (.number ['3'])) ⟨.rightParen, 5⟩ [.ok ⟨.rightParen, 5⟩] :=
    ⟨hlisting, rfl, .product (.inl rfl) (.factor (.unary (.number htwo))) (.unary (.number hthree)),
      hends⟩
  refine ⟨hreachable, hlimit, by rw [hlexer], ?_⟩
  exact ((evaluate_iff_splits hreachable hlimit .sum).1 _).mpr ⟨_, _, _, _, hsplits, rfl⟩

/-- A parenthesis does not bind tighter than a call, and yet it cannot follow a sign and its operand
when these are read down to a call. -/
theorem evaluate_call_sign :
    let evaluator : Evaluator := ⟨.ofSource ⟨none, "-2(3)"⟩, defaultMaxDepth⟩
    let tokens : List Token := [⟨.minus, 0⟩, ⟨.number ['2'], 1⟩]
    evaluator.Reachable ∧ evaluator.lexer.listing.length < evaluator.maxDepth ∧
      evaluator.lexer.listing = tokens.map .ok
        ++ [.ok ⟨.leftParen, 2⟩, .ok ⟨.number ['3'], 3⟩, .ok ⟨.rightParen, 4⟩] ∧
      Derives Precedence.call.phrase (tokens.map Token.lexeme) (.sign .minus (.number ['2'])) ∧
      Lexeme.leftParen.Stops .call ∧
      ((evaluate evaluator.maxDepth .call).run evaluator.lexer).answer
        = .error ⟨⟨none, "-2(3)"⟩, .unexpectedToken ⟨.leftParen, 2⟩⟩ := by
  intro evaluator tokens
  have hreachable : evaluator.Reachable := .start _ defaultMaxDepth
  have hahead : evaluator.lexer.ahead = tokens.map Item.token
      ++ [.token ⟨.leftParen, 2⟩, .token ⟨.number ['3'], 3⟩, .token ⟨.rightParen, 4⟩] := by
    decide +kernel
  have hlisting := hreachable.sound.listing_eq
  rw [hahead] at hlisting
  refine ⟨hreachable, ?_, hlisting, .sign (s := .minus) (.number (by decide)), ?_, ?_⟩
  · rw [hlisting]
    decide
  · rintro _ ⟨rfl⟩
    decide
  · obtain ⟨after, hevaluate, -⟩ := run_evaluate hreachable.sound.coherent defaultMaxDepth .call
    obtain ⟨hreading, -⟩ := evaluator.lexer.reading_eq_run defaultMaxDepth .call
    rw [hahead] at hreading
    rw [show evaluator.maxDepth = defaultMaxDepth from rfl, hevaluate, hreading]
    rfl

end Evaluator

end Calculator
