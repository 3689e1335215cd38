import Calculator.Proofs.Reading.Grammar

/-!
# The depth of an expression

A limit on the levels lets an expression pass just if the expression has no more levels than the
limit. Otherwise evaluation stops with the first token of a subexpression that lies too deep. Which
one is a matter of the tree alone: it is the leftmost of those on the first level over the limit
(`Expr.FirstAt`).

## Levels and places

The operand of a sign, the content of a group and the right operand of an operator lie one level
below the whole, and the left operand on the same level as the whole. So a subexpression may begin
where the whole begins and be on its level (`Expr.Occurs`). An operator has all of its left operand
before its right one: what is leftmost in the left operand is leftmost in the whole, and the right
operand matters only where the left one does not come down to the level.

## Why the leftmost is met

A phrase that fits below the limit is read as a whole (`Machine.Readable`), and the machine comes to
what follows it. So it is stopped in the first operand that does not fit, and there at the first
token with which an operand begins as the stack is full.
-/

namespace Calculator

namespace Expr

/-- `e.Occurs level index part` says that the part is a subexpression of `e` on the level, and that
it begins with the word at the index. -/
inductive Occurs : Expr → Nat → Nat → Expr → Prop
  | self (e : Expr) : Occurs e 0 0 e
  | operand {s : Sign} {e part : Expr} {level index : Nat} (h : Occurs e level index part) :
      Occurs (.sign s e) (level + 1) (index + 1) part
  | content {e part : Expr} {level index : Nat} (h : Occurs e level index part) :
      Occurs (.group e) (level + 1) (index + 1) part
  | lhs {op : Operator} {l r part : Expr} {level index : Nat} (h : Occurs l level index part) :
      Occurs (.binary op l r) level index part
  | rhs {op : Operator} {l r part : Expr} {level index : Nat} (h : Occurs r level index part) :
      Occurs (.binary op l r) (level + 1) (l.lexemes.length + 1 + index) part

/-- The leftmost subexpression on the level begins with the word at the index. -/
structure FirstAt (e : Expr) (level index : Nat) : Prop where
  occurs : ∃ part, e.Occurs level index part
  le : ∀ {other : Nat} {part : Expr}, e.Occurs level other part → index ≤ other

theorem levels_pos (e : Expr) : 0 < e.levels := by
  induction e with
  | number literal => exact Nat.one_pos
  | sign s operand ih => exact Nat.add_pos_left Nat.one_pos _
  | group content ih => exact Nat.add_pos_left Nat.one_pos _
  | binary op lhs rhs ihl ihr => exact Nat.lt_of_lt_of_le ihl (Nat.le_max_left _ _)

variable {e part : Expr} {level index : Nat}

/-- There are subexpressions on the levels that are counted, and on no others. -/
theorem Occurs.level_lt (h : e.Occurs level index part) : level < e.levels := by
  induction h with
  | self e => exact e.levels_pos
  | operand _ ih | content _ ih =>
    rw [levels]
    omega
  | lhs _ ih | rhs _ ih =>
    rw [levels]
    omega

theorem Occurs.index_lt (h : e.Occurs level index part) : index < e.lexemes.length := by
  induction h with
  | self e => exact List.length_pos_iff.mpr e.lexemes_ne_nil
  | operand _ ih =>
    rw [lexemes, List.length_cons]
    omega
  | content _ ih =>
    rw [lexemes, List.length_cons, List.length_append]
    omega
  | lhs _ ih | rhs _ ih =>
    rw [lexemes, List.length_append, List.length_cons]
    omega

namespace FirstAt

theorem self (e : Expr) : e.FirstAt 0 0 := ⟨⟨e, .self e⟩, fun _ ↦ Nat.zero_le _⟩

theorem unique (h : e.FirstAt level index) {other : Nat} (h' : e.FirstAt level other) :
    index = other := by
  obtain ⟨part, hpart⟩ := h.occurs
  obtain ⟨part', hpart'⟩ := h'.occurs
  exact Nat.le_antisymm (h.le hpart') (h'.le hpart)

theorem sign (h : e.FirstAt level index) (s : Sign) :
    (Expr.sign s e).FirstAt (level + 1) (index + 1) := by
  obtain ⟨part, hpart⟩ := h.occurs
  refine ⟨⟨part, hpart.operand⟩, ?_⟩
  rintro _ _ (_ | hother)
  exact Nat.succ_le_succ (h.le hother)

theorem group (h : e.FirstAt level index) : (Expr.group e).FirstAt (level + 1) (index + 1) := by
  obtain ⟨part, hpart⟩ := h.occurs
  refine ⟨⟨part, hpart.content⟩, ?_⟩
  rintro _ _ (_ | _ | hother)
  exact Nat.succ_le_succ (h.le hother)

theorem lhs {l : Expr} (h : l.FirstAt level index) (op : Operator) (r : Expr) :
    (Expr.binary op l r).FirstAt level index := by
  obtain ⟨part, hpart⟩ := h.occurs
  have hlt := hpart.index_lt
  refine ⟨⟨part, hpart.lhs⟩, fun hother ↦ ?_⟩
  cases hother with
  | self => exact h.le (.self l)
  | lhs hother => exact h.le hother
  | rhs hother => omega

/-- What is leftmost in the right operand is leftmost in the whole, if the left operand does not
come down to the level. -/
theorem rhs {l r : Expr} (h : r.FirstAt level index) (hl : l.levels ≤ level + 1) (op : Operator) :
    (Expr.binary op l r).FirstAt (level + 1) (l.lexemes.length + 1 + index) := by
  obtain ⟨part, hpart⟩ := h.occurs
  refine ⟨⟨part, hpart.rhs⟩, fun hother ↦ ?_⟩
  cases hother with
  | lhs hother => exact absurd hother.level_lt (Nat.not_lt_of_le hl)
  | rhs hother => exact Nat.add_le_add_left (h.le hother) _

end FirstAt

end Expr

namespace Machine

/-- `Stopped limit e height tokens result` says that a run with a number of frames on the stack was
stopped by the limit, at the first token of the leftmost subexpression over the limit. -/
def Stopped (limit : Nat) (e : Expr) (height : Nat) (tokens : List Token) (result : Result) :
    Prop :=
  ∃ (k : Nat) (t : Token), tokens[k]? = some t ∧ e.FirstAt (limit - height) k ∧
    result.answer = .error (.depthLimitExceeded limit t)

/-- `Blocked limit finish phrase words e` says that the machine does not read the words as a phrase
with the tree `e` where the tree does not fit below the limit, but is stopped there. -/
def Blocked (limit finish : Nat) (phrase : Phrase) (words : List Lexeme) (e : Expr) : Prop :=
  ∀ tokens : List Token, tokens.map Token.lexeme = words →
    ∀ (floor : Precedence) (frames : List Frame) (rest : List Item),
      phrase ≤ floor.phrase → frames.length ≤ limit → limit < frames.length + e.levels →
      Stopped limit e frames.length tokens
        (run limit finish ⟨.operand, floor, frames⟩ (tokens.map Item.token ++ rest))

section

variable {limit finish : Nat} {floor : Precedence} {frames : List Frame} {e : Expr}

theorem stopped_of_full (hfull : frames.length = limit) (e : Expr) (t : Token)
    (tokens : List Token) (rest : List Item) :
    Stopped limit e frames.length (t :: tokens)
      (run limit finish ⟨.operand, floor, frames⟩ ((t :: tokens).map Item.token ++ rest)) := by
  have hstep : State.step limit ⟨.operand, floor, frames⟩ (.token t)
      = ⟨.keep (.error (.depthLimitExceeded limit t)), []⟩ := by
    rw [step_operand, if_neg (Nat.not_lt_of_le (Nat.le_of_eq hfull.symm))]
  refine ⟨0, t, rfl, ?_, ?_⟩
  · rw [hfull, Nat.sub_self]
    exact .self e
  · rw [List.map_cons, List.cons_append, run_of_keep (.token t :: _) hstep]

end

namespace Blocked

variable {limit finish : Nat}

theorem mono {p q : Phrase} {words : List Lexeme} {e : Expr} (h : Blocked limit finish p words e)
    (hle : p ≤ q) : Blocked limit finish q words e :=
  fun tokens htokens floor frames rest hfloor ↦
    h tokens htokens floor frames rest (Phrase.le_trans hle hfloor)

theorem number (literal : List Char) :
    Blocked limit finish .unary [.number literal] (.number literal) := by
  intro tokens htokens floor frames rest _ hle hlt
  obtain ⟨t, rfl, -⟩ := List.map_eq_singleton_iff.mp htokens
  rw [Expr.levels] at hlt
  exact stopped_of_full (Nat.le_antisymm hle (Nat.le_of_lt_succ hlt)) _ t [] rest

theorem sign {s : Sign} {words : List Lexeme} {e : Expr} (h : Blocked limit finish .unary words e) :
    Blocked limit finish .unary (s.lexeme :: words) (.sign s e) := by
  intro tokens htokens floor frames rest _ hle hlt
  obtain ⟨⟨_, offset⟩, more, rfl, rfl, hmore⟩ := List.map_eq_cons_iff.mp htokens
  rcases Nat.eq_or_lt_of_le hle with hfull | hlevel
  · exact stopped_of_full hfull _ _ more rest
  · rw [Expr.levels] at hlt
    obtain ⟨k, t, hk, hfirst, hanswer⟩ := h more hmore signFloor (.sign s floor :: frames) rest
      (by decide) hlevel (by rw [List.length_cons]; omega)
    refine ⟨k + 1, t, hk, ?_, ?_⟩
    · rw [show limit - frames.length = limit - (frames.length + 1) + 1 by omega]
      exact hfirst.sign s
    · rw [List.map_cons, List.cons_append,
        run_operand_of_go hlevel (begin_sign s offset floor frames)]
      exact hanswer

theorem group {words : List Lexeme} {e : Expr} (h : Blocked limit finish .expr words e) :
    Blocked limit finish .unary (.leftParen :: (words ++ [.rightParen])) (.group e) := by
  intro tokens htokens floor frames rest _ hle hlt
  obtain ⟨⟨_, offset⟩, more, rfl, rfl, hmore⟩ := List.map_eq_cons_iff.mp htokens
  rcases Nat.eq_or_lt_of_le hle with hfull | hlevel
  · exact stopped_of_full hfull _ _ more rest
  · rw [Expr.levels] at hlt
    obtain ⟨inner, last, rfl, hinner, -⟩ := List.map_eq_append_iff.mp hmore
    obtain ⟨k, t, hk, hfirst, hanswer⟩ := h inner hinner .lowest
      (.group ⟨.leftParen, offset⟩ floor :: frames) (last.map Item.token ++ rest) (by decide) hlevel
      (by rw [List.length_cons]; omega)
    refine ⟨k + 1, t, ?_, ?_, ?_⟩
    · rw [List.getElem?_cons_succ]
      exact List.getElem?_append_left (List.getElem?_eq_some_iff.mp hk).1 ▸ hk
    · rw [show limit - frames.length = limit - (frames.length + 1) + 1 by omega]
      exact hfirst.group
    · rw [List.map_cons, List.cons_append, run_operand_of_go hlevel rfl, List.map_append,
        List.append_assoc]
      exact hanswer

/-- Two operands with an operator between them are blocked where the left one is, or else where the
right one is. -/
theorem binary (op : Operator) {left right : List Lexeme} {l r : Expr}
    (hleft : Derives op.leftPhrase left l) (hl : Blocked limit finish op.leftPhrase left l)
    (hr : Blocked limit finish op.rightFloor.phrase right r) :
    Blocked limit finish op.phrase (left ++ op.lexeme :: right) (.binary op l r) := by
  intro tokens htokens floor frames rest hfloor hle hlt
  obtain ⟨before, more, rfl, hbefore, hmore⟩ := List.map_eq_append_iff.mp htokens
  obtain ⟨⟨_, offset⟩, after, rfl, rfl, hafter⟩ := List.map_eq_cons_iff.mp hmore
  have hphrase := Phrase.le_trans op.leftPhrase_le_phrase hfloor
  rw [List.map_append, List.map_cons, List.append_assoc, List.cons_append]
  by_cases hfits : limit < frames.length + l.levels
  · obtain ⟨k, t, hk, hfirst, hanswer⟩ := hl before hbefore floor frames
      (.token ⟨op.lexeme, offset⟩ :: (after.map Item.token ++ rest)) hphrase hle hfits
    refine ⟨k, t, ?_, hfirst.lhs op r, hanswer⟩
    rw [List.getElem?_append_left (List.getElem?_eq_some_iff.mp hk).1, hk]
  · -- the left operand is read, and the right one lies one level below
    obtain ⟨log, hread⟩ := readable_of_derives hleft limit finish before hbefore floor frames
      ⟨op.lexeme, offset⟩ (.token ⟨op.lexeme, offset⟩ :: (after.map Item.token ++ rest)) hphrase
      (Reader.role_lexeme_eq_ends_iff.mpr op.not_stop_leftPhrase_lt) (Nat.le_of_not_lt hfits) rfl
    have hjoins : Reader.role floor op.lexeme = .joins op :=
      Reader.role_eq_joins_iff.mpr ⟨rfl, Operator.phrase_le_iff.mp hfloor⟩
    have hpos := l.levels_pos
    rw [Expr.levels] at hlt
    obtain ⟨k, t, hk, hfirst, hanswer⟩ := hr after hafter op.rightFloor (.rhs op l floor :: frames)
      rest (Nat.le_refl _) (by rw [List.length_cons]; omega) (by rw [List.length_cons]; omega)
    have hlength : before.length = l.lexemes.length := by
      rw [hleft.lexemes_eq, ← hbefore, List.length_map]
    refine ⟨l.lexemes.length + 1 + k, t, ?_, ?_, ?_⟩
    · rw [← hlength, Nat.add_assoc, List.getElem?_append_right (Nat.le_add_right _ _),
        Nat.add_sub_cancel_left, Nat.add_comm 1 k, List.getElem?_cons_succ, hk]
    · rw [List.length_cons] at hfirst
      rw [show limit - frames.length = limit - (frames.length + 1) + 1 by omega]
      exact hfirst.rhs (by omega) op
    · rw [hread, settle_of_joins hjoins, resume_go, List.tail_cons]
      exact hanswer

end Blocked

theorem blocked_of_derives {phrase : Phrase} {words : List Lexeme} {e : Expr}
    (h : Derives phrase words e) (limit finish : Nat) : Blocked limit finish phrase words e := by
  induction h with
  | number _ => exact .number _
  | sign _ ih => exact .sign ih
  | group _ ih => exact .group ih
  | unary _ ih => exact ih.mono (by decide)
  | power hb _ ihb ihx => exact .binary .power hb ihb ihx
  | factor _ ih => exact ih.mono (by decide)
  | product hop hl _ ihl ihr =>
    rcases hop with rfl | rfl
    · exact .binary .star hl ihl ihr
    · exact .binary .slash hl ihl ihr
  | term _ ih => exact ih.mono (by decide)
  | sum hop hl _ ihl ihr =>
    rcases hop with rfl | rfl
    · exact .binary .plus hl ihl ihr
    · exact .binary .minus hl ihl ihr

end Machine

namespace Source

/-- An expression that does not fit below the limit is stopped at the first token over it. -/
theorem answer_of_lt_levels {source : Source} {n : Nat} {tokens : List Token} {e : Expr}
    (hitems : source.items = tokens.map Item.token)
    (h : Derives .expr (tokens.map Token.lexeme) e) (hlt : n < e.levels) :
    ∃ (k : Nat) (t : Token), tokens[k]? = some t ∧ e.FirstAt n k ∧
      (source.evaluate n).answer = .error ⟨source, .depthLimitExceeded n t⟩ := by
  obtain ⟨k, t, hk, hfirst, hanswer⟩ := Machine.blocked_of_derives h n source.finish tokens rfl
    .lowest [] [] (by decide) (Nat.zero_le _) (by rwa [List.length_nil, Nat.zero_add])
  rw [List.append_nil, ← hitems] at hanswer
  refine ⟨k, t, hk, hfirst, answer_eq_error_iff.mpr ⟨rfl, ?_⟩⟩
  exact Machine.Result.whole_of_answer_eq_error hanswer

/-- **The depth of an expression.** An input that is evaluated below some limit has one tree, and it
is evaluated below just those limits that are not less than the levels of the tree. Below any other
limit it is reported that the limit is reached, at the first token of the leftmost subexpression on
the level that the limit does not allow any more. -/
theorem evaluate_iff_levels_le {source : Source} {maxDepth : Nat} {value : Float}
    (h : (source.evaluate maxDepth).answer = .ok value) :
    ∃ (tokens : List Token) (e : Expr), (Lexer.ofSource source).listing = tokens.map .ok ∧
      Derives .expr (tokens.map Token.lexeme) e ∧
      (∀ e', Derives .expr (tokens.map Token.lexeme) e' → e' = e) ∧
      ∀ n, ((∃ v, (source.evaluate n).answer = .ok v) ↔ e.levels ≤ n) ∧
        (n < e.levels → ∃ (k : Nat) (t : Token), tokens[k]? = some t ∧ e.FirstAt n k ∧
          (source.evaluate n).answer = .error ⟨source, .depthLimitExceeded n t⟩) := by
  obtain ⟨tokens, e, hitems, hderives, -⟩ := derives_of_answer h
  refine ⟨tokens, e, Lexer.listing_ofSource_eq_map_ok_iff.mpr hitems, hderives,
    fun e' h' ↦ hderives.unique h', fun n ↦ ⟨⟨?_, ?_⟩, answer_of_lt_levels hitems hderives⟩⟩
  · rintro ⟨v, hv⟩
    refine Nat.le_of_not_lt fun hlt ↦ ?_
    obtain ⟨_, _, -, -, hstopped⟩ := answer_of_lt_levels hitems hderives hlt
    cases hv.symm.trans hstopped
  · intro hle
    exact ⟨e.value, answer_of_derives hitems hderives hle⟩

/-- In `1-2+3*-4` the first token on the first level below the whole is that of the first right
operand. -/
theorem evaluate_levels_sum :
    (Source.evaluate ⟨none, "1-2+3*-4"⟩ 4).answer
      = .ok (Numeral.value ['1'] - Numeral.value ['2']
          + Numeral.value ['3'] * -Numeral.value ['4']) ∧
    (Source.evaluate ⟨none, "1-2+3*-4"⟩ 1).answer
      = .error ⟨⟨none, "1-2+3*-4"⟩, .depthLimitExceeded 1 ⟨.number ['2'], 2⟩⟩ := by
  let e : Expr := .binary .plus (.binary .minus (.number ['1']) (.number ['2']))
    (.binary .star (.number ['3']) (.sign .minus (.number ['4'])))
  let tokens : List Token := [⟨.number ['1'], 0⟩, ⟨.minus, 1⟩, ⟨.number ['2'], 2⟩, ⟨.plus, 3⟩,
    ⟨.number ['3'], 4⟩, ⟨.star, 5⟩, ⟨.minus, 6⟩, ⟨.number ['4'], 7⟩]
  have hitems : Source.items ⟨none, "1-2+3*-4"⟩ = tokens.map Item.token := by decide +kernel
  have hone : Derives .power [.number ['1']] (.number ['1']) := .unary (.number (by decide))
  have htwo : Derives .power [.number ['2']] (.number ['2']) := .unary (.number (by decide))
  have hthree : Derives .power [.number ['3']] (.number ['3']) := .unary (.number (by decide))
  have hfour : Derives .unary [.number ['4']] (.number ['4']) := .number (by decide)
  have hderives : Derives .expr (tokens.map Token.lexeme) e :=
    .sum (.inl rfl) (.sum (.inr rfl) (.term (.factor hone)) (.factor htwo))
      (.product (.inl rfl) (.factor hthree) (.unary (.sign (s := .minus) hfour)))
  have hvalue := answer_of_derives hitems hderives (show e.levels ≤ 4 by decide)
  obtain ⟨tokens', e', hlisting, -, hunique, hlevels⟩ := evaluate_iff_levels_le hvalue
  have htokens := hitems.symm.trans (Lexer.listing_ofSource_eq_map_ok_iff.mp hlisting)
  obtain rfl : tokens = tokens' := (List.map_inj_right fun _ _ ↦ Item.token.inj).mp htokens
  obtain rfl := hunique e hderives
  obtain ⟨k, t, hk, hfirst, hanswer⟩ := (hlevels 1).2 (by decide)
  have hleft : (Expr.number ['1']).levels ≤ 1 := by decide
  have hsecond : e.FirstAt 1 2 := ((Expr.FirstAt.self (.number ['2'])).rhs hleft .minus).lhs .plus _
  obtain rfl := hfirst.unique hsecond
  cases hk
  exact ⟨hvalue, hanswer⟩

end Source

end Calculator
