import Calculator.Proofs.Reading.Simulation
import Calculator.Proofs.Reading.Stack

/-!
# Evaluation and the grammar

The evaluator knows precedences and no grammar. Here it is shown to read the grammar: an input is
evaluated just if its tokens derive an expression, the tree of which is then unique, and the value
is that of the tree.

## A phrase in its surroundings

That what is read is derived was shown for every state of the machine (`run_sound`). The other
direction has to be as general, since a phrase is mostly read in the middle of an input, on a stack
of frames and in front of a token of which nothing is known but that it does not go on with the
phrase. `Readable` says that there the machine reads the phrase as one operand: it comes to the
reaction which that token calls for after the whole tree. Every rule of the grammar keeps this, and
the rules with an operator do so all for the same reason (`Readable.binary`).

## Why the tree is unique

The machine comes to one result, and it comes to every tree that the words derive.
-/

namespace Calculator

theorem Expr.levels_le_length_lexemes (e : Expr) : e.levels ≤ e.lexemes.length := by
  induction e with
  | number literal => exact Nat.le_refl 1
  | sign s operand ih =>
    rw [levels, lexemes, List.length_cons]
    omega
  | group content ih =>
    rw [levels, lexemes, List.length_cons, List.length_append, List.length_singleton]
    omega
  | binary op lhs rhs ihl ihr =>
    rw [levels, lexemes, List.length_append, List.length_cons]
    omega

theorem Derives.levels_le_length {phrase : Phrase} {tokens : List Token} {e : Expr}
    (h : Derives phrase (tokens.map Token.lexeme) e) : e.levels ≤ tokens.length := by
  have hle := e.levels_le_length_lexemes
  rwa [h.lexemes_eq, List.length_map] at hle

namespace Machine

/-! ## Phrases in their surroundings -/

/-- `Readable limit finish phrase words e` says that the machine reads the words as a phrase with
the tree `e`, wherever the tree fits below the limit and a token follows that does not go on with
it. -/
def Readable (limit finish : Nat) (phrase : Phrase) (words : List Lexeme) (e : Expr) : Prop :=
  ∀ tokens : List Token, tokens.map Token.lexeme = words →
    ∀ (floor : Precedence) (frames : List Frame) (t : Token) (rest : List Item),
      phrase ≤ floor.phrase → Reader.role phrase.stop t.lexeme = .ends →
      frames.length + e.levels ≤ limit → rest.headD (.endAt finish) = .token t →
      ∃ log, run limit finish ⟨.operand, floor, frames⟩ (tokens.map Item.token ++ rest)
        = (resume limit finish rest (settle t e floor frames)).after log

section

variable {limit finish : Nat} {floor : Precedence} {frames : List Frame} {t : Token}
  {rest : List Item}

theorem run_operator (h : rest.headD (.endAt finish) = .token t) (e : Expr) :
    run limit finish ⟨.operator e, floor, frames⟩ rest
      = (resume limit finish rest (settle t e floor frames)).after (Item.token t).lexed := by
  rw [run_eq, h, step_operator]

theorem run_operand_of_go {next : State} (hlevel : frames.length < limit)
    (h : begin t floor frames = .go next) (items : List Item) :
    run limit finish ⟨.operand, floor, frames⟩ (.token t :: items)
      = (run limit finish next items).after ((Item.token t).lexed ++ [.operand t.lexeme]) := by
  refine run_of_go (.token t :: items) ?_
  rw [List.headD_cons, step_operand, if_pos hlevel, h]

theorem run_number {literal : List Char} (h : Numeral.WellFormed literal)
    (hlevel : frames.length < limit) (hnext : rest.headD (.endAt finish) = .token t)
    (offset : Nat) :
    ∃ log, run limit finish ⟨.operand, floor, frames⟩
        ([Token.mk (.number literal) offset].map Item.token ++ rest)
      = (resume limit finish rest (settle t (.number literal) floor frames)).after log := by
  constructor
  rw [List.map_singleton, List.singleton_append,
    run_operand_of_go hlevel (by rw [begin_number, if_pos h]), run_operator hnext,
    Result.after_after]

/-- A group is read as one operand, whatever follows. -/
theorem run_group {words : List Lexeme} {tokens : List Token} {e : Expr}
    (h : Readable limit finish .expr words e)
    (htokens : tokens.map Token.lexeme = .leftParen :: (words ++ [.rightParen]))
    (hlevels : frames.length + (Expr.group e).levels ≤ limit)
    (hnext : rest.headD (.endAt finish) = .token t) :
    ∃ log, run limit finish ⟨.operand, floor, frames⟩ (tokens.map Item.token ++ rest)
      = (resume limit finish rest (settle t (.group e) floor frames)).after log := by
  obtain ⟨⟨_, offset⟩, more, rfl, rfl, hmore⟩ := List.map_eq_cons_iff.mp htokens
  obtain ⟨inner, last, rfl, hinner, hlast⟩ := List.map_eq_append_iff.mp hmore
  obtain ⟨⟨_, close⟩, rfl, rfl⟩ := List.map_eq_singleton_iff.mp hlast
  rw [Expr.levels] at hlevels
  obtain ⟨log, hrun⟩ := h inner hinner .lowest (.group ⟨.leftParen, offset⟩ floor :: frames)
    ⟨.rightParen, close⟩ (.token ⟨.rightParen, close⟩ :: rest) (by decide) rfl
    (by rw [List.length_cons]; omega) rfl
  constructor
  rw [List.map_cons, List.cons_append, run_operand_of_go (by omega) rfl, List.map_append,
    List.append_assoc, List.map_singleton, List.singleton_append, hrun, settle_of_ends rfl,
    release_group, if_pos rfl, resume_go, List.tail_cons, run_operator hnext, Result.after_after,
    Result.after_after, Result.after_after]

end

namespace Readable

variable {limit finish : Nat}

theorem number {literal : List Char} (h : Numeral.WellFormed literal) :
    Readable limit finish .unary [.number literal] (.number literal) := by
  intro tokens htokens floor frames t rest _ _ hlevels hnext
  obtain ⟨⟨_, offset⟩, rfl, rfl⟩ := List.map_eq_singleton_iff.mp htokens
  exact run_number h hlevels hnext offset

theorem sign {s : Sign} {words : List Lexeme} {e : Expr}
    (h : Readable limit finish .unary words e) :
    Readable limit finish .unary (s.lexeme :: words) (.sign s e) := by
  intro tokens htokens floor frames t rest _ hends hlevels hnext
  obtain ⟨⟨_, offset⟩, more, rfl, rfl, hmore⟩ := List.map_eq_cons_iff.mp htokens
  rw [Expr.levels] at hlevels
  obtain ⟨log, hrun⟩ := h more hmore signFloor (.sign s floor :: frames) t rest (by decide) hends
    (by rw [List.length_cons]; omega) hnext
  constructor
  rw [List.map_cons, List.cons_append,
    run_operand_of_go (by omega) (begin_sign s offset floor frames), hrun, Result.after_after,
    settle_of_ends (show Reader.role signFloor t.lexeme = .ends from hends), release_sign]

theorem group {words : List Lexeme} {e : Expr} (h : Readable limit finish .expr words e) :
    Readable limit finish .unary (.leftParen :: (words ++ [.rightParen])) (.group e) := by
  intro tokens htokens floor frames t rest _ _ hlevels hnext
  exact run_group h htokens hlevels hnext

theorem mono {p q : Phrase} {words : List Lexeme} {e : Expr} (h : Readable limit finish p words e)
    (hle : p ≤ q) : Readable limit finish q words e := by
  intro tokens htokens floor frames t rest hfloor hends
  exact h tokens htokens floor frames t rest (Phrase.le_trans hle hfloor)
    (Reader.role_eq_ends_mono hends (Phrase.rank_stop_le hle))

theorem binary (op : Operator) {left right : List Lexeme} {l r : Expr}
    (hl : Readable limit finish op.leftPhrase left l)
    (hr : Readable limit finish op.rightFloor.phrase right r) :
    Readable limit finish op.phrase (left ++ op.lexeme :: right) (.binary op l r) := by
  intro tokens htokens floor frames t rest hfloor hends hlevels hnext
  obtain ⟨before, more, rfl, hbefore, hmore⟩ := List.map_eq_append_iff.mp htokens
  obtain ⟨⟨_, offset⟩, after, rfl, rfl, hafter⟩ := List.map_eq_cons_iff.mp hmore
  rw [Expr.levels] at hlevels
  -- the operator ends the left operand and is taken
  obtain ⟨log, hleft⟩ := hl before hbefore floor frames ⟨op.lexeme, offset⟩
    (.token ⟨op.lexeme, offset⟩ :: (after.map Item.token ++ rest))
    (Phrase.le_trans op.leftPhrase_le_phrase hfloor)
    (Reader.role_lexeme_eq_ends_iff.mpr op.not_stop_leftPhrase_lt) (by omega) rfl
  have hjoins : Reader.role floor op.lexeme = .joins op :=
    Reader.role_eq_joins_iff.mpr ⟨rfl, Operator.phrase_le_iff.mp hfloor⟩
  -- the right operand is read above a frame for the operator, and handed to it
  obtain ⟨log', hright⟩ := hr after hafter op.rightFloor (.rhs op l floor :: frames) t rest
    (Nat.le_refl _)
    (Reader.role_eq_ends_mono hends (Phrase.rank_stop_le op.rightPhrase_le_phrase))
    (by rw [List.length_cons]; omega) hnext
  have hrelease : Reader.role op.rightFloor t.lexeme = .ends := by rw [← op.stop_phrase, hends]
  constructor
  rw [List.map_append, List.map_cons, List.append_assoc, List.cons_append, hleft,
    settle_of_joins hjoins, resume_go, List.tail_cons, hright, settle_of_ends hrelease, release_rhs,
    resume_after, Result.after_after, Result.after_after, Result.after_after]

end Readable

/-- What the grammar derives is read. -/
theorem readable_of_derives {phrase : Phrase} {words : List Lexeme} {e : Expr}
    (h : Derives phrase words e) (limit finish : Nat) : Readable limit finish phrase words e := by
  induction h with
  | number hwell => exact .number hwell
  | sign _ ih => exact .sign ih
  | group _ ih => exact .group ih
  | unary _ ih => exact ih.mono (by decide)
  | power _ _ ihb ihx => exact .binary .power ihb ihx
  | factor _ ih => exact ih.mono (by decide)
  | product hop _ _ ihl ihr =>
    rcases hop with rfl | rfl
    · exact .binary .star ihl ihr
    · exact .binary .slash ihl ihr
  | term _ ih => exact ih.mono (by decide)
  | sum hop _ _ ihl ihr =>
    rcases hop with rfl | rfl
    · exact .binary .plus ihl ihr
    · exact .binary .minus ihl ihr

theorem run_start_of_derives {tokens : List Token} {e : Expr} {limit : Nat}
    (h : Derives .expr (tokens.map Token.lexeme) e) (hlevels : e.levels ≤ limit) (finish : Nat) :
    ∃ log, run limit finish (start .lowest) (tokens.map Item.token) = ⟨.ok e, [], true, log⟩ := by
  obtain ⟨log, hrun⟩ := readable_of_derives h limit finish tokens rfl .lowest []
    ⟨.endOfInput, finish⟩ [] (by decide) rfl (by rwa [List.length_nil, Nat.zero_add]) rfl
  rw [List.append_nil, settle_of_ends rfl, release_nil, resume_keep] at hrun
  exact ⟨_, hrun⟩

end Machine

/-! ## Whole expressions -/

/-- **Unique trees.** Words have one tree at most. -/
theorem Derives.unique {phrase : Phrase} {words : List Lexeme} {e e' : Expr}
    (h : Derives phrase words e) (h' : Derives phrase words e') : e' = e := by
  -- where the words stand makes no difference, and neither tree has more levels than words
  obtain ⟨tokens, rfl⟩ : ∃ tokens : List Token, tokens.map Token.lexeme = words :=
    ⟨words.map fun lexeme ↦ ⟨lexeme, 0⟩, by rw [List.map_map]; exact List.map_id _⟩
  have hexpr := h.mono phrase.le_expr
  have hexpr' := h'.mono phrase.le_expr
  obtain ⟨log, hrun⟩ := Machine.run_start_of_derives hexpr hexpr.levels_le_length 0
  obtain ⟨log', hrun'⟩ := Machine.run_start_of_derives hexpr' hexpr'.levels_le_length 0
  have heq := congrArg Machine.Result.answer (hrun'.symm.trans hrun)
  exact Except.ok.inj heq

namespace Source

/-- Where an evaluation comes to a value, the run has come to a tree that the grammar derives, and
it has left nothing. -/
theorem reading_of_answer {source : Source} {maxDepth : Nat} {value : Float}
    (h : (source.evaluate maxDepth).answer = .ok value) :
    ∃ (tokens : List Token) (e : Expr), source.items = tokens.map Item.token ∧
      Derives .expr (tokens.map Token.lexeme) e ∧ value = e.value ∧
      (source.reading maxDepth).answer = .ok e ∧ (source.reading maxDepth).rest = [] := by
  obtain ⟨e, hwhole, rfl⟩ := answer_eq_ok_iff.mp h
  obtain ⟨hanswer, hrest⟩ := Machine.Result.whole_eq_ok_iff.mp hwhole
  obtain ⟨tokens, t, hitems, hnext, hderives, -⟩ :=
    Machine.run_sound (Machine.hasRead_start .lowest) maxDepth source.finish source.items hanswer
  -- the token after the tree is not listed, so it is the end of the input
  have hnil : (source.reading maxDepth).rest = [] := by
    cases hitem : (source.reading maxDepth).rest with
    | nil => rfl
    | cons item rest =>
      rw [← reading, hitem, List.headD_cons] at hnext
      rw [hnext] at hitem
      exact absurd hitem (hrest _ _)
  rw [← reading, hnil, List.append_nil] at hitems
  exact ⟨tokens, e, hitems, hderives, rfl, hanswer, hnil⟩

theorem derives_of_answer {source : Source} {maxDepth : Nat} {value : Float}
    (h : (source.evaluate maxDepth).answer = .ok value) :
    ∃ (tokens : List Token) (e : Expr), source.items = tokens.map Item.token ∧
      Derives .expr (tokens.map Token.lexeme) e ∧ value = e.value := by
  obtain ⟨tokens, e, hitems, hderives, hvalue, -⟩ := reading_of_answer h
  exact ⟨tokens, e, hitems, hderives, hvalue⟩

/-- What the grammar derives is evaluated, if the tree fits below the limit. -/
theorem answer_of_derives {source : Source} {maxDepth : Nat} {tokens : List Token} {e : Expr}
    (hitems : source.items = tokens.map Item.token)
    (h : Derives .expr (tokens.map Token.lexeme) e) (hlevels : e.levels ≤ maxDepth) :
    (source.evaluate maxDepth).answer = .ok e.value := by
  obtain ⟨log, hrun⟩ := Machine.run_start_of_derives h hlevels source.finish
  rw [answer_evaluate, reading, hitems, hrun]
  rfl

example : (Source.evaluate ⟨none, "7/2"⟩ 2).answer.toOption
    = some (Numeral.value ['3', '.', '5']) := by
  decide +kernel

/-- **Evaluation reads the grammar.** Below a limit greater than the number of the tokens, an input
is evaluated just if it has tokens only and they derive an expression; the tree is then unique, and
its value is what the evaluation comes to. -/
theorem evaluate_iff_derives (source : Source) (maxDepth : Nat)
    (h : (Lexer.ofSource source).listing.countP Except.isOk < maxDepth) :
    ((∃ value, (source.evaluate maxDepth).answer = .ok value) ↔
      ∃ (tokens : List Token) (e : Expr), (Lexer.ofSource source).listing = tokens.map .ok ∧
        Derives .expr (tokens.map Token.lexeme) e) ∧
    ∀ (tokens : List Token) (e : Expr), (Lexer.ofSource source).listing = tokens.map .ok →
      Derives .expr (tokens.map Token.lexeme) e →
        (source.evaluate maxDepth).answer = .ok e.value ∧
        ∀ e', Derives .expr (tokens.map Token.lexeme) e' → e' = e := by
  have hanswer : ∀ (tokens : List Token) (e : Expr),
      (Lexer.ofSource source).listing = tokens.map .ok →
      Derives .expr (tokens.map Token.lexeme) e →
        (source.evaluate maxDepth).answer = .ok e.value := by
    intro tokens e hlisting hderives
    refine answer_of_derives (Lexer.listing_ofSource_eq_map_ok_iff.mp hlisting) hderives ?_
    have hlevels := e.levels_le_length_lexemes
    rw [hderives.lexemes_eq, List.length_map] at hlevels
    rw [hlisting, List.countP_eq_length.mpr (by simp [Except.isOk, Except.toBool]),
      List.length_map] at h
    exact Nat.le_of_lt (Nat.lt_of_le_of_lt hlevels h)
  refine ⟨⟨?_, ?_⟩, fun tokens e hlisting hderives ↦
    ⟨hanswer tokens e hlisting hderives, fun e' h' ↦ hderives.unique h'⟩⟩
  · rintro ⟨value, hvalue⟩
    obtain ⟨tokens, e, hitems, hderives, -⟩ := derives_of_answer hvalue
    exact ⟨tokens, e, Lexer.listing_ofSource_eq_map_ok_iff.mpr hitems, hderives⟩
  · rintro ⟨tokens, e, hlisting, hderives⟩
    exact ⟨e.value, hanswer tokens e hlisting hderives⟩

/-- A sign binds tighter than a power, so this is the square of `-2`. -/
theorem evaluate_sign_power :
    (Lexer.ofSource ⟨none, "-2**2"⟩).listing.countP Except.isOk < defaultMaxDepth ∧
      (Source.evaluate ⟨none, "-2**2"⟩ defaultMaxDepth).answer
        = .ok ((-Numeral.value ['2']).pow (Numeral.value ['2'])) := by
  have hlisting : (Lexer.ofSource ⟨none, "-2**2"⟩).listing
      = [⟨.minus, 0⟩, ⟨.number ['2'], 1⟩, ⟨.doubleStar, 2⟩, ⟨.number ['2'], 4⟩].map .ok :=
    Lexer.listing_ofSource_eq_map_ok_iff.mpr (by decide +kernel)
  have hcount : (Lexer.ofSource ⟨none, "-2**2"⟩).listing.countP Except.isOk < defaultMaxDepth := by
    rw [hlisting]
    decide
  have hwell : Numeral.WellFormed ['2'] := by decide
  exact ⟨hcount, ((evaluate_iff_derives _ _ hcount).2 _ _ hlisting (.term (.factor
    (.power (.sign (s := .minus) (.number hwell)) (.unary (.number hwell)))))).1⟩

end Source

end Calculator
