import Calculator.Proofs.Reading.Machine
import Calculator.Proofs.Reading.Precedences

/-!
# What a stack has read

The words that the machine has taken so far can be read off its state: each frame stands for the
words before the operand that it waits for. `State.HasRead` says which words these are and that
whatever is complete among them is derived by the grammar. It holds at the beginning and is kept by
every step, so that a tree to which a run comes is derived from the words that the run took
(`run_sound`).

## Why the next token is needed

What is derived has to fit where it goes. A term may stand left of a product and an expression may
not, and only the next token tells which of the two is asked for. The precedences settle it: where a
token ends an operand down to a floor, an operator that leaves the floor to its right makes a phrase
which fits to the left of that token (`Operator.phrase_le_leftPhrase`). A token that is looked at
stays the same for as long as operands are handed down the stack, and this is what carries the
induction on the frames.
-/

namespace Calculator

namespace Machine

/-! ## The invariant -/

/-- `Stacked root words floor frames` says that the frames stand for the words, that the operand
they wait for is read down to `floor`, and that at the bottom it is `root`. -/
inductive Stacked (root : Precedence) : List Lexeme → Precedence → List Frame → Prop
  | bottom : Stacked root [] root []
  | sign {words : List Lexeme} {outer : Precedence} {frames : List Frame} {s : Sign}
      (h : Stacked root words outer frames) :
      Stacked root (words ++ [s.lexeme]) signFloor (.sign s outer :: frames)
  | group {words : List Lexeme} {outer : Precedence} {frames : List Frame} {opening : Token}
      (h : Stacked root words outer frames) :
      Stacked root (words ++ [.leftParen]) .lowest (.group opening outer :: frames)
  | rhs {words left : List Lexeme} {outer : Precedence} {frames : List Frame} {op : Operator}
      {lhs : Expr} (h : Stacked root words outer frames) (hlt : outer < op.precedence)
      (hl : Derives op.leftPhrase left lhs) :
      Stacked root (words ++ (left ++ [op.lexeme])) op.rightFloor (.rhs op lhs outer :: frames)

/-- `state.HasRead root words` says that the words were taken on the way to the state. -/
inductive State.HasRead (root : Precedence) : List Lexeme → State → Prop
  | operand {words : List Lexeme} {floor : Precedence} {frames : List Frame}
      (h : Stacked root words floor frames) : HasRead root words ⟨.operand, floor, frames⟩
  | operator {words last : List Lexeme} {floor : Precedence} {frames : List Frame} {e : Expr}
      (h : Stacked root words floor frames) (he : Derives .unary last e) :
      HasRead root (words ++ last) ⟨.operator e, floor, frames⟩

theorem hasRead_start (root : Precedence) : (start root).HasRead root [] := .operand .bottom

/-- What has been read once a reaction to a lexeme is done: with the lexeme, if the machine goes on,
and a phrase without it, if it has come to a tree. -/
def Verdict.HasRead (root : Precedence) (words : List Lexeme) (lexeme : Lexeme) : Verdict → Prop
  | .go next => next.HasRead root (words ++ [lexeme])
  | .keep (.ok e) => Derives root.phrase words e ∧ Reader.role root lexeme = .ends
  | .take (.ok _) => False
  | .keep (.error _) | .take (.error _) => True

/-! ## Steps -/

section

variable {root floor : Precedence} {words last : List Lexeme} {frames : List Frame}
  {phrase : Phrase} {t : Token} {e : Expr}

theorem hasRead_meet (hstack : Stacked root words floor frames) (he : Derives phrase last e)
    (hleft : ∀ op : Operator, t.lexeme = op.lexeme → floor < op.precedence → phrase ≤ op.leftPhrase)
    {released : Reaction}
    (hreleased : Reader.role floor t.lexeme = .ends →
      released.verdict.HasRead root (words ++ last) t.lexeme) :
    (meet t e floor frames released).verdict.HasRead root (words ++ last) t.lexeme := by
  rw [meet]
  cases hrole : Reader.role floor t.lexeme with
  | ends => exact hreleased hrole
  | strays => trivial
  | joins op =>
    obtain ⟨hop, hlt⟩ := Reader.role_eq_joins_iff.mp hrole
    have hjoined := State.HasRead.operand (hstack.rhs hlt (he.mono (hleft op hop hlt)))
    rw [← List.append_assoc, ← hop] at hjoined
    exact hjoined

/-- What the token after an operand does to a stack, if the operand fits on the stack and to the
left of that token. -/
theorem hasRead_settle (hstack : Stacked root words floor frames) (he : Derives phrase last e)
    (hfloor : phrase ≤ floor.phrase)
    (hleft : ∀ op : Operator,
      t.lexeme = op.lexeme → floor < op.precedence → phrase ≤ op.leftPhrase) :
    (settle t e floor frames).verdict.HasRead root (words ++ last) t.lexeme := by
  -- on the stack, since whatever is handed down meets the same token again
  induction hstack generalizing phrase last e with
  | bottom => exact hasRead_meet .bottom he hleft fun hends ↦ ⟨he.mono hfloor, hends⟩
  | @sign words outer frames s h ih =>
    refine hasRead_meet h.sign he hleft fun _ ↦ ?_
    rw [release_sign, List.append_assoc]
    exact ih (.sign (he.mono hfloor)) (Phrase.unary_le _) fun op _ _ ↦ Phrase.unary_le _
  | @group words outer frames opening h ih =>
    refine hasRead_meet h.group he hleft fun _ ↦ ?_
    rw [release_group]
    by_cases hclose : t.lexeme = .rightParen
    · rw [if_pos hclose, hclose]
      have hgroup := State.HasRead.operator h (.group (he.mono hfloor))
      simpa only [Verdict.HasRead, List.append_assoc, List.cons_append, List.nil_append]
        using hgroup
    · rw [if_neg hclose]
      trivial
  | @rhs words left outer frames op lhs h hlt hl ih =>
    refine hasRead_meet (h.rhs hlt hl) he hleft fun hends ↦ ?_
    rw [release_rhs, List.append_assoc, List.append_assoc]
    refine ih (.binary hl (he.mono hfloor)) (Operator.phrase_le_iff.mpr hlt) fun next hnext _ ↦ ?_
    rw [hnext] at hends
    exact Operator.phrase_le_leftPhrase (Reader.role_lexeme_eq_ends_iff.mp hends)

theorem hasRead_begin (hstack : Stacked root words floor frames) (t : Token) :
    (begin t floor frames).HasRead root words t.lexeme := by
  obtain ⟨lexeme, offset⟩ := t
  cases lexeme with
  | number literal =>
    rw [begin_number]
    by_cases hwell : Numeral.WellFormed literal
    · rw [if_pos hwell]
      exact .operator hstack (.number hwell)
    · rw [if_neg hwell]
      trivial
  | plus => exact .operand (hstack.sign (s := .plus))
  | minus => exact .operand (hstack.sign (s := .minus))
  | leftParen => exact .operand hstack.group
  | _ => trivial

end

theorem hasRead_step {root : Precedence} {words : List Lexeme} {state : State}
    (h : state.HasRead root words) (limit : Nat) (t : Token) :
    (state.step limit (.token t)).verdict.HasRead root words t.lexeme := by
  rcases h with ⟨hstack⟩ | ⟨hstack, he⟩
  · rw [step_operand]
    split
    · exact hasRead_begin hstack t
    · trivial
  · rw [step_operator]
    exact hasRead_settle hstack he (Phrase.unary_le _) fun op _ _ ↦ Phrase.unary_le _

/-! ## Runs -/

/-- **Trees are derived.** A run that comes to a tree has taken tokens only, they derive the tree as
the phrase of the root, and the token after them ends it there. -/
theorem run_sound {root : Precedence} {words : List Lexeme} {state : State}
    (hread : state.HasRead root words) (limit finish : Nat) (items : List Item) {e : Expr}
    (hanswer : (run limit finish state items).answer = .ok e) :
    ∃ (taken : List Token) (t : Token),
      items = taken.map Item.token ++ (run limit finish state items).rest ∧
      (run limit finish state items).rest.headD (.endAt finish) = .token t ∧
      Derives root.phrase (words ++ taken.map Token.lexeme) e ∧
      Reader.role root t.lexeme = .ends := by
  refine run_induction (motive := fun state items result ↦ ∀ {words}, state.HasRead root words →
    result.answer = .ok e → ∃ (taken : List Token) (t : Token),
      items = taken.map Item.token ++ result.rest ∧ result.rest.headD (.endAt finish) = .token t ∧
      Derives root.phrase (words ++ taken.map Token.lexeme) e ∧
      Reader.role root t.lexeme = .ends) items ?_ ?_ ?_ ?_ state hread hanswer
  · intro state next log t items hstep ih words hread hanswer
    have hnext := hasRead_step hread limit t
    rw [hstep] at hnext
    obtain ⟨taken, t', hitems, hfront, hderives, hends⟩ := ih hnext hanswer
    refine ⟨t :: taken, t', congrArg _ hitems, hfront, ?_, hends⟩
    rwa [List.append_assoc] at hderives
  · rintro state answer log t items hfront hstep words hread ⟨rfl⟩
    have hlast := hasRead_step hread limit t
    rw [hstep] at hlast
    exact ⟨[], t, rfl, hfront, by simpa using hlast.1, hlast.2⟩
  · rintro state answer log t items hfront hstep words hread ⟨rfl⟩
    have hlast := hasRead_step hread limit t
    rw [hstep] at hlast
    exact hlast.elim
  · rintro state c offset items words hread ⟨⟩

end Machine

end Calculator
