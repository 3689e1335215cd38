import Calculator.Proofs.Reading.Limits
import Calculator.Proofs.Reading.Stack

/-!
# Checking in one pass

What is wrong with an input can be found without reading it as an expression. The checker goes over
the items from left to right and remembers two things: whether an operand begins next or is
complete, and which parentheses are open. It knows no precedence and calls nothing twice. Yet it
finds what the evaluator finds: the same problem in the same place, or none.

## What is forgotten

The checker is the machine with everything forgotten but the groups on the stack
(`Machine.State.outline`). Signs and operators on the stack make no difference to a problem, since
whatever ends an operand also ends the operands that it is part of, down to the innermost open group
or to the bottom. There the floor is the lowest, above which every operator goes on; so an operator
never comes further than that, and what does come there is a closing parenthesis, a numeral or the
end.

The one thing that the checker cannot see is the limit. A machine which stops there has taken an
item for every level, and this is excluded by a limit greater than the number of the items.
-/

namespace Calculator

namespace Checker

/-- Whether an operand begins next or is complete. -/
inductive Flag where
  | operand
  | operator
  deriving DecidableEq, Repr

/-- What the checker remembers. -/
structure State where
  /-- What comes next. -/
  flag : Flag
  /-- The parentheses that are open, the innermost first. -/
  opened : List Token
  deriving DecidableEq, Repr

/-- The beginning of an input. -/
def start : State := ⟨.operand, []⟩

/-- What the checker makes of an item. -/
inductive Verdict where
  | go (next : State)
  | accept
  | reject (problem : Problem)
  deriving DecidableEq, Repr

/-- What becomes of a token where an operand begins. -/
def operand (opened : List Token) (t : Token) : Verdict :=
  match t.lexeme with
  | .number literal =>
    if Numeral.WellFormed literal then .go ⟨.operator, opened⟩
    else .reject (.malformedNumber literal t.offset)
  | .plus | .minus => .go ⟨.operand, opened⟩
  | .leftParen => .go ⟨.operand, t :: opened⟩
  | .star | .slash | .doubleStar | .rightParen | .endOfInput => .reject (.unexpectedToken t)

/-- What becomes of a token after an operand. -/
def operator (opened : List Token) (t : Token) : Verdict :=
  match t.lexeme with
  | .plus | .minus | .star | .slash | .doubleStar => .go ⟨.operand, opened⟩
  | .leftParen => .reject (.unexpectedToken t)
  | .rightParen =>
    match opened with
    | _ :: opened => .go ⟨.operator, opened⟩
    | [] => .reject (.unexpectedToken t)
  | .number _ =>
    match opened with
    | opening :: _ => .reject (.missingClosingParen t opening)
    | [] => .reject (.unexpectedToken t)
  | .endOfInput =>
    match opened with
    | opening :: _ => .reject (.missingClosingParen t opening)
    | [] => .accept

/-- What becomes of an item. -/
def State.step (state : State) : Item → Verdict
  | .stray c offset => .reject (.unrecognizedCharacter c offset)
  | .token t =>
    match state.flag with
    | .operand => operand state.opened t
    | .operator => operator state.opened t

/-- The first problem among the items and the end of the input, which stands at `finish`. -/
def check (finish : Nat) : State → List Item → Option Problem
  | state, [] =>
    match state.step (.endAt finish) with
    | .go _ | .accept => none
    | .reject problem => some problem
  | state, item :: items =>
    match state.step item with
    | .go next => check finish next items
    | .accept => none
    | .reject problem => some problem

theorem operator_lexeme (opened : List Token) (op : Operator) (offset : Nat) :
    operator opened ⟨op.lexeme, offset⟩ = .go ⟨.operand, opened⟩ := by
  cases op <;> rfl

theorem operator_leftParen (opened : List Token) (offset : Nat) :
    operator opened ⟨.leftParen, offset⟩ = .reject (.unexpectedToken ⟨.leftParen, offset⟩) := rfl

theorem operand_number (opened : List Token) (literal : List Char) (offset : Nat) :
    operand opened ⟨.number literal, offset⟩ =
      if Numeral.WellFormed literal then .go ⟨.operator, opened⟩
      else .reject (.malformedNumber literal offset) := rfl

section

variable {finish : Nat} {state next : State}

theorem check_of_go {item : Item} (items : List Item) (h : state.step item = .go next) :
    check finish state (item :: items) = check finish next items := by
  rw [check, h]

theorem check_of_accept (items : List Item)
    (h : state.step (items.headD (.endAt finish)) = .accept) :
    check finish state items = none := by
  cases items with
  | nil =>
    rw [List.headD_nil] at h
    rw [check, h]
  | cons item items =>
    rw [List.headD_cons] at h
    rw [check, h]

theorem check_of_reject {problem : Problem} (items : List Item)
    (h : state.step (items.headD (.endAt finish)) = .reject problem) :
    check finish state items = some problem := by
  cases items with
  | nil =>
    rw [List.headD_nil] at h
    rw [check, h]
  | cons item items =>
    rw [List.headD_cons] at h
    rw [check, h]

end

end Checker

/-- The first problem of a source. -/
def Source.check (source : Source) : Option Problem :=
  Checker.check source.text.utf8ByteSize Checker.start source.items

/-! ## The machine in outline -/

/-- The parenthesis that a frame has open. -/
def Frame.opening? : Frame → Option Token
  | group opening _ => some opening
  | sign _ _ | rhs _ _ _ => none

namespace Machine

def Mode.flag : Mode → Checker.Flag
  | operand => .operand
  | operator _ => .operator

/-- What the checker remembers where the machine is in a state. -/
def State.outline (state : State) : Checker.State :=
  ⟨state.mode.flag, state.frames.filterMap Frame.opening?⟩

/-- `Agrees limit t verdict verdict'` says that the machine and the checker do the same about a
token, unless the machine is stopped by the limit. A tree that was read is all there is if the token
is the end of the input, and else the token is unexpected. -/
inductive Agrees (limit : Nat) (t : Token) : Verdict → Checker.Verdict → Prop
  | go {next : State} : Agrees limit t (.go next) (.go next.outline)
  | keep {problem : Problem} : Agrees limit t (.keep (.error problem)) (.reject problem)
  | take {problem : Problem} : Agrees limit t (.take (.error problem)) (.reject problem)
  | whole {e : Expr} (h : t.lexeme = .endOfInput) : Agrees limit t (.keep (.ok e)) .accept
  | more {e : Expr} (h : t.lexeme ≠ .endOfInput) :
      Agrees limit t (.keep (.ok e)) (.reject (.unexpectedToken t))
  | stopped {verdict : Checker.Verdict} :
      Agrees limit t (.keep (.error (.depthLimitExceeded limit t))) verdict

section

variable {limit : Nat} {words : List Lexeme} {floor : Precedence} {frames : List Frame} {t : Token}

theorem agrees_meet {e : Expr} {released : Reaction}
    (h : Reader.role floor t.lexeme = .ends →
      Agrees limit t released.verdict (Checker.operator (frames.filterMap Frame.opening?) t)) :
    Agrees limit t (meet t e floor frames released).verdict
      (Checker.operator (frames.filterMap Frame.opening?) t) := by
  rw [meet]
  cases hrole : Reader.role floor t.lexeme with
  | ends => exact h hrole
  | strays =>
    obtain ⟨lexeme, offset⟩ := t
    obtain rfl := Reader.eq_leftParen_of_role hrole
    rw [Checker.operator_leftParen]
    exact .keep
  | joins op =>
    obtain ⟨lexeme, offset⟩ := t
    obtain ⟨rfl, -⟩ := Reader.role_eq_joins_iff.mp hrole
    rw [Checker.operator_lexeme]
    exact .go

theorem agrees_settle (hstack : Stacked .lowest words floor frames) (t : Token) (e : Expr) :
    Agrees limit t (settle t e floor frames).verdict
      (Checker.operator (frames.filterMap Frame.opening?) t) := by
  induction hstack generalizing e with
  | bottom =>
    -- the floor is the lowest here, so no operator ends the operand
    refine agrees_meet fun hends ↦ ?_
    obtain ⟨lexeme, offset⟩ := t
    rcases Reader.eq_of_role_lowest_eq_ends hends with ⟨literal, rfl⟩ | rfl | rfl
    · exact .more (by simp)
    · exact .more (by simp)
    · exact .whole rfl
  | sign _ ih => exact agrees_meet fun _ ↦ ih _
  | group _ ih =>
    refine agrees_meet fun hends ↦ ?_
    obtain ⟨lexeme, offset⟩ := t
    rcases Reader.eq_of_role_lowest_eq_ends hends with ⟨literal, rfl⟩ | rfl | rfl
    · exact .take
    · exact .go
    · exact .take
  | rhs _ _ _ ih => exact agrees_meet fun _ ↦ ih _

theorem agrees_begin (t : Token) (floor : Precedence) (frames : List Frame) :
    Agrees limit t (begin t floor frames)
      (Checker.operand (frames.filterMap Frame.opening?) t) := by
  obtain ⟨lexeme, offset⟩ := t
  cases lexeme with
  | number literal =>
    rw [begin_number, Checker.operand_number]
    by_cases hwell : Numeral.WellFormed literal
    · rw [if_pos hwell, if_pos hwell]
      exact .go
    · rw [if_neg hwell, if_neg hwell]
      exact .take
  | plus | minus | leftParen => exact .go
  | _ => exact .take

/-- Every step does what the checker does in outline. -/
theorem agrees_step {state : State} (h : state.HasRead .lowest words) (limit : Nat) (t : Token) :
    Agrees limit t (state.step limit (.token t)).verdict (state.outline.step (.token t)) := by
  rcases h with @⟨_, floor, frames, hstack⟩ | ⟨hstack, he⟩
  · rw [step_operand]
    by_cases hlevel : frames.length < limit
    · rw [if_pos hlevel]
      exact agrees_begin t floor frames
    · rw [if_neg hlevel]
      exact .stopped
  · exact agrees_settle hstack t _

end

/-- What the machine comes to and what the checker finds are the same, unless the machine is stopped
by the limit. -/
def Finds (limit : Nat) : Except Problem Expr → Option Problem → Prop
  | .ok _, found => found = none
  | .error problem, found => (∃ t, problem = .depthLimitExceeded limit t) ∨ found = some problem

theorem finds_run {words : List Lexeme} {state : State} (hread : state.HasRead .lowest words)
    (limit finish : Nat) {items : List Item}
    (hitems : ∀ t, Item.token t ∈ items → t.lexeme ≠ .endOfInput) :
    Finds limit (run limit finish state items).whole
      (Checker.check finish state.outline items) := by
  refine run_induction (motive := fun state items result ↦ ∀ {words},
    state.HasRead .lowest words → (∀ t, Item.token t ∈ items → t.lexeme ≠ .endOfInput) →
      Finds limit result.whole (Checker.check finish state.outline items))
    items ?_ ?_ ?_ ?_ state hread hitems
  · intro state next log t items hstep ih words hread hitems
    have hagrees := agrees_step hread limit t
    have hnext := hasRead_step hread limit t
    rw [hstep] at hagrees hnext
    generalize hchecked : state.outline.step (.token t) = verdict at hagrees
    -- the machine goes on, and so does the checker
    cases hagrees
    rw [Result.whole_after, Checker.check_of_go items hchecked]
    exact ih hnext fun t ht ↦ hitems t (List.mem_cons_of_mem _ ht)
  · intro state answer log t items hfront hstep words hread hitems
    have hagrees := agrees_step hread limit t
    rw [hstep, ← hfront] at hagrees
    generalize hchecked : state.outline.step (items.headD (.endAt finish)) = verdict at hagrees
    cases hagrees with
    | keep => exact .inr (Checker.check_of_reject items hchecked)
    | stopped => exact .inl ⟨t, rfl⟩
    | whole hend =>
      -- a token that is listed is not the end, so there is none
      cases items with
      | nil => exact Checker.check_of_accept [] hchecked
      | cons item rest =>
        obtain rfl : item = .token t := hfront
        exact absurd hend (hitems t List.mem_cons_self)
    | more hend =>
      cases items with
      | nil =>
        cases hfront
        exact absurd rfl hend
      | cons item rest =>
        obtain rfl : item = .token t := hfront
        exact .inr (Checker.check_of_reject _ hchecked)
  · intro state answer log t items hfront hstep words hread hitems
    have hagrees := agrees_step hread limit t
    rw [hstep, ← hfront] at hagrees
    generalize hchecked : state.outline.step (items.headD (.endAt finish)) = verdict at hagrees
    cases hagrees
    exact .inr (Checker.check_of_reject items hchecked)
  · intro state c offset items words hread hitems
    exact .inr (Checker.check_of_reject _ rfl)

end Machine

namespace Source

theorem finds_check (source : Source) (maxDepth : Nat) :
    Machine.Finds maxDepth (source.reading maxDepth).whole source.check := by
  rw [check, ← source.finish_eq]
  exact Machine.finds_run (Machine.hasRead_start .lowest) maxDepth source.finish
    fun t ht ↦ Item.lexeme_ne_endOfInput_of_mem_listFrom ht

variable {source : Source} {maxDepth : Nat}

theorem check_of_answer {value : Float} (h : (source.evaluate maxDepth).answer = .ok value) :
    source.check = none := by
  obtain ⟨e, hwhole, -⟩ := answer_eq_ok_iff.mp h
  have hfinds := finds_check source maxDepth
  rwa [hwhole] at hfinds

/-- A diagnostic tells the first problem, unless it tells that the limit is reached. -/
theorem check_of_diagnostic {diagnostic : Diagnostic}
    (h : (source.evaluate maxDepth).answer = .error diagnostic) :
    (∃ t, diagnostic.problem = .depthLimitExceeded maxDepth t) ∨
      source.check = some diagnostic.problem := by
  have hfinds := finds_check source maxDepth
  rwa [(answer_eq_error_iff.mp h).2] at hfinds

theorem check_of_diagnostic_of_lt {diagnostic : Diagnostic}
    (h : (source.evaluate maxDepth).answer = .error diagnostic)
    (hlimit : source.items.length < maxDepth) : source.check = some diagnostic.problem := by
  rcases check_of_diagnostic h with ⟨t, hproblem⟩ | hfound
  · have hle := (le_length_items_of_answer h hproblem).2
    exact absurd hlimit (Nat.not_lt_of_le hle)
  · exact hfound

theorem exists_answer_of_check (h : source.check = none) (hlimit : source.items.length < maxDepth) :
    ∃ value, (source.evaluate maxDepth).answer = .ok value := by
  cases hanswer : (source.evaluate maxDepth).answer with
  | ok value => exact ⟨value, rfl⟩
  | error diagnostic =>
    rw [check_of_diagnostic_of_lt hanswer hlimit] at h
    cases h

theorem answer_of_check {problem : Problem} (h : source.check = some problem)
    (hlimit : source.items.length < maxDepth) :
    (source.evaluate maxDepth).answer = .error ⟨source, problem⟩ := by
  cases hanswer : (source.evaluate maxDepth).answer with
  | ok value =>
    rw [check_of_answer hanswer] at h
    cases h
  | error diagnostic =>
    obtain ⟨place, found⟩ := diagnostic
    obtain rfl : place = source := (answer_eq_error_iff.mp hanswer).1
    rw [check_of_diagnostic_of_lt hanswer hlimit] at h
    cases h
    rfl

/-- **Exact problems.** Below a limit greater than the number of the items, an evaluation comes to a
value just if the checker finds no problem, and to a diagnostic just if this tells the one problem
that the checker finds. -/
theorem evaluate_eq_check (source : Source) (maxDepth : Nat)
    (h : (Lexer.ofSource source).listing.length < maxDepth) :
    (Lexer.ofSource source).listing = source.items.map (Item.result source) ∧
    ((∃ value, (source.evaluate maxDepth).answer = .ok value) ↔ source.check = none) ∧
    ∀ diagnostic, (source.evaluate maxDepth).answer = .error diagnostic ↔
      diagnostic.source = source ∧ source.check = some diagnostic.problem := by
  have hlisting := Lexer.listing_ofSource source
  rw [hlisting, List.length_map] at h
  refine ⟨hlisting, ⟨?_, fun hnone ↦ exists_answer_of_check hnone h⟩, fun diagnostic ↦ ⟨?_, ?_⟩⟩
  · rintro ⟨value, hvalue⟩
    exact check_of_answer hvalue
  · intro hanswer
    exact ⟨(answer_eq_error_iff.mp hanswer).1, check_of_diagnostic_of_lt hanswer h⟩
  · rintro ⟨rfl, hfound⟩
    exact answer_of_check hfound h

/-- A numeral that follows an operand is reported as a group which is not closed there. -/
theorem evaluate_unclosed_group :
    (Lexer.ofSource ⟨none, "-(1 2"⟩).listing.length < defaultMaxDepth ∧
      (Source.evaluate ⟨none, "-(1 2"⟩ defaultMaxDepth).answer
        = .error ⟨⟨none, "-(1 2"⟩,
            .missingClosingParen ⟨.number ['2'], 4⟩ ⟨.leftParen, 1⟩⟩ := by
  have hlength : (Lexer.ofSource ⟨none, "-(1 2"⟩).listing.length < defaultMaxDepth := by
    rw [Lexer.listing_ofSource, List.length_map]
    decide +kernel
  have hcheck : Source.check ⟨none, "-(1 2"⟩
      = some (.missingClosingParen ⟨.number ['2'], 4⟩ ⟨.leftParen, 1⟩) := by decide +kernel
  exact ⟨hlength, ((evaluate_eq_check _ _ hlength).2.2 _).mpr ⟨rfl, hcheck⟩⟩

end Source

end Calculator
