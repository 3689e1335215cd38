import Calculator.Evaluator
import Calculator.Grammar
import Calculator.Proofs.Lexing.Items

/-!
# Reading with a stack

The evaluator calls itself for every operand, and what it still has to do with an operand is known
to its callers alone. Here the same reading is done by a machine that keeps this on a stack, builds
a tree in place of a value, and takes the items one after another: each step looks at one item and
at the state, and no step ever calls another reading. Whatever is to be said about all inputs can
then be said of one step first and of a run by induction on the items.

## The stack

A frame of the stack is something that waits for an operand: a sign, a group or an operator with the
tree of its left operand. With it goes the floor down to which the whole of it is an operand again.
There are as many levels in use as there are frames.

When an operand is complete, the next token decides. If it binds tighter than the floor it goes on
with the operand, else the operand is handed to the topmost frame, and the same token is looked at
again with what comes of it (`settle`). All that this may come to is said in `Settled`, so that the
frames need to be followed once more only where the tree or the log matters.

## The end of the input

The end of the input is a token like the others, and the last that the machine looks at: no step
takes it in order to go on (`step_endAt_ne_go`). So a run is a recursion on the items, and what
every reaction brings about holds of every run (`run_induction`).
-/

namespace Calculator

/-- What waits for an operand. -/
inductive Frame where
  /-- A sign. -/
  | sign (s : Sign) (floor : Precedence)
  /-- A group, with the parenthesis that opened it. -/
  | group (opening : Token) (floor : Precedence)
  /-- An operator and its left operand. -/
  | rhs (op : Operator) (lhs : Expr) (floor : Precedence)
  deriving DecidableEq, Repr

namespace Machine

/-- Whether an operand begins next or is complete. -/
inductive Mode where
  | operand
  | operator (e : Expr)
  deriving DecidableEq, Repr

/-- A state of the machine. -/
structure State where
  /-- What comes next. -/
  mode : Mode
  /-- The floor down to which is being read. -/
  floor : Precedence
  /-- What waits, the latest first. -/
  frames : List Frame
  deriving DecidableEq, Repr

/-- The state in which an expression begins. -/
def start (floor : Precedence) : State := ⟨.operand, floor, []⟩

/-- What the machine does about an item. -/
inductive Verdict where
  /-- It takes the item and goes on. -/
  | go (next : State)
  /-- It has come to an answer and leaves the item. -/
  | keep (answer : Except Problem Expr)
  /-- It has come to an answer with the item. -/
  | take (answer : Except Problem Expr)

/-- What the machine does about an item, and the records that it makes. -/
structure Reaction where
  verdict : Verdict
  log : List Record

/-- A reaction with some records before its own. -/
def Reaction.after (reaction : Reaction) (log : List Record) : Reaction :=
  { reaction with log := log ++ reaction.log }

/-- The reaction to the token after an operand, where `released` is the reaction if the operand ends
before it. -/
def meet (t : Token) (e : Expr) (floor : Precedence) (frames : List Frame) (released : Reaction) :
    Reaction :=
  match Reader.role floor t.lexeme with
  | .joins op => ⟨.go ⟨.operand, op.rightFloor, .rhs op e floor :: frames⟩, []⟩
  | .strays => ⟨.keep (.error (.unexpectedToken t)), []⟩
  | .ends => released

/-- The reaction to the token after an operand that ends before it: the operand is handed to the
topmost frame, and if it is part of a longer operand then that one meets the token. -/
def release (t : Token) : Expr → List Frame → Reaction
  | e, [] => ⟨.keep (.ok e), []⟩
  | e, .sign s outer :: frames =>
    meet t (.sign s e) outer frames (release t (.sign s e) frames)
  | e, .group opening outer :: frames =>
    if t.lexeme = .rightParen then ⟨.go ⟨.operator (.group e), outer, frames⟩, []⟩
    else ⟨.take (.error (.missingClosingParen t opening)), []⟩
  | e, .rhs op lhs outer :: frames =>
    (meet t (.binary op lhs e) outer frames (release t (.binary op lhs e) frames)).after
      [.combined op lhs.value e.value]

/-- The reaction to the token after an operand. -/
def settle (t : Token) (e : Expr) (floor : Precedence) (frames : List Frame) : Reaction :=
  meet t e floor frames (release t e frames)

/-- What the machine does about the token with which an operand begins. -/
def begin (t : Token) (floor : Precedence) (frames : List Frame) : Verdict :=
  match t.lexeme with
  | .number literal =>
    if Numeral.WellFormed literal then .go ⟨.operator (.number literal), floor, frames⟩
    else .take (.error (.malformedNumber literal t.offset))
  | .plus => .go ⟨.operand, signFloor, .sign .plus floor :: frames⟩
  | .minus => .go ⟨.operand, signFloor, .sign .minus floor :: frames⟩
  | .leftParen => .go ⟨.operand, .lowest, .group t floor :: frames⟩
  | _ => .take (.error (.unexpectedToken t))

/-- The reaction to an item. An operand begins only where the limit leaves a level for it. -/
def State.step (limit : Nat) (state : State) : Item → Reaction
  | .stray c offset => ⟨.take (.error (.unrecognizedCharacter c offset)), []⟩
  | .token t =>
    match state.mode with
    | .operand =>
      if state.frames.length < limit then
        ⟨begin t state.floor state.frames, [.operand t.lexeme]⟩
      else ⟨.keep (.error (.depthLimitExceeded limit t)), []⟩
    | .operator e => settle t e state.floor state.frames

/-- What a run comes to. -/
structure Result where
  /-- The tree that was read, or what was wrong. -/
  answer : Except Problem Expr
  /-- The items that were not taken. -/
  rest : List Item
  /-- Whether the first of them was looked at. -/
  held : Bool
  /-- The records that were made. -/
  log : List Record

/-- A result with some records before its own. -/
def Result.after (result : Result) (log : List Record) : Result :=
  { result with log := log ++ result.log }

@[simp] theorem Result.after_after (result : Result) (log log' : List Record) :
    (result.after log').after log = result.after (log ++ log') := by
  simp only [after, List.append_assoc]

/-- The answer if nothing may be left. -/
def Result.whole (result : Result) : Except Problem Expr :=
  match result.answer, result.rest with
  | .ok _, .token t :: _ => .error (.unexpectedToken t)
  | answer, _ => answer

theorem Result.whole_eq_ok_iff {result : Result} {e : Expr} :
    result.whole = .ok e ↔ result.answer = .ok e ∧ ∀ t rest, result.rest ≠ .token t :: rest := by
  obtain ⟨answer, rest, held, log⟩ := result
  unfold whole
  dsimp only
  split
  · simp
  · next hrest =>
    refine ⟨fun h ↦ ⟨h, ?_⟩, fun h ↦ h.1⟩
    rintro t rest rfl
    exact hrest _ t rest h rfl

/-- What is wrong with the whole is wrong with the reading, unless it is a token too many. -/
theorem Result.answer_of_whole_eq_error {result : Result} {problem : Problem}
    (h : result.whole = .error problem) :
    result.answer = .error problem ∨
      ∃ t rest, result.rest = .token t :: rest ∧ problem = .unexpectedToken t := by
  unfold whole at h
  split at h
  · next t rest _ hrest =>
    cases h
    exact .inr ⟨t, rest, hrest, rfl⟩
  · exact .inl h

theorem Result.whole_of_answer_eq_error {result : Result} {problem : Problem}
    (h : result.answer = .error problem) : result.whole = .error problem := by
  rw [whole, h]

@[simp] theorem Result.whole_after (result : Result) (log : List Record) :
    (result.after log).whole = result.whole := rfl

/-- A run of the machine on all items up to the end of the input, which stands at `finish`. -/
def run (limit finish : Nat) : State → List Item → Result
  | state, [] =>
    let reaction := state.step limit (.endAt finish)
    match reaction.verdict with
    -- no reaction to the end goes on
    | .go _ => ⟨.error (.unexpectedToken ⟨.endOfInput, finish⟩), [], false, reaction.log⟩
    | .keep answer => ⟨answer, [], true, reaction.log⟩
    | .take answer => ⟨answer, [], false, reaction.log⟩
  | state, item :: items =>
    let reaction := state.step limit item
    match reaction.verdict with
    | .go next => (run limit finish next items).after (item.lexed ++ reaction.log)
    | .keep answer => ⟨answer, item :: items, true, item.lexed ++ reaction.log⟩
    | .take answer => ⟨answer, items, false, item.lexed ++ reaction.log⟩

/-- What a run comes to after the reaction to the first of the items. -/
def resume (limit finish : Nat) (items : List Item) (reaction : Reaction) : Result :=
  match reaction.verdict with
  | .go next => (run limit finish next items.tail).after reaction.log
  | .keep answer => ⟨answer, items, true, reaction.log⟩
  | .take answer => ⟨answer, items.tail, false, reaction.log⟩

@[simp] theorem resume_go (limit finish : Nat) (items : List Item) (next : State)
    (log : List Record) :
    resume limit finish items ⟨.go next, log⟩ = (run limit finish next items.tail).after log := rfl

@[simp] theorem resume_keep (limit finish : Nat) (items : List Item)
    (answer : Except Problem Expr) (log : List Record) :
    resume limit finish items ⟨.keep answer, log⟩ = ⟨answer, items, true, log⟩ := rfl

@[simp] theorem resume_take (limit finish : Nat) (items : List Item)
    (answer : Except Problem Expr) (log : List Record) :
    resume limit finish items ⟨.take answer, log⟩ = ⟨answer, items.tail, false, log⟩ := rfl

theorem resume_after (limit finish : Nat) (items : List Item) (reaction : Reaction)
    (log : List Record) :
    resume limit finish items (reaction.after log)
      = (resume limit finish items reaction).after log := by
  obtain ⟨_ | _ | _, records⟩ := reaction
  · exact (Result.after_after _ _ _).symm
  · rfl
  · rfl

/-! ## Single reactions -/

theorem settle_of_joins {t : Token} {floor : Precedence} {op : Operator}
    (h : Reader.role floor t.lexeme = .joins op) (e : Expr) (frames : List Frame) :
    settle t e floor frames
      = ⟨.go ⟨.operand, op.rightFloor, .rhs op e floor :: frames⟩, []⟩ := by
  rw [settle, meet, h]

theorem settle_of_strays {t : Token} {floor : Precedence}
    (h : Reader.role floor t.lexeme = .strays) (e : Expr) (frames : List Frame) :
    settle t e floor frames = ⟨.keep (.error (.unexpectedToken t)), []⟩ := by
  rw [settle, meet, h]

theorem settle_of_ends {t : Token} {floor : Precedence}
    (h : Reader.role floor t.lexeme = .ends) (e : Expr) (frames : List Frame) :
    settle t e floor frames = release t e frames := by
  rw [settle, meet, h]

@[simp] theorem release_nil (t : Token) (e : Expr) : release t e [] = ⟨.keep (.ok e), []⟩ := rfl

@[simp] theorem release_sign (t : Token) (e : Expr) (s : Sign) (outer : Precedence)
    (frames : List Frame) :
    release t e (.sign s outer :: frames) = settle t (.sign s e) outer frames := rfl

theorem release_group (t : Token) (e : Expr) (opening : Token) (outer : Precedence)
    (frames : List Frame) :
    release t e (.group opening outer :: frames) =
      if t.lexeme = .rightParen then ⟨.go ⟨.operator (.group e), outer, frames⟩, []⟩
      else ⟨.take (.error (.missingClosingParen t opening)), []⟩ := rfl

@[simp] theorem release_rhs (t : Token) (e : Expr) (op : Operator) (lhs : Expr)
    (outer : Precedence) (frames : List Frame) :
    release t e (.rhs op lhs outer :: frames) =
      (settle t (.binary op lhs e) outer frames).after [.combined op lhs.value e.value] := rfl

theorem begin_number (literal : List Char) (offset : Nat) (floor : Precedence)
    (frames : List Frame) :
    begin ⟨.number literal, offset⟩ floor frames =
      if Numeral.WellFormed literal then .go ⟨.operator (.number literal), floor, frames⟩
      else .take (.error (.malformedNumber literal offset)) := rfl

theorem begin_sign (s : Sign) (offset : Nat) (floor : Precedence) (frames : List Frame) :
    begin ⟨s.lexeme, offset⟩ floor frames
      = .go ⟨.operand, signFloor, .sign s floor :: frames⟩ := by
  cases s <;> rfl

theorem step_stray (limit : Nat) (state : State) (c : Char) (offset : Nat) :
    state.step limit (.stray c offset) = ⟨.take (.error (.unrecognizedCharacter c offset)), []⟩ :=
  rfl

theorem step_operand (limit : Nat) (floor : Precedence) (frames : List Frame) (t : Token) :
    State.step limit ⟨.operand, floor, frames⟩ (.token t) =
      if frames.length < limit then ⟨begin t floor frames, [.operand t.lexeme]⟩
      else ⟨.keep (.error (.depthLimitExceeded limit t)), []⟩ := rfl

theorem step_operator (limit : Nat) (e : Expr) (floor : Precedence) (frames : List Frame)
    (t : Token) :
    State.step limit ⟨.operator e, floor, frames⟩ (.token t) = settle t e floor frames := rfl

/-! ## What becomes of an operand -/

/-- `Settled t frames verdict` says what the token after an operand may bring about. Some of the
frames end with the operand, and either none is left or the topmost of the others goes on. -/
inductive Settled (t : Token) (frames : List Frame) : Verdict → Prop
  | ends (e : Expr) : Settled t frames (.keep (.ok e))
  | strays : Settled t frames (.keep (.error (.unexpectedToken t)))
  | joins {op : Operator} {floor : Precedence} {below : List Frame} (lhs : Expr)
      (hrole : Reader.role floor t.lexeme = .joins op) (hbelow : below <:+ frames) :
      Settled t frames (.go ⟨.operand, op.rightFloor, .rhs op lhs floor :: below⟩)
  | closes {opening : Token} {floor : Precedence} {below : List Frame} (content : Expr)
      (ht : t.lexeme = .rightParen) (hbelow : .group opening floor :: below <:+ frames) :
      Settled t frames (.go ⟨.operator (.group content), floor, below⟩)
  | unclosed {opening : Token} {floor : Precedence} (ht : t.lexeme ≠ .rightParen)
      (hmem : .group opening floor ∈ frames) :
      Settled t frames (.take (.error (.missingClosingParen t opening)))

theorem Settled.mono {t : Token} {frames more : List Frame} {verdict : Verdict}
    (h : Settled t frames verdict) (hle : frames <:+ more) : Settled t more verdict := by
  cases h with
  | ends e => exact .ends e
  | strays => exact .strays
  | joins lhs hrole hbelow => exact .joins lhs hrole (hbelow.trans hle)
  | closes content ht hbelow => exact .closes content ht (hbelow.trans hle)
  | unclosed ht hmem => exact .unclosed ht (hle.subset hmem)

theorem settled_meet {t : Token} {frames : List Frame} {released : Reaction}
    (h : Settled t frames released.verdict) (e : Expr) (floor : Precedence) :
    Settled t frames (meet t e floor frames released).verdict := by
  rw [meet]
  cases hrole : Reader.role floor t.lexeme with
  | ends => exact h
  | strays => exact .strays
  | joins op => exact .joins e hrole List.suffix_rfl

theorem settled_release (t : Token) (e : Expr) (frames : List Frame) :
    Settled t frames (release t e frames).verdict := by
  induction frames generalizing e with
  | nil => exact .ends e
  | cons frame frames ih =>
    have hle : frames <:+ frame :: frames := List.suffix_cons frame frames
    rcases frame with ⟨s, outer⟩ | ⟨opening, outer⟩ | ⟨op, lhs, outer⟩
    · exact (settled_meet (ih (.sign s e)) _ outer).mono hle
    · rw [release_group]
      by_cases ht : t.lexeme = .rightParen
      · rw [if_pos ht]
        exact .closes e ht List.suffix_rfl
      · rw [if_neg ht]
        exact .unclosed ht List.mem_cons_self
    · exact (settled_meet (ih (.binary op lhs e)) _ outer).mono hle

theorem settled (t : Token) (e : Expr) (floor : Precedence) (frames : List Frame) :
    Settled t frames (settle t e floor frames).verdict :=
  settled_meet (settled_release t e frames) e floor

/-- The end of the input is never taken in order to go on. -/
theorem settle_endOfInput_ne_go {t : Token} (ht : t.lexeme = .endOfInput) (e : Expr)
    (floor : Precedence) (frames : List Frame) (next : State) :
    (settle t e floor frames).verdict ≠ .go next := by
  intro h
  have hsettled := settled t e floor frames
  rw [h] at hsettled
  cases hsettled with
  | joins lhs hrole hbelow =>
    rw [ht] at hrole
    cases hrole
  | closes content hclose hbelow => cases ht.symm.trans hclose

theorem step_endAt_ne_go (limit finish : Nat) (state next : State) :
    (state.step limit (.endAt finish)).verdict ≠ .go next := by
  rw [Item.endAt, State.step]
  split
  · split
    · simp [begin]
    · simp
  · exact settle_endOfInput_ne_go rfl _ _ _ _

/-- A run is the reaction to the next item and what comes of it. -/
theorem run_eq (limit finish : Nat) (state : State) (items : List Item) :
    run limit finish state items
      = (resume limit finish items (state.step limit (items.headD (.endAt finish)))).after
          (items.headD (.endAt finish)).lexed := by
  cases items with
  | nil =>
    rw [run, List.headD_nil, resume]
    have hne := step_endAt_ne_go limit finish state
    split
    · next h => exact absurd h (hne _)
    · rfl
    · rfl
  | cons item items =>
    rw [run, List.headD_cons, resume]
    split
    · rw [Result.after_after, List.tail_cons]
    · rfl
    · rfl

/-! ## Runs -/

section

variable {limit finish : Nat} {state next : State} {log : List Record} (items : List Item)

theorem run_of_go (h : state.step limit (items.headD (.endAt finish)) = ⟨.go next, log⟩) :
    run limit finish state items
      = (run limit finish next items.tail).after ((items.headD (.endAt finish)).lexed ++ log) := by
  rw [run_eq, h, resume_go, Result.after_after]

theorem run_of_keep {answer : Except Problem Expr}
    (h : state.step limit (items.headD (.endAt finish)) = ⟨.keep answer, log⟩) :
    run limit finish state items
      = ⟨answer, items, true, (items.headD (.endAt finish)).lexed ++ log⟩ := by
  rw [run_eq, h]
  rfl

theorem run_of_take {answer : Except Problem Expr}
    (h : state.step limit (items.headD (.endAt finish)) = ⟨.take answer, log⟩) :
    run limit finish state items
      = ⟨answer, items.tail, false, (items.headD (.endAt finish)).lexed ++ log⟩ := by
  rw [run_eq, h]
  rfl

/-- What every reaction brings about holds of every run. -/
theorem run_induction {motive : State → List Item → Result → Prop}
    (go : ∀ {state next : State} {log : List Record} (t : Token) (items : List Item),
      state.step limit (.token t) = ⟨.go next, log⟩ →
      motive next items (run limit finish next items) →
      motive state (.token t :: items)
        ((run limit finish next items).after ((Item.token t).lexed ++ log)))
    (keep : ∀ {state : State} {answer : Except Problem Expr} {log : List Record} (t : Token)
      (items : List Item), items.headD (.endAt finish) = .token t →
      state.step limit (.token t) = ⟨.keep answer, log⟩ →
      motive state items ⟨answer, items, true, (Item.token t).lexed ++ log⟩)
    (take : ∀ {state : State} {answer : Except Problem Expr} {log : List Record} (t : Token)
      (items : List Item), items.headD (.endAt finish) = .token t →
      state.step limit (.token t) = ⟨.take answer, log⟩ →
      motive state items ⟨answer, items.tail, false, (Item.token t).lexed ++ log⟩)
    (stray : ∀ {state : State} (c : Char) (offset : Nat) (items : List Item),
      motive state (.stray c offset :: items)
        ⟨.error (.unrecognizedCharacter c offset), items, false, []⟩)
    (state : State) : motive state items (run limit finish state items) := by
  induction items generalizing state with
  | nil =>
    rcases h : state.step limit (.endAt finish) with ⟨next | answer | answer, log⟩
    · exact absurd (congrArg Reaction.verdict h) (step_endAt_ne_go _ _ _ _)
    · exact run_of_keep [] h ▸ keep ⟨.endOfInput, finish⟩ [] rfl h
    · exact run_of_take [] h ▸ take ⟨.endOfInput, finish⟩ [] rfl h
  | cons item items ih =>
    rcases item with t | ⟨c, offset⟩
    · rcases h : state.step limit (.token t) with ⟨next | answer | answer, log⟩
      · exact run_of_go (.token t :: items) h ▸ go t items h (ih next)
      · exact run_of_keep (.token t :: items) h ▸ keep t (.token t :: items) rfl h
      · exact run_of_take (.token t :: items) h ▸ take t (.token t :: items) rfl h
    · exact run_of_take (.stray c offset :: items) (step_stray limit state c offset)
        ▸ stray c offset items

end

theorem run_rest_suffix (limit finish : Nat) (state : State) (items : List Item) :
    (run limit finish state items).rest <:+ items := by
  refine run_induction (motive := fun _ items result ↦ result.rest <:+ items)
    items ?_ ?_ ?_ ?_ state
  · intro state next log t items hstep ih
    exact ih.trans (List.suffix_cons _ _)
  · intro state answer log t items hfront hstep
    exact List.suffix_rfl
  · intro state answer log t items hfront hstep
    exact List.tail_suffix items
  · intro state c offset items
    exact List.suffix_cons _ _

end Machine

end Calculator
