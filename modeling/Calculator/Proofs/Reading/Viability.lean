import Calculator.Proofs.Lexing.Kinds
import Calculator.Proofs.Reading.Checker

/-!
# The first problem

A diagnostic points at the first item that rules the input out: what stands before it can be
continued to an expression, and nothing that begins with the items up to it and with it is one.

## What decides it

The checker decides whether there is a problem, and for this it need not know where the items stand,
nor which parentheses are open but only how many. So all that matters is a *shape*, which an item
turns into another or has no place in. The end of the input is counted among the items here; it has
a place where everything is complete.

An item without a place in the shape before it has none in any input that begins alike. On the other
hand there is a way to the end from every shape: a numeral if an operand is due, and then the
closing parentheses that are missing (`Shape.completion`).
-/

namespace Calculator

namespace Checker

/-- What there is to know of a state. -/
structure Shape where
  /-- What comes next. -/
  flag : Flag
  /-- How many parentheses are open. -/
  height : Nat
  deriving DecidableEq, Repr

def State.shape (state : State) : Shape := ⟨state.flag, state.opened.length⟩

namespace Shape

/-- The shape after a kind of item, if it has a place there. -/
def step (shape : Shape) : Kind → Option Shape
  | .stray _ => none
  | .word lexeme =>
    match shape.flag, lexeme with
    | .operand, .number literal =>
      if Numeral.WellFormed literal then some ⟨.operator, shape.height⟩ else none
    | .operand, .plus | .operand, .minus => some shape
    | .operand, .leftParen => some ⟨.operand, shape.height + 1⟩
    | .operand, _ => none
    | .operator, .plus | .operator, .minus | .operator, .star | .operator, .slash
    | .operator, .doubleStar => some ⟨.operand, shape.height⟩
    | .operator, .rightParen =>
      if shape.height = 0 then none else some ⟨.operator, shape.height - 1⟩
    | .operator, .endOfInput => if shape.height = 0 then some shape else none
    | .operator, _ => none

/-- The shape after a sequence of kinds, if each has a place. -/
def walk (shape : Shape) (kinds : List Kind) : Option Shape :=
  kinds.foldlM step shape

theorem walk_cons (shape : Shape) (kind : Kind) (kinds : List Kind) :
    shape.walk (kind :: kinds) = (shape.step kind).bind fun next ↦ next.walk kinds := rfl

theorem walk_append (shape : Shape) (kinds kinds' : List Kind) :
    shape.walk (kinds ++ kinds') = (shape.walk kinds).bind fun next ↦ next.walk kinds' :=
  List.foldlM_append

theorem walk_eq_none_of_begins {shape : Shape} {kinds kinds' : List Kind}
    (hbegins : kinds <+: kinds') (h : shape.walk kinds = none) : shape.walk kinds' = none := by
  obtain ⟨more, rfl⟩ := hbegins
  rw [walk_append, h, Option.bind_none]

theorem walk_take_succ_eq_none {shape last : Shape} {kinds : List Kind} {k : Nat}
    {kind : Kind} (hkind : kinds[k]? = some kind)
    (hwalk : shape.walk (kinds.take k) = some last) (hstep : last.step kind = none) :
    shape.walk (kinds.take (k + 1)) = none := by
  rw [List.take_add_one, hkind, walk_append, hwalk, Option.bind_some, Option.toList_some, walk_cons,
    hstep, Option.bind_none]

/-- Lexemes that complete an expression. -/
def completion (shape : Shape) : List Lexeme :=
  match shape.flag with
  | .operand => .number ['0'] :: List.replicate shape.height .rightParen
  | .operator => List.replicate shape.height .rightParen

theorem walk_replicate_rightParen (height : Nat) :
    walk ⟨.operator, height⟩
        ((List.replicate height .rightParen).map Kind.word ++ [.word .endOfInput])
      = some ⟨.operator, 0⟩ := by
  induction height with
  | zero => rfl
  | succ height ih =>
    rw [List.replicate_succ, List.map_cons, List.cons_append, walk_cons]
    exact ih

theorem walk_completion (shape : Shape) :
    shape.walk (shape.completion.map Kind.word ++ [.word .endOfInput]) = some ⟨.operator, 0⟩ := by
  obtain ⟨flag, height⟩ := shape
  cases flag with
  | operand => exact walk_replicate_rightParen height
  | operator => exact walk_replicate_rightParen height

theorem longest_of_mem_completion {shape : Shape} {lexeme : Lexeme}
    (h : lexeme ∈ shape.completion) : ∃ after, lexeme.Longest after := by
  have hparens : lexeme ∈ List.replicate shape.height .rightParen →
      ∃ after, lexeme.Longest after := by
    intro h
    rw [List.eq_of_mem_replicate h]
    exact ⟨[], trivial⟩
  unfold completion at h
  split at h
  · rcases List.mem_cons.mp h with rfl | h
    · exact ⟨[], by simp, by simp [Numeral.isNumeralChar, Char.isDigit], by simp⟩
    · exact hparens h
  · exact hparens h

theorem exists_map_word_of_walk {shape last : Shape} {kinds : List Kind}
    (h : shape.walk kinds = some last) :
    ∃ lexemes : List Lexeme, kinds = lexemes.map Kind.word := by
  induction kinds generalizing shape with
  | nil => exact ⟨[], rfl⟩
  | cons kind kinds ih =>
    rw [walk_cons] at h
    obtain ⟨next, hstep, hwalk⟩ := Option.bind_eq_some_iff.mp h
    obtain ⟨lexemes, rfl⟩ := ih hwalk
    cases kind with
    | stray c => cases hstep
    | word lexeme => exact ⟨lexeme :: lexemes, rfl⟩

end Shape

/-! ## The checker in shape -/

/-- A verdict is the verdict on the shape. -/
def Verdict.Shaped (shape : Shape) (item : Item) : Verdict → Prop
  | .go next => shape.step item.kind = some next.shape
  | .accept => shape.step item.kind = some shape ∧ item.kind = .word .endOfInput
  | .reject problem => shape.step item.kind = none ∧ problem.offset = item.span.offset

theorem shaped_step (state : State) (item : Item) :
    (state.step item).Shaped state.shape item := by
  obtain ⟨flag, opened⟩ := state
  cases item with
  | stray c offset => exact ⟨rfl, rfl⟩
  | token t =>
    obtain ⟨lexeme, offset⟩ := t
    cases flag with
    | operand =>
      cases lexeme with
      | number literal =>
        rw [State.step, operand_number]
        by_cases hwell : Numeral.WellFormed literal
        · rw [if_pos hwell]
          exact if_pos hwell
        · rw [if_neg hwell]
          exact ⟨if_neg hwell, rfl⟩
      | plus | minus | leftParen => rfl
      | _ => exact ⟨rfl, rfl⟩
    | operator =>
      cases lexeme with
      | plus | minus | star | slash | doubleStar => rfl
      | leftParen => exact ⟨rfl, rfl⟩
      | rightParen =>
        cases opened with
        | nil => exact ⟨rfl, rfl⟩
        | cons opening opened => rfl
      | number | endOfInput =>
        cases opened with
        | nil => exact ⟨rfl, rfl⟩
        | cons opening opened => exact ⟨rfl, rfl⟩

section

variable {finish : Nat} {state : State} {items : List Item}

theorem exists_walk_of_check (hitems : ∀ t, Item.token t ∈ items → t.lexeme ≠ .endOfInput)
    (h : check finish state items = none) :
    ∃ last, state.shape.walk (items.map Item.kind ++ [.word .endOfInput]) = some last := by
  induction items generalizing state with
  | nil =>
    have hshaped := shaped_step state (.endAt finish)
    rw [check] at h
    cases hstep : state.step (.endAt finish) with
    | go next =>
      rw [hstep] at hshaped
      exact ⟨_, congrArg (Option.bind · pure) hshaped⟩
    | accept =>
      rw [hstep] at hshaped
      exact ⟨_, congrArg (Option.bind · pure) hshaped.1⟩
    | reject problem =>
      rw [hstep] at h
      cases h
  | cons item items ih =>
    have hshaped := shaped_step state item
    rw [check] at h
    cases hstep : state.step item with
    | go next =>
      rw [hstep] at h hshaped
      have hnext : state.shape.step item.kind = some next.shape := hshaped
      obtain ⟨last, hlast⟩ := ih (fun t ht ↦ hitems t (List.mem_cons_of_mem _ ht)) h
      refine ⟨last, ?_⟩
      rw [List.map_cons, List.cons_append, Shape.walk_cons, hnext, Option.bind_some, hlast]
    | accept =>
      -- only the end of the input is accepted, and it is not among the items
      rw [hstep] at hshaped
      cases item with
      | stray c offset => cases hshaped.2
      | token t => exact absurd (Kind.word.inj hshaped.2) (hitems t List.mem_cons_self)
    | reject problem =>
      rw [hstep] at h
      cases h

/-- Where a problem is found, it is that an item has no place, and that is where it points. -/
theorem exists_place_of_check {problem : Problem} (h : check finish state items = some problem) :
    ∃ k shape kind, (items.map Item.kind ++ [Kind.word .endOfInput])[k]? = some kind ∧
      state.shape.walk ((items.map Item.kind ++ [Kind.word .endOfInput]).take k)
        = some shape ∧
      shape.step kind = none ∧
      ((items.map fun item ↦ item.span.offset) ++ [finish])[k]? = some problem.offset := by
  induction items generalizing state with
  | nil =>
    have hshaped := shaped_step state (.endAt finish)
    rw [check] at h
    cases hstep : state.step (.endAt finish) with
    | reject found =>
      rw [hstep] at h hshaped
      cases h
      exact ⟨0, state.shape, _, rfl, rfl, hshaped.1, congrArg some hshaped.2.symm⟩
    | _ =>
      rw [hstep] at h
      cases h
  | cons item items ih =>
    have hshaped := shaped_step state item
    rw [check] at h
    cases hstep : state.step item with
    | go next =>
      rw [hstep] at h hshaped
      have hnext : state.shape.step item.kind = some next.shape := hshaped
      obtain ⟨k, shape, kind, hkind, hwalk, hnone, hplace⟩ := ih h
      refine ⟨k + 1, shape, kind, hkind, ?_, hnone, hplace⟩
      rw [List.map_cons, List.cons_append, List.take_succ_cons, Shape.walk_cons, hnext,
        Option.bind_some, hwalk]
    | accept =>
      rw [hstep] at h
      cases h
    | reject found =>
      rw [hstep] at h hshaped
      cases h
      exact ⟨0, state.shape, _, rfl, rfl, hshaped.1, congrArg some hshaped.2.symm⟩

end

end Checker

/-! ## Sources -/

namespace Source

open Checker (Shape)

theorem check_eq_none_iff {source : Source} :
    source.check = none ↔ ∃ last, Shape.walk ⟨.operand, 0⟩ source.kinds = some last := by
  constructor
  · intro h
    have hcheck : Checker.check source.text.utf8ByteSize Checker.start source.items = none := h
    exact Checker.exists_walk_of_check
      (fun _ ht ↦ Item.lexeme_ne_endOfInput_of_mem_listFrom ht) hcheck
  · rintro ⟨last, hlast⟩
    cases hcheck : source.check with
    | none => rfl
    | some problem =>
      obtain ⟨k, shape, kind, hkind, hwalk, hstep, -⟩ := Checker.exists_place_of_check hcheck
      have hnone := Shape.walk_eq_none_of_begins (source.kinds.take_prefix (k + 1))
        (Shape.walk_take_succ_eq_none hkind hwalk hstep)
      rw [show Shape.walk ⟨.operand, 0⟩ source.kinds = none from hnone] at hlast
      cases hlast

/-- Whatever has come so far can be continued, if each item has a place. -/
theorem exists_continuation {source : Source} {k : Nat} {shape : Shape}
    (h : Shape.walk ⟨.operand, 0⟩ ((source.items.take k).map Item.kind) = some shape) :
    ∃ (other : Source) (more : List Lexeme) (maxDepth : Nat) (value : Float),
      other.items.map Item.kind = (source.items.take k).map Item.kind ++ more.map Kind.word ∧
      (other.evaluate maxDepth).answer = .ok value := by
  obtain ⟨lexemes, hlexemes⟩ := Shape.exists_map_word_of_walk h
  obtain ⟨other, hother⟩ : ∃ other : Source,
      other.items.map Item.kind = (lexemes ++ shape.completion).map Kind.word := by
    refine exists_map_kind_items_eq fun lexeme hlexeme ↦ ?_
    rcases List.mem_append.mp hlexeme with hlexeme | hlexeme
    · have hkind : .word lexeme ∈ (source.items.take k).map Item.kind :=
        hlexemes ▸ List.mem_map_of_mem hlexeme
      obtain ⟨item, hitem, hword⟩ := List.mem_map.mp hkind
      cases item with
      | stray c offset => cases hword
      | token t =>
        cases hword
        exact longest_of_mem_items (List.mem_of_mem_take hitem)
    · exact Shape.longest_of_mem_completion hlexeme
  -- every word up to the item is spelled again, and then the completion
  rw [List.map_append, ← hlexemes] at hother
  have hcheck : other.check = none := by
    rw [check_eq_none_iff, kinds, hother, List.append_assoc, Shape.walk_append, h]
    exact ⟨_, shape.walk_completion⟩
  obtain ⟨value, hvalue⟩ := exists_answer_of_check hcheck (Nat.lt_succ_self _)
  exact ⟨other, _, _, value, hother, hvalue⟩

/-- **The first problem wins.** A diagnostic that does not tell of the limit points at one item, or
at the end of the input. What comes before can be continued to an input that is evaluated, and no
input is evaluated that begins with all of this and the item. -/
theorem first_problem {source : Source} {maxDepth : Nat} {diagnostic : Diagnostic}
    (h : (source.evaluate maxDepth).answer = .error diagnostic)
    (hlimit : ∀ n t, diagnostic.problem ≠ .depthLimitExceeded n t) :
    ∃ k ≤ source.items.length,
      (∀ j, source.places[j]? = some diagnostic.problem.offset ↔ j = k) ∧
      (∃ (other : Source) (more : List Lexeme) (maxDepth : Nat) (value : Float),
        other.items.map Item.kind = (source.items.take k).map Item.kind ++ more.map Kind.word ∧
        (other.evaluate maxDepth).answer = .ok value) ∧
      ∀ (other : Source), source.kinds.take (k + 1) <+: other.kinds →
        ∀ maxDepth value, (other.evaluate maxDepth).answer ≠ .ok value := by
  have hcheck : source.check = some diagnostic.problem := by
    rcases check_of_diagnostic h with ⟨t, ht⟩ | hfound
    · exact absurd ht (hlimit _ _)
    · exact hfound
  obtain ⟨k, shape, kind, hkind, hwalk, hstep, hplace⟩ := Checker.exists_place_of_check hcheck
  have hle : k ≤ source.items.length := by
    obtain ⟨hlt, -⟩ := List.getElem?_eq_some_iff.mp hplace
    have hlength := source.length_places
    rw [places] at hlength
    omega
  refine ⟨k, hle, getElem?_places_iff hplace, ?_, ?_⟩
  · rw [List.take_append_of_le_length (by rwa [List.length_map]), ← List.map_take] at hwalk
    exact exists_continuation hwalk
  · intro other hbegins maxDepth value hvalue
    obtain ⟨last, hlast⟩ := check_eq_none_iff.mp (check_of_answer hvalue)
    have hnone := Shape.walk_eq_none_of_begins hbegins
      (Shape.walk_take_succ_eq_none hkind hwalk hstep)
    rw [show Shape.walk ⟨.operand, 0⟩ other.kinds = none from hnone] at hlast
    cases hlast

/-- After `1 + *` there is no way to go on. -/
theorem first_problem_star :
    (Source.evaluate ⟨none, "1+*2"⟩ defaultMaxDepth).answer
      = .error ⟨⟨none, "1+*2"⟩, .unexpectedToken ⟨.star, 2⟩⟩ ∧
    ∀ other : Source, [.word (.number ['1']), .word .plus, .word .star] <+: other.kinds →
      ∀ maxDepth value, (other.evaluate maxDepth).answer ≠ .ok value := by
  have hanswer : (Source.evaluate ⟨none, "1+*2"⟩ defaultMaxDepth).answer
      = .error ⟨⟨none, "1+*2"⟩, .unexpectedToken ⟨.star, 2⟩⟩ :=
    answer_of_check (by decide +kernel) (by decide +kernel)
  obtain ⟨k, -, hplace, -, hnever⟩ := first_problem hanswer (by simp)
  have hk : 2 = k := (hplace 2).mp (by decide +kernel)
  have hkinds : Source.kinds ⟨none, "1+*2"⟩
      = [.word (.number ['1']), .word .plus, .word .star, .word (.number ['2']),
        .word .endOfInput] := by
    decide +kernel
  refine ⟨hanswer, fun other hbegins ↦ hnever other ?_⟩
  rwa [← hk, hkinds]

end Source

end Calculator
