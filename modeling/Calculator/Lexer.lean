import Calculator.Pass

/-!
# Scanning

Blanks, tabs, newlines and carriage returns may stand before every lexeme and after the last one;
they separate and are skipped. Each other character is part of a lexeme or is reported, and then it
is behind the lexer as well, so that scanning can go on after it.

There are three ways to go on. `peek` looks at the next token and holds it. `next` takes the next
token, the held one if there is one. `yield` lists the tokens one by one and says when there are no
more; from then on it says nothing else, while `peek` and `next` give the end of the input as often
as they are asked.
-/

namespace Calculator

namespace Lexer

/-- Scans the next token. -/
def scan : Pass Token where
  run lexer :=
    let start := lexer.byte + Text.size (lexer.rest.takeWhile Char.isWhitespace)
    match lexer.rest.dropWhile Char.isWhitespace with
    | [] => ⟨.ok ⟨.endOfInput, start⟩, { lexer with rest := [], byte := start }, []⟩
    | c :: rest =>
      match Lexeme.munch? c rest with
      | some (lexeme, rest) =>
        let token : Token := ⟨lexeme, start⟩
        ⟨.ok token, { lexer with rest := rest, byte := token.span.stop }, [.lexed token]⟩
      | none =>
        let problem := Problem.unrecognizedCharacter c start
        ⟨.error ⟨lexer.source, problem⟩,
          { lexer with rest := rest, byte := problem.span.stop }, []⟩

/-- Looks at the next token and keeps it to be taken next. A character that is reported is not
kept. -/
def peek : Pass Token where
  run lexer :=
    match lexer.held with
    | some token => ⟨.ok token, lexer, []⟩
    | none =>
      let found := scan.run lexer
      match found.answer with
      | .ok token => ⟨.ok token, { found.lexer with held := some token }, found.log⟩
      | .error diagnostic => ⟨.error diagnostic, found.lexer, found.log⟩

/-- Takes the next token. -/
def next : Pass Token where
  run lexer :=
    match lexer.held with
    | some token => ⟨.ok token, { lexer with held := none }, []⟩
    | none => scan.run lexer

/-- Takes the next token of the listing, or nothing once the end of the input has been met here. -/
def yield : Pass (Option Token) where
  run lexer :=
    if lexer.ended then ⟨.ok none, lexer, []⟩
    else
      let taken := next.run lexer
      match taken.answer with
      | .ok token =>
        if token.lexeme = .endOfInput then
          ⟨.ok none, { taken.lexer with ended := true }, taken.log⟩
        else ⟨.ok (some token), taken.lexer, taken.log⟩
      | .error diagnostic => ⟨.error diagnostic, taken.lexer, taken.log⟩

/-! ## Scanning shortens the text -/

@[simp] theorem held_scan (lexer : Lexer) : (scan.run lexer).lexer.held = lexer.held := by
  unfold scan
  dsimp only
  split
  · rfl
  · split <;> rfl

/-- Unless it meets the end of the input, scanning takes at least one character. -/
theorem length_rest_scan (lexer : Lexer) :
    (scan.run lexer).lexer.rest.length < lexer.rest.length ∨
      (∃ offset, (scan.run lexer).answer = .ok ⟨.endOfInput, offset⟩) ∧
        (scan.run lexer).lexer.rest = [] := by
  have hle := (List.dropWhile_suffix Char.isWhitespace (l := lexer.rest)).length_le
  unfold scan
  dsimp only
  split
  · exact .inr ⟨⟨_, rfl⟩, rfl⟩
  · next c rest hrest =>
    rw [hrest] at hle
    split
    · next hmunch => exact .inl (Nat.lt_of_lt_of_le (Lexeme.length_lt_of_munch? hmunch) hle)
    · exact .inl hle

theorem neverGrows_peek : Pass.NeverGrows peek := by
  intro lexer
  have hscan := length_rest_scan lexer
  unfold peek
  dsimp only
  split
  · exact Nat.le_refl _
  · next hheld =>
    split
    · simp only [weight, hheld]
      grind
    · simp only [weight, held_scan, hheld]
      grind

theorem held_of_peek {lexer : Lexer} {token : Token}
    (h : (peek.run lexer).answer = .ok token) : (peek.run lexer).lexer.held = some token := by
  cases hheld : lexer.held with
  | some t =>
    simp only [peek, hheld] at h ⊢
    exact congrArg some (Except.ok.inj h)
  | none =>
    cases hanswer : (scan.run lexer).answer with
    | ok t =>
      simp only [peek, hheld, hanswer] at h ⊢
      exact congrArg some (Except.ok.inj h)
    | error diagnostic =>
      simp only [peek, hheld, hanswer] at h
      cases h

theorem neverGrows_next : Pass.NeverGrows next := by
  intro lexer
  have hscan := length_rest_scan lexer
  unfold next
  dsimp only
  split
  · simp only [weight]
    omega
  · next hheld =>
    simp only [weight, held_scan, hheld]
    grind

/-- Taking a token makes the lexer lighter, and so does reporting a character. -/
theorem weight_next_lt (lexer : Lexer)
    (h : ∀ offset, (next.run lexer).answer ≠ .ok ⟨.endOfInput, offset⟩) :
    (next.run lexer).lexer.weight < lexer.weight := by
  have hscan := length_rest_scan lexer
  unfold next at h ⊢
  dsimp only at h ⊢
  split at h
  · next token hheld =>
    have hne : token.lexeme ≠ .endOfInput := fun hend ↦ h token.offset (by rw [← hend])
    simp [weight, hheld, hne]
  · next hheld =>
    simp only [weight, held_scan, hheld]
    grind

theorem weight_yield_lt (lexer : Lexer) (h : (yield.run lexer).answer ≠ .ok none) :
    (yield.run lexer).lexer.weight < lexer.weight := by
  have hnext := weight_next_lt lexer
  by_cases hended : lexer.ended = true
  · simp [yield, hended] at h
  · cases hanswer : (next.run lexer).answer with
    | error diagnostic =>
      simp only [yield, hended, hanswer]
      exact hnext fun offset hend ↦ nomatch hanswer.symm.trans hend
    | ok token =>
      by_cases hend : token.lexeme = .endOfInput
      · simp [yield, hended, hanswer, hend] at h
      · simp only [yield, hended, hanswer, hend, if_false]
        exact hnext fun offset hnone ↦ hend (by grind)

/-! ## The listing -/

/-- All that the listing gives, tokens and diagnostics in order. It goes on after a diagnostic. -/
def listing (lexer : Lexer) : List (Except Diagnostic Token) :=
  match h : (yield.run lexer).answer with
  | .ok none => []
  | .ok (some token) =>
    have := weight_yield_lt lexer (by simp [h])
    .ok token :: listing (yield.run lexer).lexer
  | .error diagnostic =>
    have := weight_yield_lt lexer (by simp [h])
    .error diagnostic :: listing (yield.run lexer).lexer
termination_by lexer.weight

/-! ## Calls in any order -/

/-- What can be asked of a lexer. -/
inductive Call where
  | peek
  | next
  | yield
  deriving DecidableEq, Repr

/-- Answers a call. Only the listing can have nothing to answer. -/
def call : Call → Pass (Option Token)
  | .peek => some <$> peek
  | .next => some <$> next
  | .yield => yield

/-- Answers calls one after another, each from where the one before it stopped. -/
def calls : List Call → Lexer → List (Step (Option Token))
  | [], _ => []
  | first :: rest, lexer =>
    let step := (call first).run lexer
    step :: calls rest step.lexer

end Lexer

end Calculator
