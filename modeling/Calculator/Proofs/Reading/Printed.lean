import Calculator.CommandLine.Session
import Calculator.Proofs.Binary64.Fields
import Calculator.Proofs.Binary64.Printing
import Calculator.Proofs.Lexing.Kinds
import Calculator.Proofs.Reading.Grammar

/-!
# Printed values as expressions

What is printed of a finite float is an expression for that float. It is a numeral, with a minus
sign before it if the sign bit of the float is set, so it is one lexeme or two, and takes one level
or two. The texts of the other floats are no expressions: they are spelled with letters, and a
letter is in no lexeme.

## The sign

The sign bit is printed and not whether the float is less than zero. So negative zero is read as the
negative of zero, which is negative zero again.
-/

namespace Calculator

namespace Item

theorem listFrom_text {lexeme : Lexeme} (h : lexeme.Longest []) (offset : Nat) :
    listFrom offset lexeme.text = [.token ⟨lexeme, offset⟩] := by
  have hlist := listFrom_text_append h offset
  rwa [List.append_nil, listFrom_nil] at hlist

theorem listFrom_cons_of_not_isLexemeChar {c : Char} (hblank : ¬c.isWhitespace = true)
    (hc : ¬Lexeme.IsLexemeChar c) (offset : Nat) (rest : List Char) :
    listFrom offset (c :: rest) = .stray c offset :: listFrom (offset + c.utf8Size) rest := by
  rw [listFrom_cons_of_not_isWhitespace hblank, munch_of_none (Lexeme.munch?_eq_none_iff.mpr hc)]
  rfl

end Item

theorem Numeral.Denotes.longest {literal : List Char} {x : Float} (h : Numeral.Denotes literal x) :
    (Lexeme.number literal).Longest [] := by
  refine ⟨?_, h.isNumeralChar, ?_⟩
  · rintro rfl
    exact absurd h.wellFormed (by decide)
  · rintro c ⟨⟩

namespace Binary64

variable {x : Float}

/-- The text of a finite float is a numeral, with a sign if the sign bit is set. -/
theorem exists_text_eq (h : x.isFinite = true) :
    ∃ literal, text x = (if isNegative x then '-' :: literal else literal) ∧
      Numeral.Denotes literal (ofRank (rank x)) ∧ (rank x = 0 → literal = ['0']) := by
  have hrank := (isFinite_iff x).mp h
  refine ⟨magnitudeText (rank x), ?_, denotes_magnitudeText hrank, fun hzero ↦ ?_⟩
  · rw [text, if_neg (Nat.not_lt_of_le (Nat.le_of_lt hrank))]
  · rw [hzero]
    rfl

/-- The text of another float is spelled with letters, of which the first is reported. -/
theorem text_of_not_isFinite (h : x.isFinite = false) :
    ∃ c rest, (text x = c :: rest ∨ text x = '-' :: c :: rest) ∧ ¬c.isWhitespace = true ∧
      ¬Lexeme.IsLexemeChar c := by
  have hrank : ¬rank x < infinityRank := fun hlt ↦ by
    rw [(isFinite_iff x).mpr hlt] at h
    cases h
  have hinf : magnitudeText (rank x) = ['i', 'n', 'f'] := by
    rw [magnitudeText, if_neg fun hzero : rank x = 0 ↦ hrank (hzero ▸ by decide), if_neg hrank]
  have hi : ¬Char.isWhitespace 'i' = true ∧ ¬Lexeme.IsLexemeChar 'i' := by
    simp [Lexeme.IsLexemeChar, Numeral.isNumeralChar]
  have hN : ¬Char.isWhitespace 'N' = true ∧ ¬Lexeme.IsLexemeChar 'N' := by
    simp [Lexeme.IsLexemeChar, Numeral.isNumeralChar]
  rw [text, hinf]
  split
  · exact ⟨_, _, .inl rfl, hN⟩
  · split
    · exact ⟨_, _, .inr rfl, hi⟩
    · exact ⟨_, _, .inl rfl, hi⟩

end Binary64

namespace Source

open Machine

/-! ## One lexeme, and a sign before it -/

theorem items_minus (name : Option String) (text : List Char) :
    Source.items ⟨name, String.ofList ('-' :: text)⟩
      = .token ⟨.minus, 0⟩ :: Item.listFrom 1 text := by
  rw [items, String.toList_ofList]
  exact @Item.listFrom_text_append .minus text trivial 0

section

variable {name : Option String} {maxDepth : Nat}

theorem answer_numeral {literal : List Char} {x : Float} (h : Numeral.Denotes literal x)
    (hlevels : 1 ≤ maxDepth) :
    (Source.evaluate ⟨name, String.ofList literal⟩ maxDepth).answer = .ok x := by
  have hitems : Source.items ⟨name, String.ofList literal⟩
      = [⟨.number literal, 0⟩].map Item.token := by
    rw [items, String.toList_ofList]
    exact Item.listFrom_text h.longest 0
  rw [answer_of_derives hitems (.term (.factor (.unary (.number h.wellFormed)))) hlevels,
    Expr.value, h.value_eq]

theorem answer_minus_numeral {literal : List Char} {x : Float} (h : Numeral.Denotes literal x)
    (hlevels : 2 ≤ maxDepth) :
    (Source.evaluate ⟨name, String.ofList ('-' :: literal)⟩ maxDepth).answer = .ok (-x) := by
  have hitems : Source.items ⟨name, String.ofList ('-' :: literal)⟩
      = [⟨.minus, 0⟩, ⟨.number literal, 1⟩].map Item.token := by
    rw [items_minus]
    exact congrArg (_ :: ·) (Item.listFrom_text h.longest 1)
  rw [answer_of_derives hitems
    (.term (.factor (.unary (.sign (s := .minus) (.number h.wellFormed))))) hlevels, Expr.value,
    Expr.value, h.value_eq]
  rfl

theorem answer_stray {c : Char} {rest : List Char} (hblank : ¬c.isWhitespace = true)
    (hc : ¬Lexeme.IsLexemeChar c) :
    (Source.evaluate ⟨name, String.ofList (c :: rest)⟩ maxDepth).answer
      = .error ⟨⟨name, String.ofList (c :: rest)⟩, .unrecognizedCharacter c 0⟩ := by
  refine answer_eq_error_iff.mpr ⟨rfl, ?_⟩
  rw [reading, items, String.toList_ofList, Item.listFrom_cons_of_not_isLexemeChar hblank hc]
  rfl

theorem answer_minus_stray {c : Char} {rest : List Char} (hblank : ¬c.isWhitespace = true)
    (hc : ¬Lexeme.IsLexemeChar c) (hlevels : 0 < maxDepth) :
    (Source.evaluate ⟨name, String.ofList ('-' :: c :: rest)⟩ maxDepth).answer
      = .error ⟨⟨name, String.ofList ('-' :: c :: rest)⟩, .unrecognizedCharacter c 1⟩ := by
  refine answer_eq_error_iff.mpr ⟨rfl, ?_⟩
  rw [reading, items_minus, Item.listFrom_cons_of_not_isLexemeChar hblank hc, start,
    run_operand_of_go hlevels rfl]
  rfl

/-! ## Printed values -/

theorem answer_text {x : Float} (h : x.isFinite = true)
    (hlevels : (if Binary64.isNegative x then 2 else 1) ≤ maxDepth) :
    (Source.evaluate ⟨name, String.ofList (Binary64.text x)⟩ maxDepth).answer = .ok x := by
  have hx := Binary64.eq_ofRank_or_neg (Nat.le_of_lt ((Binary64.isFinite_iff x).mp h))
  obtain ⟨literal, htext, hdenotes, -⟩ := Binary64.exists_text_eq h
  rw [htext]
  split at hlevels
  · next hneg =>
    rw [if_pos hneg] at hx ⊢
    rw [answer_minus_numeral hdenotes hlevels, ← hx]
  · next hpos =>
    rw [if_neg hpos] at hx ⊢
    rw [answer_numeral hdenotes hlevels, ← hx]

theorem answer_text_of_not_isFinite {x : Float} (h : x.isFinite = false)
    (hlevels : 0 < maxDepth) :
    ∃ c offset, (Binary64.text x)[offset]? = some c ∧ ∀ name : Option String,
      (Source.evaluate ⟨name, String.ofList (Binary64.text x)⟩ maxDepth).answer
        = .error ⟨⟨name, String.ofList (Binary64.text x)⟩, .unrecognizedCharacter c offset⟩ := by
  obtain ⟨c, rest, htext | htext, hblank, hc⟩ := Binary64.text_of_not_isFinite h
  · rw [htext]
    exact ⟨c, 0, rfl, fun _ ↦ answer_stray hblank hc⟩
  · rw [htext]
    exact ⟨c, 1, rfl, fun _ ↦ answer_minus_stray hblank hc hlevels⟩

end

/-- **Printed values are expressions for themselves.** Wherever an evaluation comes to a float, the
program prints its text and nothing else. The text of a finite float is a numeral, with a minus sign
before it just if the sign bit is set; it is evaluated to the same float with one level, or two for
the sign, and so the program prints it as it stands. The text of an infinity or of what is no number
is refused at a letter, and nothing is printed for it. -/
theorem evaluate_printed (x : Float) (name : Option String) :
    (∀ source maxDepth, (Source.evaluate source maxDepth).answer = .ok x →
      (Reply.ofSource maxDepth source).output = String.ofList (Binary64.text x) ++ "\n" ∧
      evalCommand maxDepth source.text = ⟨0, String.ofList (Binary64.text x) ++ "\n", []⟩) ∧
    (x.isFinite = true →
      (∃ literal, Binary64.text x = (if Binary64.isNegative x then '-' :: literal else literal) ∧
        (∀ c ∈ literal, Numeral.isNumeralChar c = true) ∧ Numeral.WellFormed literal ∧
        (Binary64.rank x = 0 → literal = ['0'])) ∧
      ∀ maxDepth, (if Binary64.isNegative x then 2 else 1) ≤ maxDepth →
        (Source.evaluate ⟨name, String.ofList (Binary64.text x)⟩ maxDepth).answer = .ok x ∧
        (Reply.ofSource maxDepth ⟨name, String.ofList (Binary64.text x)⟩).output
          = String.ofList (Binary64.text x) ++ "\n" ∧
        evalCommand maxDepth (String.ofList (Binary64.text x))
          = ⟨0, String.ofList (Binary64.text x) ++ "\n", []⟩) ∧
    (x.isFinite = false → ∀ maxDepth, 0 < maxDepth →
      ∃ c offset, (Binary64.text x)[offset]? = some c ∧
        (Source.evaluate ⟨name, String.ofList (Binary64.text x)⟩ maxDepth).answer
          = .error ⟨⟨name, String.ofList (Binary64.text x)⟩, .unrecognizedCharacter c offset⟩ ∧
        evalCommand maxDepth (String.ofList (Binary64.text x))
          = ⟨65, "", [⟨none, ⟨none, String.ofList (Binary64.text x)⟩,
              .unrecognizedCharacter c offset⟩]⟩) := by
  have hprints : ∀ source maxDepth, (Source.evaluate source maxDepth).answer = .ok x →
      (Reply.ofSource maxDepth source).output = String.ofList (Binary64.text x) ++ "\n" ∧
      evalCommand maxDepth source.text = ⟨0, String.ofList (Binary64.text x) ++ "\n", []⟩ := by
    intro source maxDepth hanswer
    constructor
    · rw [Reply.ofSource, hanswer]
      rfl
    · -- the name of the source makes no difference to its value
      have hnone : (Source.evaluate ⟨none, source.text⟩ maxDepth).answer = .ok x := by
        rw [answer_eq_ok_iff] at hanswer ⊢
        exact hanswer
      rw [evalCommand_eq, hnone]
      rfl
  refine ⟨hprints, fun hfinite ↦ ⟨?_, fun maxDepth hlevels ↦ ?_⟩, fun hnot maxDepth hlevels ↦ ?_⟩
  · obtain ⟨literal, htext, hdenotes, hzero⟩ := Binary64.exists_text_eq hfinite
    exact ⟨literal, htext, hdenotes.isNumeralChar, hdenotes.wellFormed, hzero⟩
  · have hanswer := @answer_text name maxDepth x hfinite hlevels
    exact ⟨hanswer, hprints _ _ hanswer⟩
  · obtain ⟨c, offset, hc, hanswer⟩ := answer_text_of_not_isFinite hnot hlevels
    refine ⟨c, offset, hc, hanswer name, ?_⟩
    rw [evalCommand_eq, hanswer none]
    rfl

/-- Minus one half is printed with its sign, whatever it is the value of, and what was printed is
printed again. -/
theorem evaluate_printed_minus_half :
    (-Binary64.ofRank (1022 * Binary64.binade)).isFinite = true ∧
      evalCommand 2 "-1/2" = ⟨0, "-0.5\n", []⟩ ∧
      (Source.evaluate ⟨none, "-0.5"⟩ 2).answer
        = .ok (-Binary64.ofRank (1022 * Binary64.binade)) ∧
      evalCommand 2 "-0.5" = ⟨0, "-0.5\n", []⟩ := by
  have hfinite : (-Binary64.ofRank (1022 * Binary64.binade)).isFinite = true := by decide +kernel
  have hlevels : (if Binary64.isNegative (-Binary64.ofRank (1022 * Binary64.binade)) then 2 else 1)
      ≤ 2 := by decide +kernel
  have htext : Binary64.text (-Binary64.ofRank (1022 * Binary64.binade))
      = ['-', '0', '.', '5'] := by decide +kernel
  have hquotient : (Source.evaluate ⟨none, "-1/2"⟩ 2).answer
      = .ok (-Binary64.ofRank (1022 * Binary64.binade)) := by decide +kernel
  obtain ⟨hprints, hreads, -⟩ := evaluate_printed (-Binary64.ofRank (1022 * Binary64.binade)) none
  have hprinted := (hprints _ _ hquotient).2
  obtain ⟨hanswer, -, hagain⟩ := (hreads hfinite).2 2 hlevels
  rw [htext] at hprinted hanswer hagain
  exact ⟨hfinite, hprinted, hanswer, hagain⟩

end Source

end Calculator
