import Calculator.CommandLine.Session
import Calculator.Proofs.Reading.Correspondence
import Calculator.Proofs.Reading.Grammar

/-!
# What the reply to a line depends on

Of the reply to a line three things are seen: the value that it prints, whether it says that
something is wrong, and the headlines of the report. Replies that agree in them are alike
(`Reply.Alike`). What is seen depends on the kinds of the items of the line and on whether the line
is blank, and on nothing else (`Reply.alike_ofLine`): not on the file that the line stands in, and
not on a carriage return at its end.

## Blank lines

A line is blank if it holds nothing but white space in the sense of Unicode, which is more than what
may separate items. There is no lexeme in such a line all the same, so nothing that has a value is
passed over (`Source.not_ok_of_isBlankLine`).
-/

namespace Calculator

/-- The headlines of the reports of a reply. -/
def Reply.errors (number : Option Nat) (reply : Reply) : List String :=
  (reply.reports number).flatMap Report.headlines

/-- The headlines of the reports of a command. -/
def Outcome.errors (outcome : Outcome) : List String := outcome.reports.flatMap Report.headlines

/-! ## A separator at the end -/

theorem Lexeme.Longest.append_separator {lexeme : Lexeme} {after : List Char}
    (h : lexeme.Longest after) {c : Char} (hc : c.isWhitespace = true) :
    lexeme.Longest (after ++ [c]) := by
  cases after with
  | nil => exact h.before_separator hc []
  | cons d rest =>
    cases lexeme with
    | number literal => exact h
    | star => exact h
    | endOfInput => exact h
    | _ => trivial

namespace Item

theorem munch_append_separator {c d : Char} (hd : ¬d.isWhitespace = true)
    (hc : c.isWhitespace = true) (offset : Nat) (rest : List Char) :
    munch offset d (rest ++ [c])
      = ((munch offset d rest).1, (munch offset d rest).2 ++ [c]) := by
  cases h : munch offset d rest with
  | mk item after =>
    obtain ⟨htext, hoffset, hlongest⟩ := (munch_eq_iff hd).mp h
    refine (munch_eq_iff hd).mpr ⟨?_, hoffset, ?_⟩
    · rw [← List.append_assoc, htext, List.cons_append]
    · cases item with
      | token t => exact Lexeme.Longest.append_separator hlongest hc
      | stray d' offset' => exact hlongest

/-- A separator at the end of a text is no item and leaves all items what they are. -/
theorem listFrom_append_separator {c : Char} (hc : c.isWhitespace = true) (offset : Nat)
    (text : List Char) : listFrom offset (text ++ [c]) = listFrom offset text := by
  fun_induction listFrom offset text with
  | case1 offset =>
    rw [List.nil_append, listFrom_cons_of_isWhitespace hc, listFrom_nil]
  | case2 offset d rest hd ih => rw [List.cons_append, listFrom_cons_of_isWhitespace hd, ih]
  | case3 offset d rest hd ih =>
    rw [List.cons_append, listFrom_cons_of_not_isWhitespace hd, munch_append_separator hd hc, ih]

end Item

/-! ## Blank lines -/

theorem Lexeme.IsLexemeChar.not_isBlank {c : Char} (h : Lexeme.IsLexemeChar c) :
    ¬Text.isBlank c = true := by
  rcases h with h | h
  · have hrange : c.toNat = 0x2E ∨ 0x30 ≤ c.toNat ∧ c.toNat ≤ 0x39 := by
      rcases Bool.or_eq_true_iff.mp h with h | h
      · exact .inr (Char.isDigit_iff_toNat.mp h)
      · exact .inl (congrArg Char.toNat (of_decide_eq_true h))
    simp only [Text.isBlank, Text.blankRanges, List.any_cons, List.any_nil, Bool.or_false,
      Bool.or_eq_true, Bool.and_eq_true, decide_eq_true_eq]
    omega
  · simp only [List.mem_cons, List.not_mem_nil, or_false] at h
    rcases h with rfl | rfl | rfl | rfl | rfl | rfl <;> decide

theorem Lexeme.Longest.isLexemeChar {lexeme : Lexeme} {after : List Char}
    (h : lexeme.Longest after) : ∀ c ∈ lexeme.text, Lexeme.IsLexemeChar c := by
  cases lexeme with
  | number literal => exact fun c hc ↦ .inl (h.2.1 c hc)
  | endOfInput => exact h.elim
  | _ => simp [text, Lexeme.IsLexemeChar]

/-- Nothing that is passed over as blank has a value. -/
theorem Source.not_ok_of_isBlankLine {source : Source}
    (h : Text.isBlankLine source.text.toList = true) (maxDepth : Nat) (value : Float) :
    (source.evaluate maxDepth).answer ≠ .ok value := by
  intro hvalue
  obtain ⟨tokens, e, hitems, hderives, -⟩ := derives_of_answer hvalue
  have hne : tokens ≠ [] := by
    rintro rfl
    exact e.lexemes_ne_nil hderives.lexemes_eq
  obtain ⟨t, rest, rfl⟩ := List.exists_cons_of_ne_nil hne
  have hmem : Item.token t ∈ source.items := hitems ▸ List.mem_cons_self
  obtain ⟨before, after, htext, -, hlongest⟩ :=
    (Partition.listFrom 0 source.text.toList).placed _ hmem
  obtain ⟨c, hc⟩ := List.exists_mem_of_ne_nil _ hlongest.not_isWhitespace.1
  refine (Lexeme.Longest.isLexemeChar hlongest c hc).not_isBlank (List.all_eq_true.mp h c ?_)
  rw [htext]
  exact List.mem_append_right _ (List.mem_append_left _ hc)

/-! ## Replies that are alike -/

namespace Reply

theorem errors_failed_some (number : Nat) (diagnostic : Diagnostic) :
    (failed diagnostic).errors (some number)
      = ["[line " ++ number.repr ++ "] Error: " ++ diagnostic.problem.message,
          diagnostic.problem.code] := rfl

theorem errors_failed_none (diagnostic : Diagnostic) :
    (failed diagnostic).errors none = [diagnostic.problem.code] := rfl

/-- Two replies of which the same is seen. -/
structure Alike (reply reply' : Reply) : Prop where
  /-- The same is printed. -/
  output : reply.output = reply'.output
  /-- Something is wrong in both or in none. -/
  isFailed : reply.isFailed = reply'.isFailed
  /-- The headlines are the same, in a file and elsewhere. -/
  errors : ∀ number, reply.errors number = reply'.errors number

theorem Alike.refl (reply : Reply) : Alike reply reply := ⟨rfl, rfl, fun _ ↦ rfl⟩

theorem Alike.failed {diagnostic diagnostic' : Diagnostic}
    (hcode : diagnostic.problem.code = diagnostic'.problem.code)
    (hmessage : diagnostic.problem.message = diagnostic'.problem.message) :
    Alike (failed diagnostic) (failed diagnostic') := by
  refine ⟨rfl, rfl, fun number ↦ ?_⟩
  cases number with
  | none => rw [errors_failed_none, errors_failed_none, hcode]
  | some number => rw [errors_failed_some, errors_failed_some, hcode, hmessage]

variable {source source' : Source}

/-- What is seen of the reply to a line depends on its items and on whether it is blank. -/
theorem alike_ofLine (hkinds : source.kinds = source'.kinds)
    (hblank : Text.isBlankLine source.text.toList = Text.isBlankLine source'.text.toList)
    (maxDepth : Nat) : Alike (ofLine maxDepth source) (ofLine maxDepth source') := by
  rw [ofLine, ofLine, hblank]
  split
  · exact .refl _
  · rw [ofSource, ofSource]
    rcases Source.answers_of_kinds hkinds maxDepth with
      ⟨value, hvalue, hvalue'⟩ | ⟨problem, problem', hanswer, hanswer', hproblem⟩
    · rw [hvalue, hvalue']
      exact .refl _
    · obtain ⟨hcode, hmessage, -⟩ := hproblem.wording
      rw [hanswer, hanswer']
      exact .failed hcode hmessage

theorem alike_of_text_eq (maxDepth : Nat) (name name' : Option String) (text : String) :
    Alike (ofLine maxDepth ⟨name, text⟩) (ofLine maxDepth ⟨name', text⟩) :=
  @alike_ofLine ⟨name, text⟩ ⟨name', text⟩ rfl rfl maxDepth

theorem alike_append_return (maxDepth : Nat) (name : Option String) (line : List Char) :
    Alike (ofLine maxDepth ⟨name, String.ofList (line ++ ['\r'])⟩)
      (ofLine maxDepth ⟨name, String.ofList line⟩) := by
  refine alike_ofLine ?_ ?_ maxDepth
  · rw [Source.kinds, Source.kinds, Source.items, Source.items, String.toList_ofList,
      String.toList_ofList, Item.listFrom_append_separator (by decide)]
  · rw [String.toList_ofList, String.toList_ofList, Text.isBlankLine, List.all_append]
    exact Bool.and_true _

end Reply

end Calculator
