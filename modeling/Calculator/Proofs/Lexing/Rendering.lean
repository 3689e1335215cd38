import Calculator.CommandLine.Session
import Calculator.Proofs.Lexing.Kinds
import Mathlib.Data.List.Chain

/-!
# Lexemes written out

Lexemes can be written one after another, with separators between them or without. What is written
is read again as these lexemes, each in its place, unless two of them stand together that are read
as something else: two numerals, or a star and what begins with a star. Between those there has to
be a separator, and nowhere else (`Spaced.Apart`).

## What decides it

A lexeme is read back if it is the longest where it stands. A numeral could be longer if a digit or
a point follows, and a star if a star follows. The next lexeme is written directly behind or after a
separator, so whether there is such a character depends on the next lexeme alone, whatever was
written before (`Spaced.longest_iff`). One lexeme that is not read back spoils the whole, as the
list of the items then has another item in its place.
-/

namespace Calculator

namespace Lexeme

/-- A lexeme that can be written: a numeral is a run of digits and points, and the end of the input
is not written at all. -/
def Legal : Lexeme → Prop
  | number literal => literal ≠ [] ∧ ∀ c ∈ literal, Numeral.isNumeralChar c = true
  | endOfInput => False
  | plus | minus | star | slash | doubleStar | leftParen | rightParen => True

/-- Lexemes that are read as something else if nothing stands between them. -/
inductive Merges : Lexeme → Lexeme → Prop
  | numbers (literal literal' : List Char) : Merges (number literal) (number literal')
  | stars : Merges star star
  | power : Merges star doubleStar

theorem Longest.legal {lexeme : Lexeme} {after : List Char} (h : lexeme.Longest after) :
    lexeme.Legal := by
  cases lexeme with
  | number literal => exact ⟨h.1, h.2.1⟩
  | endOfInput => exact h
  | _ => trivial

theorem Legal.longest_nil {lexeme : Lexeme} (h : lexeme.Legal) : lexeme.Longest [] := by
  cases lexeme with
  | number literal => exact ⟨h.1, h.2, nofun⟩
  | star => exact nofun
  | endOfInput => exact h
  | _ => trivial

theorem Legal.longest_of_isWhitespace {lexeme : Lexeme} (h : lexeme.Legal) {after : List Char}
    (hafter : ∀ c ∈ after, c.isWhitespace = true) : lexeme.Longest after := by
  cases after with
  | nil => exact h.longest_nil
  | cons c after => exact h.longest_nil.before_separator (hafter c List.mem_cons_self) after

/-- Directly before another lexeme what is written is the longest unless the two merge. -/
theorem Legal.longest_text_append_iff {lexeme next : Lexeme} (h : lexeme.Legal)
    (hnext : next.Legal) (after : List Char) :
    lexeme.Longest (next.text ++ after) ↔ ¬lexeme.Merges next := by
  cases lexeme with
  | number literal =>
    cases next with
    | number literal' =>
      obtain ⟨c, digits, rfl⟩ := List.exists_cons_of_ne_nil hnext.1
      exact iff_of_false (fun hlongest ↦ hlongest.2.2 c rfl (hnext.2 c List.mem_cons_self))
        (not_not_intro (.numbers _ _))
    | endOfInput => exact hnext.elim
    | _ => exact iff_of_true ⟨h.1, h.2, by rintro c ⟨⟩; decide⟩ nofun
  | star =>
    cases next with
    | number literal' =>
      obtain ⟨c, digits, rfl⟩ := List.exists_cons_of_ne_nil hnext.1
      refine iff_of_true (fun hstar ↦ ?_) nofun
      obtain rfl : c = '*' := Option.some.inj hstar
      exact absurd (hnext.2 '*' List.mem_cons_self) (by decide)
    | star => exact iff_of_false (fun hstar ↦ hstar rfl) (not_not_intro .stars)
    | doubleStar => exact iff_of_false (fun hstar ↦ hstar rfl) (not_not_intro .power)
    | endOfInput => exact hnext.elim
    | _ => exact iff_of_true (by rintro ⟨⟩) nofun
  | endOfInput => exact h.elim
  | _ => exact iff_of_true trivial nofun

end Lexeme

namespace Item

theorem listFrom_append_of_isWhitespace {gap : List Char}
    (h : ∀ c ∈ gap, c.isWhitespace = true) (offset : Nat) (text : List Char) :
    listFrom offset (gap ++ text) = listFrom (offset + Text.size gap) text := by
  induction gap generalizing offset with
  | nil => rfl
  | cons c gap ih =>
    rw [List.cons_append, listFrom_cons_of_isWhitespace (h c List.mem_cons_self),
      ih fun d hd ↦ h d (List.mem_cons_of_mem c hd), Text.size_cons, Nat.add_assoc]

/-- A token is the first item if only separators stand before it, and the others are those of the
text behind it. -/
theorem listFrom_eq_token_cons_iff {start offset : Nat} {text : List Char} {lexeme : Lexeme}
    {items : List Item} :
    listFrom start text = .token ⟨lexeme, offset⟩ :: items ↔
      ∃ before after, text = before ++ (lexeme.text ++ after) ∧
        (∀ c ∈ before, c.isWhitespace = true) ∧ offset = start + Text.size before ∧
        lexeme.Longest after ∧ listFrom (offset + Text.size lexeme.text) after = items := by
  constructor
  · intro h
    induction text generalizing start with
    | nil =>
      rw [listFrom_nil] at h
      cases h
    | cons c rest ih =>
      by_cases hc : c.isWhitespace = true
      · rw [listFrom_cons_of_isWhitespace hc] at h
        obtain ⟨before, after, rfl, hbefore, rfl, hafter⟩ := ih h
        refine ⟨c :: before, after, rfl, List.forall_mem_cons.mpr ⟨hc, hbefore⟩, ?_, hafter⟩
        rw [Text.size_cons, Nat.add_assoc]
      · rw [listFrom_cons_of_not_isWhitespace hc] at h
        obtain ⟨hitem, hitems⟩ := List.cons.inj h
        obtain ⟨htext, hoffset, hlongest⟩ := (munch_eq_iff hc).mp (Prod.ext hitem rfl)
        rw [hitem, stop_span] at hitems
        exact ⟨[], _, htext.symm, List.forall_mem_nil _, hoffset, hlongest, hitems⟩
  · rintro ⟨before, after, rfl, hbefore, rfl, hlongest, rfl⟩
    rw [listFrom_append_of_isWhitespace hbefore, listFrom_text_append hlongest]

theorem listFrom_eq_nil_iff {start : Nat} {text : List Char} :
    listFrom start text = [] ↔ ∀ c ∈ text, c.isWhitespace = true := by
  constructor
  · intro h
    induction text generalizing start with
    | nil => exact List.forall_mem_nil _
    | cons c rest ih =>
      by_cases hc : c.isWhitespace = true
      · rw [listFrom_cons_of_isWhitespace hc] at h
        exact List.forall_mem_cons.mpr ⟨hc, ih h⟩
      · rw [listFrom_cons_of_not_isWhitespace hc] at h
        cases h
  · intro h
    have hlist := listFrom_append_of_isWhitespace h start []
    rwa [List.append_nil, listFrom_nil] at hlist

theorem listFrom_text_append_eq_cons_iff {lexeme : Lexeme} {offset : Nat} {after : List Char}
    {items : List Item} :
    listFrom offset (lexeme.text ++ after) = .token ⟨lexeme, offset⟩ :: items ↔
      lexeme.Longest after ∧ listFrom (offset + Text.size lexeme.text) after = items := by
  constructor
  · intro hlist
    obtain ⟨before, rest, htext, -, hoffset, hitem⟩ := listFrom_eq_token_cons_iff.mp hlist
    -- the item begins where the text begins, so what is left is what was behind it
    obtain rfl : before = [] := Text.size_eq_zero_iff.mp (by omega)
    rwa [List.append_cancel_left htext]
  · rintro ⟨hlongest, rfl⟩
    exact listFrom_text_append hlongest offset

end Item

/-! ## Layouts -/

/-- A lexeme to be written, and the separators before it. -/
structure Spaced where
  /-- The separators. -/
  gap : List Char
  /-- The lexeme. -/
  lexeme : Lexeme
  blank : ∀ c ∈ gap, c.isWhitespace = true
  legal : lexeme.Legal

/-- Lexemes with separators before each of them, and separators behind the last. -/
structure Layout where
  /-- The lexemes. -/
  words : List Spaced
  /-- The separators behind the last of them. -/
  last : List Char
  blank : ∀ c ∈ last, c.isWhitespace = true

namespace Spaced

/-- What is written of a lexeme. -/
def text (word : Spaced) : List Char := word.gap ++ word.lexeme.text

/-- Where two lexemes merge there is a separator between them. -/
def Apart (word next : Spaced) : Prop := word.lexeme.Merges next.lexeme → next.gap ≠ []

/-- The tokens of lexemes that are written from an offset on: each begins behind all that is written
before it. -/
def placed (offset : Nat) (words : List Spaced) : List Token :=
  words.mapIdx fun k word ↦
    ⟨word.lexeme, offset + Text.size ((words.take k).flatMap text ++ word.gap)⟩

theorem placed_cons (offset : Nat) (word : Spaced) (words : List Spaced) :
    placed offset (word :: words)
      = ⟨word.lexeme, offset + Text.size word.gap⟩
        :: placed (offset + Text.size word.text) words := by
  rw [placed, List.mapIdx_cons]
  simp [placed, Nat.add_assoc]

@[simp] theorem map_lexeme_placed (offset : Nat) (words : List Spaced) :
    (placed offset words).map Token.lexeme = words.map lexeme := by
  induction words generalizing offset with
  | nil => rfl
  | cons word words ih => rw [placed_cons, List.map_cons, ih, List.map_cons]

theorem isChain_apart_of_gap_ne_nil {words : List Spaced}
    (h : ∀ word ∈ words.tail, word.gap ≠ []) : words.IsChain Apart := by
  induction words with
  | nil => exact .nil
  | cons word words ih =>
    refine List.isChain_cons.mpr ⟨fun next hnext _ ↦ h next (List.mem_of_mem_head? hnext), ?_⟩
    exact ih fun other hother ↦ h other (List.mem_of_mem_tail hother)

/-- Before more that is written, a lexeme is the longest if it stands apart from the next. -/
theorem longest_iff (word : Spaced) (words : List Spaced) {last : List Char}
    (hlast : ∀ c ∈ last, c.isWhitespace = true) :
    word.lexeme.Longest (words.flatMap text ++ last) ↔ ∀ next ∈ words.head?, word.Apart next := by
  cases words with
  | nil => exact iff_of_true (word.legal.longest_of_isWhitespace hlast) nofun
  | cons next words =>
    rw [List.flatMap_cons, text, List.append_assoc, List.append_assoc, List.head?_cons]
    simp only [Option.mem_def, Option.some.injEq, forall_eq', Apart]
    cases hgap : next.gap with
    | nil => simp [word.legal.longest_text_append_iff next.legal]
    | cons c gap =>
      have hc := next.blank c (hgap ▸ List.mem_cons_self)
      exact iff_of_true (word.legal.longest_nil.before_separator hc _)
        fun _ ↦ List.cons_ne_nil c gap

/-- **Written and read.** What is written is read as it was put just if it stands apart. -/
theorem listFrom_eq_placed_iff (words : List Spaced) {last : List Char}
    (hlast : ∀ c ∈ last, c.isWhitespace = true) (offset : Nat) :
    Item.listFrom offset (words.flatMap text ++ last) = (placed offset words).map Item.token ↔
      words.IsChain Apart := by
  induction words generalizing offset with
  | nil => exact iff_of_true (Item.listFrom_eq_nil_iff.mpr hlast) .nil
  | cons word words ih =>
    rw [List.flatMap_cons, text, List.append_assoc, List.append_assoc,
      Item.listFrom_append_of_isWhitespace word.blank, placed_cons, List.map_cons,
      Item.listFrom_text_append_eq_cons_iff, word.longest_iff words hlast,
      List.isChain_cons, text, Text.size_append, ← Nat.add_assoc, ih]

end Spaced

namespace Layout

/-- What is written. -/
def text (layout : Layout) : String :=
  String.ofList (layout.words.flatMap Spaced.text ++ layout.last)

/-- The tokens in it, if each lexeme is read as it was written. -/
def tokens (layout : Layout) : List Token := Spaced.placed 0 layout.words

theorem listing_eq_iff (layout : Layout) (name : Option String) :
    (Lexer.ofSource ⟨name, layout.text⟩).listing = layout.tokens.map Except.ok ↔
      layout.words.IsChain Spaced.Apart := by
  rw [Lexer.listing_ofSource_eq_map_ok_iff, Source.items, text, String.toList_ofList]
  exact Spaced.listFrom_eq_placed_iff layout.words layout.blank 0

/-- Lexemes with one space between any two. -/
def spaced (lexemes : List Lexeme) (h : ∀ lexeme ∈ lexemes, lexeme.Legal) : Layout where
  words :=
    match lexemes, h with
    | [], _ => []
    | lexeme :: lexemes, h =>
      ⟨[], lexeme, nofun, h lexeme List.mem_cons_self⟩
        :: lexemes.pmap
            (fun next hnext ↦ ⟨[' '], next, List.forall_mem_singleton.mpr rfl, hnext⟩)
            fun next hnext ↦ h next (List.mem_cons_of_mem lexeme hnext)
  last := []
  blank := nofun

/-- The texts of lexemes with one space between any two. -/
def joined (lexemes : List Lexeme) : String :=
  " ".intercalate (lexemes.map fun lexeme ↦ String.ofList lexeme.text)

theorem toList_joined_cons (lexeme : Lexeme) (lexemes : List Lexeme) :
    (joined (lexeme :: lexemes)).toList
      = lexeme.text ++ lexemes.flatMap fun next ↦ ' ' :: next.text := by
  induction lexemes generalizing lexeme with
  | nil => simp [joined]
  | cons next lexemes ih =>
    have hnext := ih next
    simp only [joined, List.map_cons, String.toList_intercalate] at hnext ⊢
    rw [List.intercalate_cons_cons, hnext, List.flatMap_cons]
    simp

section

variable {lexemes : List Lexeme} (h : ∀ lexeme ∈ lexemes, lexeme.Legal)

theorem text_spaced : (spaced lexemes h).text = joined lexemes := by
  rw [← String.toList_inj]
  cases lexemes with
  | nil => rfl
  | cons lexeme lexemes =>
    rw [toList_joined_cons]
    simp [text, spaced, Spaced.text, List.flatMap_def, List.map_pmap]

theorem map_lexeme_spaced : (spaced lexemes h).words.map Spaced.lexeme = lexemes := by
  cases lexemes with
  | nil => rfl
  | cons lexeme lexemes => simp [spaced, List.map_pmap]

theorem isChain_spaced : (spaced lexemes h).words.IsChain Spaced.Apart := by
  refine Spaced.isChain_apart_of_gap_ne_nil ?_
  cases lexemes with
  | nil => exact nofun
  | cons lexeme lexemes =>
    intro word hword
    obtain ⟨next, -, rfl⟩ := List.mem_pmap.mp hword
    exact List.cons_ne_nil _ _

include h in
/-- Lexemes are read again if there is a space between any two. -/
theorem exists_listing_joined (name : Option String) :
    ∃ tokens : List Token, (Lexer.ofSource ⟨name, joined lexemes⟩).listing = tokens.map Except.ok ∧
      tokens.map Token.lexeme = lexemes := by
  refine ⟨(spaced lexemes h).tokens, ?_, ?_⟩
  · rw [← text_spaced h]
    exact (listing_eq_iff _ name).mpr (isChain_spaced h)
  · rw [tokens, Spaced.map_lexeme_placed, map_lexeme_spaced h]

end

end Layout

/-! ## The text of a listing -/

theorem printListing_map_ok (tokens : List Token) :
    printListing (tokens.map Except.ok)
      = { exitCode := Outcome.success
          output := String.join ((tokens.map Token.lexeme ++ [Lexeme.endOfInput]).map
            fun lexeme : Lexeme ↦ lexeme.display ++ "\n")
          reports := [] } := by
  induction tokens with
  | nil => rfl
  | cons token tokens ih =>
    rw [List.map_cons, printListing, ih, List.map_cons, List.cons_append, List.map_cons,
      String.join_cons]

example : (tokenizeCommand "(1+2)-3*4/5**6").output
    = "LEFT_PAREN (\nNUMBER 1\nPLUS +\nNUMBER 2\nRIGHT_PAREN )\nMINUS -\nNUMBER 3\nSTAR *\n"
      ++ "NUMBER 4\nSLASH /\nNUMBER 5\nDOUBLE_STAR **\nNUMBER 6\nEOF\n" := by
  decide +kernel

theorem Source.legal_of_mem_items {source : Source} {t : Token} (h : .token t ∈ source.items) :
    t.lexeme.Legal := by
  obtain ⟨after, hlongest⟩ := longest_of_mem_items h
  exact hlongest.legal

namespace Lexer

/-- **Writing and listing.** Lexemes that are written one after another, with separators before,
between and behind them, are listed as they were put, each behind all that is written before it,
just if there is a separator wherever two of them merge. So what was listed can be written again
with one space between any two lexemes: that is listed with the same lexemes, and printed alike. -/
theorem listing_layout (layout : Layout) (name : Option String) :
    ((ofSource ⟨name, layout.text⟩).listing = layout.tokens.map Except.ok ↔
        layout.words.IsChain Spaced.Apart) ∧
      ∀ (text : String) (tokens : List Token),
        (ofSource ⟨name, text⟩).listing = tokens.map Except.ok →
          (∃ tokens' : List Token,
            (ofSource ⟨name, Layout.joined (tokens.map Token.lexeme)⟩).listing
                = tokens'.map Except.ok ∧
              tokens'.map Token.lexeme = tokens.map Token.lexeme) ∧
          tokenizeCommand (Layout.joined (tokens.map Token.lexeme)) = tokenizeCommand text := by
  refine ⟨layout.listing_eq_iff name, fun text tokens htokens ↦ ?_⟩
  have hitems := listing_ofSource_eq_map_ok_iff.mp htokens
  have hlegal : ∀ lexeme ∈ tokens.map Token.lexeme, lexeme.Legal := by
    intro lexeme hlexeme
    obtain ⟨token, htoken, rfl⟩ := List.mem_map.mp hlexeme
    exact Source.legal_of_mem_items (hitems ▸ List.mem_map_of_mem htoken)
  refine ⟨Layout.exists_listing_joined hlegal name, ?_⟩
  -- the name of the source makes no difference to its tokens
  have hnone : (ofSource ⟨none, text⟩).listing = tokens.map Except.ok :=
    listing_ofSource_eq_map_ok_iff.mpr hitems
  obtain ⟨tokens', hlisting, hlexemes⟩ := Layout.exists_listing_joined hlegal none
  rw [tokenizeCommand, tokenizeCommand, hlisting, hnone, printListing_map_ok, printListing_map_ok,
    hlexemes]

/-- A star written directly before a power is not listed as such: the stars are taken from the left.
What is listed instead is printed alike with a space in between. -/
theorem listing_layout_stars :
    (ofSource ⟨none, "***"⟩).listing ≠ [.ok ⟨.star, 0⟩, .ok ⟨.doubleStar, 1⟩] ∧
      (ofSource ⟨none, "***"⟩).listing = [.ok ⟨.doubleStar, 0⟩, .ok ⟨.star, 2⟩] ∧
      tokenizeCommand "** *" = tokenizeCommand "***" := by
  let layout : Layout :=
    ⟨[⟨[], .star, nofun, trivial⟩, ⟨[], .doubleStar, nofun, trivial⟩], [], nofun⟩
  have hlisting : (ofSource ⟨none, "***"⟩).listing
      = [⟨.doubleStar, 0⟩, ⟨.star, 2⟩].map Except.ok :=
    listing_ofSource_eq_map_ok_iff.mpr (by decide +kernel)
  obtain ⟨happart, hjoined⟩ := listing_layout layout none
  refine ⟨fun hstars ↦ ?_, hlisting, (hjoined "***" _ hlisting).2⟩
  exact (List.isChain_cons_cons.mp (happart.mp hstars)).1 .power rfl

end Lexer

end Calculator
