import Calculator.Proofs.Lexing.Partition

/-!
# The kinds of items

An item is what was read and the place where it stands. What was read is its *kind*: a lexeme, or a
character that is in none. The kinds of a source say everything of it but its spacing. The end of
the input counts as met in the end, behind everything else.

## Places

The places increase, so each belongs to one item or to the end.

## Spelling

Lexemes that were read somewhere can be read one after another: a space after each of them keeps
them apart (`Lexeme.spell`).
-/

namespace Calculator

/-- What is met in a text, wherever it stands. -/
inductive Kind where
  | word (lexeme : Lexeme)
  | stray (character : Char)
  deriving DecidableEq, Repr

/-- The kind of an item. -/
def Item.kind : Item → Kind
  | token t => .word t.lexeme
  | stray c _ => .stray c

namespace Source

/-- The kinds of what is met in a source, the end of the input included. -/
def kinds (source : Source) : List Kind := source.items.map Item.kind ++ [.word .endOfInput]

/-- Where it is met. -/
def places (source : Source) : List Nat :=
  (source.items.map fun item ↦ item.span.offset) ++ [source.text.utf8ByteSize]

theorem length_places (source : Source) : source.places.length = source.items.length + 1 := by
  rw [places, List.length_append, List.length_map, List.length_singleton]

end Source

/-! ## Places -/

theorem Item.PlacedIn.stop_le {start : Nat} {text : List Char} {item : Item}
    (h : item.PlacedIn start text) : item.span.stop ≤ start + Text.size text := by
  obtain ⟨before, after, rfl, hoffset, -⟩ := h
  rw [Item.stop_span, hoffset, Text.size_append, Text.size_append]
  omega

/-- Everything is met behind what was met before. -/
theorem Source.pairwise_places (source : Source) : source.places.Pairwise (· < ·) := by
  have hpartition := Partition.listFrom 0 source.text.toList
  have hlt : ∀ item ∈ source.items, item.span.offset < item.span.stop := fun item hitem ↦
    (hpartition.placed item hitem).lt_stop
  rw [places, List.pairwise_append, List.pairwise_map]
  refine ⟨hpartition.increasing.imp_of_mem fun hitem _ hle ↦ Nat.lt_of_lt_of_le (hlt _ hitem) hle,
    List.pairwise_singleton _ _, ?_⟩
  intro place hplace last hlast
  obtain ⟨item, hitem, rfl⟩ := List.mem_map.mp hplace
  have hle := (hpartition.placed item hitem).stop_le
  rw [List.mem_singleton.mp hlast, ← source.finish_eq, finish]
  rw [Nat.zero_add] at hle
  exact Nat.lt_of_lt_of_le (hlt item hitem) hle

theorem Source.getElem?_places_iff {source : Source} {k place : Nat}
    (h : source.places[k]? = some place) (j : Nat) : source.places[j]? = some place ↔ j = k := by
  have hnodup : source.places.Nodup := source.pairwise_places.imp Nat.ne_of_lt
  constructor
  · intro hj
    obtain ⟨hlt, -⟩ := List.getElem?_eq_some_iff.mp hj
    exact (List.getElem?_inj hlt hnodup).mp (hj.trans h.symm)
  · rintro rfl
    exact h

/-! ## Spelling -/

/-- Lexemes with a space after each. -/
def Lexeme.spell (lexemes : List Lexeme) : List Char :=
  lexemes.flatMap fun lexeme ↦ lexeme.text ++ [' ']

theorem Lexeme.Longest.before_separator {lexeme : Lexeme} {after : List Char}
    (h : lexeme.Longest after) {c : Char} (hc : c.isWhitespace = true) (rest : List Char) :
    lexeme.Longest (c :: rest) := by
  simp only [Char.isWhitespace, Bool.or_eq_true, decide_eq_true_eq] at hc
  cases lexeme with
  | number literal =>
    refine ⟨h.1, h.2.1, ?_⟩
    rintro d ⟨rfl⟩
    rcases hc with ((rfl | rfl) | rfl) | rfl <;> decide
  | star =>
    rintro ⟨rfl⟩
    rcases hc with ((hc | hc) | hc) | hc <;> cases hc
  | endOfInput => exact h
  | _ => trivial

namespace Item

theorem listFrom_text_append {lexeme : Lexeme} {after : List Char} (h : lexeme.Longest after)
    (offset : Nat) :
    listFrom offset (lexeme.text ++ after)
      = .token ⟨lexeme, offset⟩ :: listFrom (offset + Text.size lexeme.text) after := by
  obtain ⟨hne, hblank⟩ := h.not_isWhitespace
  obtain ⟨c, rest, hc⟩ := List.exists_cons_of_ne_nil hne
  have hmunch := munch_of_some
    (Lexeme.munch?_eq_some_iff.mpr ⟨by rw [hc, List.cons_append], h⟩) offset
  rw [hc, List.cons_append, listFrom_cons_of_not_isWhitespace (hblank c (hc ▸ List.mem_cons_self)),
    hmunch, ← hc]
  rfl

theorem map_kind_listFrom_spell {lexemes : List Lexeme}
    (h : ∀ lexeme ∈ lexemes, ∃ after, lexeme.Longest after) (offset : Nat) :
    (listFrom offset (Lexeme.spell lexemes)).map kind = lexemes.map Kind.word := by
  induction lexemes generalizing offset with
  | nil => simp [Lexeme.spell]
  | cons lexeme lexemes ih =>
    obtain ⟨after, hlongest⟩ := h lexeme List.mem_cons_self
    have hspell : Lexeme.spell (lexeme :: lexemes)
        = lexeme.text ++ ' ' :: Lexeme.spell lexemes := by
      simp [Lexeme.spell]
    rw [hspell, listFrom_text_append (hlongest.before_separator (by decide) _),
      listFrom_cons_of_isWhitespace (by decide), List.map_cons, List.map_cons,
      ih fun other hother ↦ h other (List.mem_cons_of_mem _ hother)]
    rfl

end Item

namespace Source

theorem longest_of_mem_items {source : Source} {t : Token} (h : .token t ∈ source.items) :
    ∃ after, t.lexeme.Longest after := by
  obtain ⟨before, after, -, -, hlongest⟩ :=
    (Partition.listFrom 0 source.text.toList).placed _ h
  exact ⟨after, hlongest⟩

/-- There is a source of every sequence of lexemes. -/
theorem exists_map_kind_items_eq {lexemes : List Lexeme}
    (h : ∀ lexeme ∈ lexemes, ∃ after, lexeme.Longest after) :
    ∃ source : Source, source.items.map Item.kind = lexemes.map Kind.word := by
  refine ⟨⟨none, String.ofList (Lexeme.spell lexemes)⟩, ?_⟩
  rw [items, String.toList_ofList]
  exact Item.map_kind_listFrom_spell h 0

end Source

end Calculator
