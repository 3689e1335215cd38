import Calculator.Proofs.Lexing.Items

/-!
# The items partition the text

Every byte of a text either belongs to exactly one item or separates items. `Partition` says so
without reference to the way in which a text is scanned: the items cover stretches one after
another, each reads what stands in its stretch and is the longest lexeme there, and a byte lies
outside of all stretches just if it is one of the four separators. The conditions leave no choice:
the items of a text are the only list that fulfils them (`Partition.iff_eq_listFrom`).

## Moving along the text

Both directions go along the text from its beginning, once past a separator and once past an item.
Either way a piece is cut off the front of the text, and all that is needed is how the conditions
move across such a cut.
-/

namespace Calculator

namespace Text

/-- The bytes of a text in UTF-8. -/
def bytes (text : List Char) : List UInt8 := text.flatMap String.utf8EncodeChar

/-- The bytes that separate items: space, tab, newline and carriage return. -/
def separators : List UInt8 := [0x20, 0x09, 0x0A, 0x0D]

@[simp] theorem bytes_nil : bytes [] = [] := rfl

theorem bytes_cons (c : Char) (text : List Char) :
    bytes (c :: text) = String.utf8EncodeChar c ++ bytes text := List.flatMap_cons

theorem bytes_append (s t : List Char) : bytes (s ++ t) = bytes s ++ bytes t :=
  List.flatMap_append

theorem length_bytes (text : List Char) : (bytes text).length = size text := by
  induction text with
  | nil => rfl
  | cons c text ih =>
    rw [bytes_cons, List.length_append, String.length_utf8EncodeChar, ih, size_cons]

theorem bytes_toList (s : String) : bytes s.toList = s.toUTF8.data.toList := by
  rw [String.toUTF8_eq_toByteArray, ← String.utf8Encode_toList, List.utf8Encode,
    List.toList_data_toByteArray, bytes]

theorem size_eq_zero_iff {text : List Char} : size text = 0 ↔ text = [] := by
  cases text with
  | nil => simp
  | cons c text =>
    have := Char.utf8Size_pos c
    simp only [size_cons, reduceCtorEq, iff_false]
    omega

theorem utf8EncodeChar_of_isWhitespace {c : Char} (h : c.isWhitespace = true) :
    ∃ b ∈ separators, String.utf8EncodeChar c = [b] := by
  simp only [Char.isWhitespace, Bool.or_eq_true, decide_eq_true_eq] at h
  rcases h with ((rfl | rfl) | rfl) | rfl
  · exact ⟨0x20, by decide, by decide⟩
  · exact ⟨0x09, by decide, by decide⟩
  · exact ⟨0x0D, by decide, by decide⟩
  · exact ⟨0x0A, by decide, by decide⟩

/-- In UTF-8 a byte of ASCII stands for its own character alone: the bytes of a character beyond
ASCII are all greater. -/
theorem toNat_eq_of_mem_utf8EncodeChar {c : Char} {b : UInt8} (hb : b ∈ String.utf8EncodeChar c)
    (hascii : b.toNat < 0x80) : c.toNat = b.toNat := by
  change c.val.toNat = b.toNat
  unfold String.utf8EncodeChar at hb
  dsimp only at hb
  repeat' split at hb
  all_goals
    simp only [List.mem_cons, List.not_mem_nil, or_false, ← UInt8.toNat_inj,
      UInt8.toNat_ofNat'] at hb
    omega

theorem not_mem_separators_of_mem_utf8EncodeChar {c : Char} (h : ¬c.isWhitespace = true) {b : UInt8}
    (hb : b ∈ String.utf8EncodeChar c) : b ∉ separators := by
  intro hmem
  have hb' : b.toNat ∈ [0x20, 0x09, 0x0A, 0x0D] := List.mem_map_of_mem (f := UInt8.toNat) hmem
  simp only [List.mem_cons, List.not_mem_nil, or_false] at hb'
  have hc := toNat_eq_of_mem_utf8EncodeChar hb (by omega)
  simp only [Char.isWhitespace, Bool.or_eq_true, decide_eq_true_eq, not_or, ← Char.toNat_inj] at h
  have hne : c.toNat ≠ 0x20 ∧ c.toNat ≠ 0x09 ∧ c.toNat ≠ 0x0D ∧ c.toNat ≠ 0x0A :=
    ⟨h.1.1.1, h.1.1.2, h.1.2, h.2⟩
  omega

end Text

/-- Whether a stretch covers a byte. -/
def Span.Covers (span : Span) (i : Nat) : Prop := span.offset ≤ i ∧ i < span.stop

namespace Lexeme

/-- Whether a lexeme is the longest that could be read where it stands, before the text `after`. -/
def Longest (after : List Char) : Lexeme → Prop
  | number literal =>
    literal ≠ [] ∧ (∀ c ∈ literal, Numeral.isNumeralChar c = true) ∧
      ∀ c ∈ after.head?, ¬Numeral.isNumeralChar c = true
  | star => after.head? ≠ some '*'
  | plus | minus | slash | doubleStar | leftParen | rightParen => True
  | endOfInput => False

/-- The characters that lexemes are made of. -/
def IsLexemeChar (c : Char) : Prop :=
  Numeral.isNumeralChar c = true ∨ c ∈ ['+', '-', '*', '/', '(', ')']

theorem munch?_of_isNumeralChar {c : Char} (h : Numeral.isNumeralChar c = true)
    (rest : List Char) :
    munch? c rest = some (number (c :: rest.takeWhile Numeral.isNumeralChar),
      rest.dropWhile Numeral.isNumeralChar) := by
  have hnone : ∀ d ∈ ['+', '-', '*', '/', '(', ')'], ¬Numeral.isNumeralChar d = true := by
    simp [Numeral.isNumeralChar, Char.isDigit]
  have hne : ∀ d ∈ ['+', '-', '*', '/', '(', ')'], c ≠ d := by
    rintro _ hd rfl
    exact hnone c hd h
  simp only [List.mem_cons, List.not_mem_nil, or_false, forall_eq_or_imp, forall_eq] at hne
  simp only [munch?, hne, h, if_false, if_true]

theorem munch?_star {rest : List Char} (h : rest.head? ≠ some '*') :
    munch? '*' rest = some (star, rest) := by
  unfold munch?
  split
  · next h => cases h
  · split
    · next h => cases h
    · split
      · split
        · exact absurd rfl h
        · rfl
      · next hne => exact absurd rfl hne

theorem munch?_eq_some_iff_munches {c : Char} {rest : List Char} {lexeme : Lexeme}
    {after : List Char} : munch? c rest = some (lexeme, after) ↔ Munches c rest lexeme after := by
  refine ⟨munches_of_munch?, fun h ↦ ?_⟩
  cases h with
  | star h => exact munch?_star h
  | number h => exact munch?_of_isNumeralChar h rest
  | _ => rfl

theorem longest_number {c : Char} (h : Numeral.isNumeralChar c = true) (rest : List Char) :
    (number (c :: rest.takeWhile Numeral.isNumeralChar)).Longest
      (rest.dropWhile Numeral.isNumeralChar) := by
  refine ⟨List.cons_ne_nil _ _, List.forall_mem_cons.mpr ⟨h, ?_⟩, fun d hd ↦ ?_⟩
  · exact fun d hd ↦ List.all_eq_true.mp List.all_takeWhile d hd
  · have hhead := List.head?_dropWhile_not Numeral.isNumeralChar rest
    rw [Option.mem_def.mp hd] at hhead
    simpa using hhead

theorem Munches.longest {c : Char} {rest : List Char} {lexeme : Lexeme} {after : List Char}
    (h : Munches c rest lexeme after) : lexeme.Longest after := by
  cases h with
  | star hhead => exact hhead
  | number hc => exact longest_number hc rest
  | _ => trivial

theorem munches_number {c : Char} {digits after : List Char}
    (h : (number (c :: digits)).Longest after) :
    Munches c (digits ++ after) (number (c :: digits)) after := by
  obtain ⟨-, hall, hafter⟩ := h
  obtain ⟨hc, hdigits⟩ := List.forall_mem_cons.mp hall
  have hstop : after.takeWhile Numeral.isNumeralChar = [] ∧
      after.dropWhile Numeral.isNumeralChar = after := by
    cases after with
    | nil => exact ⟨rfl, rfl⟩
    | cons a after =>
      have ha := hafter a rfl
      exact ⟨List.takeWhile_cons_of_neg ha, List.dropWhile_cons_of_neg ha⟩
  have hmunches := @Munches.number c (digits ++ after) hc
  rwa [List.takeWhile_append_of_pos hdigits, List.dropWhile_append_of_pos hdigits, hstop.1,
    hstop.2, List.append_nil] at hmunches

/-- The lexeme at the head of a text is the one that is there and could not be longer. -/
theorem munch?_eq_some_iff {c : Char} {rest : List Char} {lexeme : Lexeme} {after : List Char} :
    munch? c rest = some (lexeme, after) ↔
      lexeme.text ++ after = c :: rest ∧ lexeme.Longest after := by
  constructor
  · intro h
    exact ⟨text_append_of_munch? h, (munches_of_munch? h).longest⟩
  · rintro ⟨htext, hlongest⟩
    refine munch?_eq_some_iff_munches.mpr ?_
    cases lexeme with
    | number literal =>
      obtain ⟨d, digits, rfl⟩ := List.exists_cons_of_ne_nil hlongest.1
      cases htext
      exact munches_number hlongest
    | star =>
      cases htext
      exact .star hlongest
    | endOfInput => exact hlongest.elim
    | plus | minus | doubleStar | slash | leftParen | rightParen =>
      cases htext
      constructor

theorem Munches.isLexemeChar {c : Char} {rest : List Char} {lexeme : Lexeme} {after : List Char}
    (h : Munches c rest lexeme after) : IsLexemeChar c := by
  cases h with
  | number h => exact .inl h
  | _ => exact .inr (by decide)

theorem exists_munches {c : Char} (h : IsLexemeChar c) (rest : List Char) :
    ∃ lexeme after, Munches c rest lexeme after := by
  rcases h with h | h
  · exact ⟨_, _, .number h⟩
  simp only [List.mem_cons, List.not_mem_nil, or_false] at h
  rcases h with rfl | rfl | rfl | rfl | rfl | rfl
  · exact ⟨_, _, .plus rest⟩
  · exact ⟨_, _, .minus rest⟩
  · by_cases hhead : rest.head? = some '*'
    · obtain ⟨rest, rfl⟩ := List.head?_eq_some_iff.mp hhead
      exact ⟨_, _, .doubleStar rest⟩
    · exact ⟨_, _, .star hhead⟩
  · exact ⟨_, _, .slash rest⟩
  · exact ⟨_, _, .leftParen rest⟩
  · exact ⟨_, _, .rightParen rest⟩

theorem munch?_eq_none_iff {c : Char} {rest : List Char} :
    munch? c rest = none ↔ ¬IsLexemeChar c := by
  constructor
  · intro h hc
    obtain ⟨lexeme, after, hmunches⟩ := exists_munches hc rest
    rw [munch?_eq_some_iff_munches.mpr hmunches] at h
    cases h
  · intro hc
    cases h : munch? c rest with
    | none => rfl
    | some found => exact absurd (munches_of_munch? h).isLexemeChar hc

theorem Longest.not_isWhitespace {lexeme : Lexeme} {after : List Char} (h : lexeme.Longest after) :
    lexeme.text ≠ [] ∧ ∀ c ∈ lexeme.text, ¬c.isWhitespace = true := by
  cases lexeme with
  | number literal =>
    refine ⟨h.1, fun c hc hblank ↦ ?_⟩
    have hnumeral := h.2.1 c hc
    simp only [Char.isWhitespace, Bool.or_eq_true, decide_eq_true_eq] at hblank
    rcases hblank with ((rfl | rfl) | rfl) | rfl
    all_goals cases hnumeral
  | endOfInput => exact h.elim
  | _ => exact ⟨List.cons_ne_nil _ _, by simp [text, Char.isWhitespace]⟩

end Lexeme

/-! ## Partitions -/

namespace Item

/-- Whether an item is what has to be read where it stands, before the text `after`. -/
def Longest (after : List Char) : Item → Prop
  | token t => t.lexeme.Longest after
  | stray c _ => ¬c.isWhitespace = true ∧ ¬Lexeme.IsLexemeChar c

/-- Whether an item reads what stands in its stretch of a text that begins at `start`. -/
def PlacedIn (start : Nat) (text : List Char) (item : Item) : Prop :=
  ∃ before after, text = before ++ (item.text ++ after) ∧
    item.span.offset = start + Text.size before ∧ item.Longest after

theorem Longest.not_isWhitespace {item : Item} {after : List Char} (h : item.Longest after) :
    item.text ≠ [] ∧ ∀ c ∈ item.text, ¬c.isWhitespace = true := by
  cases item with
  | token t => exact Lexeme.Longest.not_isWhitespace h
  | stray c offset =>
    refine ⟨List.cons_ne_nil _ _, fun d hd ↦ ?_⟩
    rw [List.mem_singleton.mp hd]
    exact h.1

theorem munch_eq_iff {c : Char} (hc : ¬c.isWhitespace = true) {offset : Nat} {rest : List Char}
    {item : Item} {after : List Char} :
    munch offset c rest = (item, after) ↔
      item.text ++ after = c :: rest ∧ item.span.offset = offset ∧ item.Longest after := by
  constructor
  · intro h
    have htext := text_append_munch offset c rest
    have hoffset := offset_munch offset c rest
    rw [h] at htext hoffset
    refine ⟨htext, hoffset, ?_⟩
    cases hmunch : Lexeme.munch? c rest with
    | none =>
      rw [munch_of_none hmunch] at h
      cases h
      exact ⟨hc, Lexeme.munch?_eq_none_iff.mp hmunch⟩
    | some found =>
      rw [munch_of_some hmunch] at h
      cases h
      exact (Lexeme.munch?_eq_some_iff.mp hmunch).2
  · rintro ⟨htext, rfl, hlongest⟩
    cases item with
    | token t => exact munch_of_some (Lexeme.munch?_eq_some_iff.mpr ⟨htext, hlongest⟩) _
    | stray d offset =>
      cases htext
      exact munch_of_none (Lexeme.munch?_eq_none_iff.mpr hlongest.2) _

/-! ### Across a cut -/

theorem PlacedIn.append {start : Nat} (piece : List Char) {text : List Char} {item : Item}
    (h : item.PlacedIn (start + Text.size piece) text) : item.PlacedIn start (piece ++ text) := by
  obtain ⟨before, after, rfl, hoffset, hlongest⟩ := h
  refine ⟨piece ++ before, after, by rw [List.append_assoc], ?_, hlongest⟩
  rw [hoffset, Text.size_append, Nat.add_assoc]

theorem PlacedIn.of_append {start : Nat} (piece : List Char) {text : List Char} {item : Item}
    (h : item.PlacedIn start (piece ++ text))
    (hle : start + Text.size piece ≤ item.span.offset) :
    item.PlacedIn (start + Text.size piece) text := by
  obtain ⟨before, after, htext, hoffset, hlongest⟩ := h
  obtain ⟨more, rfl⟩ : ∃ more, before = piece ++ more := by
    rcases List.append_eq_append_iff.mp htext with ⟨more, hbefore, -⟩ | ⟨more, hpiece, -⟩
    · exact ⟨more, hbefore⟩
    · rw [hpiece, Text.size_append, hoffset] at hle
      have hmore : more = [] := Text.size_eq_zero_iff.mp (by omega)
      exact ⟨[], by rw [hpiece, hmore, List.append_nil, List.append_nil]⟩
  rw [List.append_assoc] at htext
  rw [Text.size_append, ← Nat.add_assoc] at hoffset
  exact ⟨more, after, List.append_cancel_left htext, hoffset, hlongest⟩

theorem PlacedIn.start_le {start : Nat} {text : List Char} {item : Item}
    (h : item.PlacedIn start text) : start ≤ item.span.offset := by
  obtain ⟨before, after, -, hoffset, -⟩ := h
  omega

theorem PlacedIn.lt_stop {start : Nat} {text : List Char} {item : Item}
    (h : item.PlacedIn start text) : item.span.offset < item.span.stop := by
  obtain ⟨before, after, -, -, hlongest⟩ := h
  have := mt Text.size_eq_zero_iff.mp hlongest.not_isWhitespace.1
  rw [stop_span]
  omega

end Item

/-- `Partition start text items` says that the items cover all of a text that begins at `start`, but
for its separators. -/
structure Partition (start : Nat) (text : List Char) (items : List Item) : Prop where
  /-- The stretches follow one another, and none is empty. -/
  increasing : items.Pairwise fun a b ↦ a.span.stop ≤ b.span.offset
  /-- Each item is what has to be read in its stretch. -/
  placed : ∀ item ∈ items, item.PlacedIn start text
  /-- A byte is in one of the stretches unless it separates. -/
  covered : ∀ i b, (Text.bytes text)[i]? = some b →
    ((∃ item ∈ items, item.span.Covers (start + i)) ↔ b ∉ Text.separators)

namespace Partition

variable {start : Nat} {piece text : List Char} {items : List Item}

/-- Past a piece of the text, the bytes and the stretches that cover them move on alike. -/
theorem getElem?_bytes_append (piece text : List Char) (i : Nat) :
    (Text.bytes (piece ++ text))[Text.size piece + i]? = (Text.bytes text)[i]? := by
  rw [Text.bytes_append, ← Text.length_bytes, List.getElem?_append_right (Nat.le_add_right _ _),
    Nat.add_sub_cancel_left]

theorem cons_blank {c : Char} {rest : List Char} (hc : c.isWhitespace = true)
    (h : Partition (start + c.utf8Size) rest items) : Partition start (c :: rest) items := by
  obtain ⟨b₀, hb₀, hencode⟩ := Text.utf8EncodeChar_of_isWhitespace hc
  have hsize : c.utf8Size = 1 := by
    rw [← String.length_utf8EncodeChar, hencode]
    rfl
  refine ⟨h.increasing, fun item hitem ↦ (h.placed item hitem).append [c], ?_⟩
  intro i b hb
  rw [Text.bytes_cons, hencode, List.singleton_append] at hb
  cases i with
  | zero =>
    rw [List.getElem?_cons_zero, Option.some.injEq] at hb
    subst hb
    refine iff_of_false ?_ (not_not_intro hb₀)
    rintro ⟨item, hitem, hle, -⟩
    have := (h.placed item hitem).start_le
    omega
  | succ i =>
    rw [List.getElem?_cons_succ] at hb
    have hcovered := h.covered i b hb
    rwa [hsize, Nat.add_assoc, Nat.add_comm 1 i] at hcovered

theorem of_cons_blank {c : Char} {rest : List Char} (hc : c.isWhitespace = true)
    (h : Partition start (c :: rest) items) : Partition (start + c.utf8Size) rest items := by
  refine ⟨h.increasing, fun item hitem ↦ ?_, fun i b hb ↦ ?_⟩
  · refine (h.placed item hitem).of_append [c] ?_
    obtain ⟨before, after, htext, hoffset, hlongest⟩ := h.placed item hitem
    cases before with
    | nil =>
      -- the item would begin with the separator
      obtain ⟨hne, hblank⟩ := hlongest.not_isWhitespace
      obtain ⟨d, more, hd⟩ := List.exists_cons_of_ne_nil hne
      rw [hd] at htext hblank
      cases htext
      exact absurd hc (hblank c List.mem_cons_self)
    | cons d before =>
      cases htext
      rw [hoffset, Text.size_cons, Text.size_cons, Text.size_nil]
      omega
  · rw [Nat.add_assoc]
    refine h.covered _ b ?_
    rw [← hb]
    exact getElem?_bytes_append [c] rest i

theorem cons_item {after : List Char} {item : Item} (hoffset : item.span.offset = start)
    (hlongest : item.Longest after) (h : Partition item.span.stop after items) :
    Partition start (item.text ++ after) (item :: items) := by
  have hstop : item.span.stop = start + Text.size item.text := by rw [Item.stop_span, hoffset]
  refine ⟨List.pairwise_cons.mpr ⟨fun other hother ↦ (h.placed other hother).start_le,
    h.increasing⟩, ?_, fun i b hb ↦ ?_⟩
  · rintro other (_ | ⟨_, hother⟩)
    · exact ⟨[], after, rfl, hoffset, hlongest⟩
    · exact Item.PlacedIn.append item.text (hstop ▸ h.placed other hother)
  · by_cases hi : i < Text.size item.text
    · -- a byte of the item itself
      rw [Text.bytes_append, List.getElem?_append_left (by rwa [Text.length_bytes])] at hb
      obtain ⟨c, hc, hbc⟩ := List.mem_flatMap.mp (List.mem_of_getElem? hb)
      exact iff_of_true ⟨item, List.mem_cons_self, by omega, by omega⟩
        (Text.not_mem_separators_of_mem_utf8EncodeChar (hlongest.not_isWhitespace.2 c hc) hbc)
    · obtain ⟨j, rfl⟩ := Nat.exists_eq_add_of_le (Nat.le_of_not_lt hi)
      rw [getElem?_bytes_append] at hb
      rw [← h.covered j b hb, hstop, Nat.add_assoc]
      constructor
      · rintro ⟨other, _ | ⟨_, hother⟩, hcovers⟩
        · have := hcovers.2
          omega
        · exact ⟨other, hother, hcovers⟩
      · rintro ⟨other, hother, hcovers⟩
        exact ⟨other, List.mem_cons_of_mem item hother, hcovers⟩

theorem of_cons_item {after : List Char} {item : Item} (hoffset : item.span.offset = start)
    (h : Partition start (item.text ++ after) (item :: items)) :
    Partition item.span.stop after items := by
  have hstop : item.span.stop = start + Text.size item.text := by rw [Item.stop_span, hoffset]
  obtain ⟨hfirst, hincreasing⟩ := List.pairwise_cons.mp h.increasing
  refine ⟨hincreasing, fun other hother ↦ ?_, fun i b hb ↦ ?_⟩
  · have hle := hfirst other hother
    rw [hstop] at hle ⊢
    exact (h.placed other (List.mem_cons_of_mem item hother)).of_append item.text hle
  · have hcovered := h.covered (Text.size item.text + i) b (by rw [getElem?_bytes_append, hb])
    rw [← hcovered, hstop, Nat.add_assoc]
    constructor
    · rintro ⟨other, hother, hcovers⟩
      exact ⟨other, List.mem_cons_of_mem item hother, hcovers⟩
    · rintro ⟨other, _ | ⟨_, hother⟩, hcovers⟩
      · have := hcovers.2
        omega
      · exact ⟨other, hother, hcovers⟩

/-- A text that begins with no separator begins with the first item of a partition. -/
theorem exists_cons {c : Char} {rest : List Char} (hc : ¬c.isWhitespace = true)
    (h : Partition start (c :: rest) items) :
    ∃ item others after, items = item :: others ∧ c :: rest = item.text ++ after ∧
      item.span.offset = start ∧ item.Longest after := by
  -- the first byte of the text is covered, and only the first item can cover it
  obtain ⟨b, bs, hencode⟩ := List.exists_cons_of_ne_nil (String.utf8EncodeChar_ne_nil (c := c))
  obtain ⟨other, hother, hle, -⟩ := (h.covered 0 b (by rw [Text.bytes_cons, hencode]; rfl)).mpr
    (Text.not_mem_separators_of_mem_utf8EncodeChar hc (hencode ▸ List.mem_cons_self))
  cases items with
  | nil => cases hother
  | cons item others =>
    have hplaced := h.placed item List.mem_cons_self
    have hoffset : item.span.offset = start := by
      have hstart := hplaced.start_le
      have hlt := hplaced.lt_stop
      rcases List.mem_cons.mp hother with rfl | hother
      · omega
      · have := (List.pairwise_cons.mp h.increasing).1 other hother
        omega
    obtain ⟨before, after, htext, hbefore, hlongest⟩ := hplaced
    have hnil : before = [] := Text.size_eq_zero_iff.mp (by omega)
    rw [hnil, List.nil_append] at htext
    exact ⟨item, others, after, rfl, htext, hoffset, hlongest⟩

theorem listFrom (start : Nat) (text : List Char) :
    Partition start text (Item.listFrom start text) := by
  fun_induction Item.listFrom start text with
  | case1 start => exact ⟨.nil, by simp, by simp⟩
  | case2 start c rest hc ih => exact ih.cons_blank hc
  | case3 start c rest hc ih =>
    obtain ⟨htext, hoffset, hlongest⟩ := (Item.munch_eq_iff hc).mp rfl
    rw [← htext]
    exact cons_item hoffset hlongest ih

theorem eq_listFrom (h : Partition start text items) : items = Item.listFrom start text := by
  fun_induction Item.listFrom start text generalizing items with
  | case1 start =>
    refine List.eq_nil_iff_forall_not_mem.mpr fun item hitem ↦ ?_
    obtain ⟨before, after, htext, -, hlongest⟩ := h.placed item hitem
    obtain ⟨-, hnil⟩ := List.nil_eq_append_iff.mp htext
    exact hlongest.not_isWhitespace.1 (List.append_eq_nil_iff.mp hnil).1
  | case2 start c rest hc ih => exact ih (h.of_cons_blank hc)
  | case3 start c rest hc ih =>
    obtain ⟨item, others, after, rfl, htext, hoffset, hlongest⟩ := h.exists_cons hc
    have hmunch := (Item.munch_eq_iff hc).mpr ⟨htext.symm, hoffset, hlongest⟩
    rw [hmunch] at ih ⊢
    rw [htext] at h
    exact congrArg (item :: ·) (ih (h.of_cons_item hoffset))

/-- **Partitions.** The items of a text are its only partition. -/
theorem iff_eq_listFrom : Partition start text items ↔ items = Item.listFrom start text := by
  constructor
  · exact eq_listFrom
  · rintro rfl
    exact listFrom start text

end Partition

/-! ## The lexer lists the partition -/

/-- **What a lexer lists.** From the beginning of a source the listing gives the one partition of
its text, item by item, and then nothing for ever; taken after the last item, the end of the input
stands behind the last byte. -/
theorem Lexer.listing_partition (source : Source) :
    ∃ items : List Item,
      (Lexer.ofSource source).listing = items.map (Item.result source) ∧
      (∀ others, Partition 0 source.text.toList others ↔ others = items) ∧
      (∀ item ∈ items, item.span.offset < item.span.stop) ∧
      (∀ n, (Lexer.calls (List.replicate (items.length + n) .yield) (.ofSource source)).map
          Step.answer
        = (items.map fun item ↦ (item.result source).map some) ++ List.replicate n (.ok none)) ∧
      (Lexer.calls (List.replicate items.length .yield ++ [.next]) (.ofSource source)).map
          Step.answer
        = (items.map fun item ↦ (item.result source).map some)
          ++ [.ok (some ⟨.endOfInput, source.text.utf8ByteSize⟩)] := by
  obtain ⟨last, hlast, hended, hnil, -, hfinish, hanswers⟩ :=
    answers_replicate_append (coherent_ofSource source) rfl
  rw [ahead_ofSource] at hanswers
  rw [finish_ofSource, source.finish_eq] at hfinish
  refine ⟨source.items, listing_ofSource source, fun others ↦ Partition.iff_eq_listFrom, ?_,
    fun n ↦ ?_, ?_⟩
  · intro item hitem
    exact ((Partition.listFrom 0 source.text.toList).placed item hitem).lt_stop
  · rw [← List.replicate_append_replicate]
    refine (hanswers _).trans (congrArg _ ?_)
    cases n with
    | zero => rfl
    | succ n =>
      obtain ⟨hyield, hlastEnded⟩ := run_yield_of_nil hlast hended hnil
      rw [List.replicate_succ, List.replicate_succ, calls, call, List.map_cons, hyield,
        answers_of_ended hlastEnded]
  · obtain ⟨after, hrun, -⟩ := run_next hlast
    rw [front, hnil, List.headD_nil, hfinish] at hrun
    refine (hanswers _).trans (congrArg _ ?_)
    rw [calls, call, Pass.run_map, hrun]
    rfl

end Calculator
