/-!
# Texts

A text is a list of characters, or of bytes as long as it has not been decoded. Places in it are
counted in bytes of its UTF-8 encoding, in which a character takes from one to four.

## Lines

A text is cut into lines at each newline, and one carriage return directly before the newline goes
with it. What stands after the last newline is a line of its own if there is any of it, and keeps a
carriage return at its end. The cut is the same for characters and for bytes, so the newline and the
carriage return are arguments: a file is cut after it has been decoded, a session while it is still
bytes.

A line of a file or of a session that holds nothing but white space is passed over. White space is
meant in the sense of Unicode here, which is wider than what separates tokens inside an expression:
a line of no-break spaces is passed over as a line, although a no-break space has no place in an
expression.
-/

namespace Calculator.Text

/-! ## Sizes -/

/-- The length of a text in bytes of its UTF-8 encoding. -/
def size : List Char → Nat
  | [] => 0
  | c :: text => c.utf8Size + size text

@[simp] theorem size_nil : size [] = 0 := rfl

@[simp] theorem size_cons (c : Char) (text : List Char) :
    size (c :: text) = c.utf8Size + size text := rfl

@[simp] theorem size_append (s t : List Char) : size (s ++ t) = size s + size t := by
  induction s with
  | nil => simp
  | cons c s ih => rw [List.cons_append, size_cons, size_cons, ih, Nat.add_assoc]

theorem utf8ByteSize_ofList (text : List Char) :
    (String.ofList text).utf8ByteSize = size text := by
  induction text with
  | nil => rfl
  | cons c text ih =>
    rw [← List.singleton_append, String.ofList_append, String.utf8ByteSize_append, ih,
      ← String.singleton_eq_ofList, String.utf8ByteSize_singleton, List.singleton_append, size_cons]

/-! ## Blank lines -/

/-- The characters with the Unicode property `White_Space`, as closed ranges of code points. -/
def blankRanges : List (Nat × Nat) :=
  [(0x09, 0x0D), (0x20, 0x20), (0x85, 0x85), (0xA0, 0xA0), (0x1680, 0x1680), (0x2000, 0x200A),
    (0x2028, 0x2029), (0x202F, 0x202F), (0x205F, 0x205F), (0x3000, 0x3000)]

/-- Whether a character has the Unicode property `White_Space`. -/
def isBlank (c : Char) : Bool :=
  blankRanges.any fun range ↦ range.1 ≤ c.toNat && c.toNat ≤ range.2

/-- Whether a line holds nothing but white space; the empty line does. -/
def isBlankLine (line : List Char) : Bool := line.all isBlank

/-! ## Cutting into lines -/

section

variable {α : Type} [DecidableEq α]

/-- A line without the carriage return at its end, if it has one. -/
def dropReturn (ret : α) (line : List α) : List α :=
  if line.getLast? = some ret then line.dropLast else line

/-- The lines of a text. -/
def lines (newline ret : α) (text : List α) : List (List α) :=
  if text = [] then []
  else
    match h : text.dropWhile (· ≠ newline) with
    | [] => [text]
    | _ :: rest =>
      have : rest.length < text.length := by
        have hle := (List.dropWhile_suffix (· ≠ newline) (l := text)).length_le
        rw [h] at hle
        exact hle
      dropReturn ret (text.takeWhile (· ≠ newline)) :: lines newline ret rest
termination_by text.length

/-- The lines of a decoded text. -/
def linesOfChars (text : List Char) : List (List Char) := lines '\n' '\r' text

/-- The lines of a text that has not been decoded. In UTF-8 the bytes of the newline and of the
carriage return stand for nothing else, so the cut never falls inside a character. -/
def linesOfBytes (text : List UInt8) : List (List UInt8) := lines 0x0A 0x0D text

@[simp] theorem lines_nil (newline ret : α) : lines newline ret [] = [] := by
  rw [lines]; simp

theorem lines_append_newline (newline ret : α) {line : List α} (rest : List α)
    (h : newline ∉ line) :
    lines newline ret (line ++ newline :: rest)
      = dropReturn ret line :: lines newline ret rest := by
  have hall : ∀ c ∈ line, (decide (c ≠ newline)) = true := by
    intro c hc
    simpa using ne_of_mem_of_not_mem hc h
  have hdrop : (line ++ newline :: rest).dropWhile (· ≠ newline) = newline :: rest := by
    rw [List.dropWhile_append_of_pos hall]; simp
  have htake : (line ++ newline :: rest).takeWhile (· ≠ newline) = line := by
    rw [List.takeWhile_append_of_pos hall]; simp
  rw [lines, if_neg (by simp)]
  split
  · next h' => rw [hdrop] at h'; cases h'
  · next h' => rw [hdrop] at h'; cases h'; rw [htake]

/-- Without a newline there is one line, and it is kept as it is. -/
theorem lines_of_not_mem (newline ret : α) {line : List α} (hne : line ≠ [])
    (h : newline ∉ line) : lines newline ret line = [line] := by
  have hall : ∀ c ∈ line, (decide (c ≠ newline)) = true := by
    intro c hc
    simpa using ne_of_mem_of_not_mem hc h
  have hdrop : (line ++ []).dropWhile (· ≠ newline) = [] := List.dropWhile_append_of_pos hall
  rw [List.append_nil] at hdrop
  rw [lines, if_neg hne]
  split
  · rfl
  · next h' => rw [hdrop] at h'; cases h'

end

end Calculator.Text
