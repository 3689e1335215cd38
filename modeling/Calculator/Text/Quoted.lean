import Calculator.Text.Visible

/-!
# Quoted text

In the log a text stands between double quotes. A tab, a newline, a carriage return and the null
character are written `\t`, `\n`, `\r` and `\0`, a double quote and a backslash have a backslash
before them, and any other character that is not visible is written by its code point, as in
`\u{200b}`. Every other character stands for itself. `decode_encode` says that nothing is
lost.
-/

namespace Calculator.Text.Quoted

/-! ## Code points in hexadecimal digits -/

/-- The value of a hexadecimal digit in lower case. -/
def hexValue? (c : Char) : Option Nat :=
  if '0' ≤ c ∧ c ≤ '9' then some (c.toNat - '0'.toNat)
  else if 'a' ≤ c ∧ c ≤ 'f' then some (c.toNat - 'a'.toNat + 10)
  else none

theorem hexValue?_digitChar {d : Nat} (h : d < 16) : hexValue? d.digitChar = some d := by
  have : ∀ d : Fin 16, hexValue? (Nat.digitChar d) = some d.val := by decide
  exact this ⟨d, h⟩

/-! ## Writing -/

/-- A character by its code point. -/
def codePoint (c : Char) : List Char :=
  ['\\', 'u', '{'] ++ Nat.toDigits 16 c.toNat ++ ['}']

/-- How a character is written between quotes. -/
def escape (c : Char) : List Char :=
  match c with
  | '\t' => ['\\', 't']
  | '\n' => ['\\', 'n']
  | '\r' => ['\\', 'r']
  | '\x00' => ['\\', '0']
  | '"' => ['\\', '"']
  | '\\' => ['\\', '\\']
  | c => if isVisible c then [c] else codePoint c

/-- A text between double quotes. -/
def encode (text : List Char) : List Char := '"' :: (text.flatMap escape ++ ['"'])

/-! ## Reading -/

/-- The character that a letter stands for after a backslash. -/
def unescape? : Char → Option Char
  | 't' => some '\t'
  | 'n' => some '\n'
  | 'r' => some '\r'
  | '0' => some '\x00'
  | '"' => some '"'
  | '\\' => some '\\'
  | _ => none

/-- Reads the rest of a quoted text up to its closing quote, which has to be the end. Inside a code
point its value so far is carried along. -/
def decodeFrom : Option Nat → List Char → Option (List Char)
  | none, '"' :: rest => if rest = [] then some [] else none
  | none, '\\' :: 'u' :: '{' :: rest => decodeFrom (some 0) rest
  | none, '\\' :: c :: rest => do
    let c ← unescape? c
    let text ← decodeFrom none rest
    pure (c :: text)
  | none, c :: rest => if c = '\\' then none else (decodeFrom none rest).map (c :: ·)
  | some n, c :: rest =>
    if c = '}' then (decodeFrom none rest).map (Char.ofNat n :: ·)
    else do decodeFrom (some (16 * n + (← hexValue? c))) rest
  | _, [] => none

/-- Reads a quoted text. -/
def decode : List Char → Option (List Char)
  | '"' :: rest => decodeFrom none rest
  | _ => none

/-! ## Nothing is lost -/

theorem decodeFrom_digitChar {d n : Nat} (h : d < 16) (rest : List Char) :
    decodeFrom (some n) (d.digitChar :: rest) = decodeFrom (some (16 * n + d)) rest := by
  have hne : d.digitChar ≠ '}' := by
    have : ∀ d : Fin 16, Nat.digitChar d ≠ '}' := by decide
    exact this ⟨d, h⟩
  rw [decodeFrom, if_neg hne, hexValue?_digitChar h]
  rfl

theorem decodeFrom_toDigits (n : Nat) (rest : List Char) :
    decodeFrom (some 0) (Nat.toDigits 16 n ++ rest) = decodeFrom (some n) rest := by
  induction n using Nat.strongRecOn generalizing rest with
  | ind n ih =>
    by_cases h : n < 16
    · rw [Nat.toDigits_of_lt_base h, List.singleton_append, decodeFrom_digitChar h]
      simp
    · rw [Nat.toDigits_of_base_le (by omega) (by omega), List.append_assoc,
        ih (n / 16) (by omega), List.singleton_append, decodeFrom_digitChar (by omega)]
      congr 2
      omega

theorem decodeFrom_codePoint (c : Char) (rest : List Char) :
    decodeFrom none (codePoint c ++ rest) = (decodeFrom none rest).map (c :: ·) := by
  simp only [codePoint, List.cons_append, List.append_assoc, List.nil_append, decodeFrom]
  rw [decodeFrom_toDigits, decodeFrom, if_pos rfl, Char.ofNat_toNat]

theorem decodeFrom_unescape {c d : Char} (h : unescape? c = some d) (hu : c ≠ 'u')
    (rest : List Char) :
    decodeFrom none ('\\' :: c :: rest) = (decodeFrom none rest).map (d :: ·) := by
  rw [decodeFrom, h]
  · cases decodeFrom none rest <;> rfl
  · simp [hu]

theorem decodeFrom_escape (c : Char) (rest : List Char) :
    decodeFrom none (escape c ++ rest) = (decodeFrom none rest).map (c :: ·) := by
  unfold escape
  split
  case h_7 h1 h2 h3 h4 h5 h6 =>
    split
    · rw [List.singleton_append, decodeFrom.eq_def]
      split <;> simp_all
    · exact decodeFrom_codePoint c rest
  all_goals exact decodeFrom_unescape rfl (by decide) rest

/-- What is written between quotes is read back. -/
theorem decode_encode (text : List Char) : decode (encode text) = some text := by
  rw [encode, decode]
  induction text with
  | nil => rfl
  | cons c rest ih =>
    rw [List.flatMap_cons, List.append_assoc, decodeFrom_escape, ih]
    rfl

end Calculator.Text.Quoted
