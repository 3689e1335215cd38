import Calculator.Proofs.Lexing.Partition
import Calculator.Proofs.Lines.Cut

/-!
# Cutting before and after decoding

In UTF-8 the newline and the carriage return are bytes that are part of no other character. So it
makes no difference whether a text is cut into lines and the lines are decoded or the text is
decoded first (`Text.linesOfBytes_bytes`), and a text can be decoded just if all its lines can
(`Text.isUTF8_iff_forall_line`).
-/

namespace Calculator.Text

/-! ## Decoding -/

theorem fromUTF8?_toUTF8 (text : String) : String.fromUTF8? text.toUTF8 = some text :=
  dif_pos text.isValidUTF8

/-- Whether bytes can be decoded. -/
def IsUTF8 (line : List UInt8) : Prop := ByteArray.IsValidUTF8 ⟨line.toArray⟩

instance : DecidablePred IsUTF8 := fun _ ↦ inferInstanceAs (Decidable (ByteArray.IsValidUTF8 _))

/-- Bytes can be decoded if they are those of some characters. -/
theorem isUTF8_iff {line : List UInt8} :
    IsUTF8 line ↔ ∃ text, line = bytes text := by
  constructor
  · rintro ⟨text, h⟩
    refine ⟨text, ?_⟩
    have hdata := congrArg (fun array : ByteArray ↦ array.data.toList) h
    rwa [List.utf8Encode, List.toList_data_toByteArray] at hdata
  · rintro ⟨text, rfl⟩
    refine ⟨text, ByteArray.ext ?_⟩
    rw [List.utf8Encode, List.data_toByteArray, bytes]

theorem toUTF8_ofList (text : List Char) :
    (String.ofList text).toUTF8 = ⟨(bytes text).toArray⟩ := by
  refine ByteArray.ext (Array.toList_inj.mp ?_)
  rw [← bytes_toList, String.toList_ofList, List.toList_toArray]

theorem fromUTF8?_bytes (text : List Char) :
    String.fromUTF8? ⟨(bytes text).toArray⟩ = some (String.ofList text) := by
  rw [← toUTF8_ofList, fromUTF8?_toUTF8]

theorem fromUTF8?_of_not_isUTF8 {input : List UInt8} (h : ¬IsUTF8 input) :
    String.fromUTF8? ⟨input.toArray⟩ = none :=
  dif_neg h

/-! ## The cut -/

/-- A byte of ASCII is among the bytes of a text just if its character is in the text. -/
theorem mem_bytes_iff {c : Char} {b : UInt8} (hc : String.utf8EncodeChar c = [b])
    (hascii : b.toNat < 0x80) {text : List Char} : b ∈ bytes text ↔ c ∈ text := by
  have hb : b ∈ String.utf8EncodeChar c := hc ▸ List.mem_singleton_self b
  rw [bytes, List.mem_flatMap]
  constructor
  · rintro ⟨d, hd, hbd⟩
    have hnat := (toNat_eq_of_mem_utf8EncodeChar hbd hascii).trans
      (toNat_eq_of_mem_utf8EncodeChar hb hascii).symm
    rwa [Char.toNat_inj.mp hnat] at hd
  · exact fun h ↦ ⟨c, h, hb⟩

theorem newline_mem_bytes_iff {text : List Char} : 0x0A ∈ bytes text ↔ '\n' ∈ text :=
  mem_bytes_iff (by decide) (by decide)

theorem bytes_eq_nil_iff {text : List Char} : bytes text = [] ↔ text = [] := by
  rw [← List.length_eq_zero_iff, length_bytes, size_eq_zero_iff]

theorem getLast?_bytes_iff {text : List Char} :
    (bytes text).getLast? = some 0x0D ↔ text.getLast? = some '\r' := by
  rcases List.eq_nil_or_concat' text with rfl | ⟨start, c, rfl⟩
  · exact ⟨nofun, nofun⟩
  · have hne : bytes [c] ≠ [] := mt bytes_eq_nil_iff.mp (List.cons_ne_nil c [])
    rw [bytes_append, List.getLast?_append_of_ne_nil _ hne, List.getLast?_concat]
    constructor
    · intro h
      have hmem : '\r' ∈ [c] := (mem_bytes_iff (by decide) (by decide)).mp (List.mem_of_getLast? h)
      rw [List.mem_singleton.mp hmem]
    · rintro ⟨rfl⟩
      rfl

theorem dropReturn_bytes (line : List Char) :
    dropReturn 0x0D (bytes line) = bytes (dropReturn '\r' line) := by
  by_cases h : line.getLast? = some '\r'
  · obtain ⟨start, rfl⟩ := List.getLast?_eq_some_iff.mp h
    rw [bytes_append, dropReturn_append_return]
    exact dropReturn_append_return 0x0D (bytes start)
  · rw [dropReturn_of_getLast?_ne h, dropReturn_of_getLast?_ne (mt getLast?_bytes_iff.mp h)]

/-- The lines of the bytes of a text are the bytes of its lines. -/
theorem linesOfBytes_bytes (text : List Char) :
    linesOfBytes (bytes text) = (linesOfChars text).map bytes := by
  rw [linesOfBytes, linesOfChars]
  induction text using induction_on_lines with
  | last line h =>
    rw [lines_eq_filter_of_not_mem h, lines_eq_filter_of_not_mem (mt newline_mem_bytes_iff.mp h),
      List.filter_singleton, List.filter_singleton]
    simp only [ne_eq, bytes_eq_nil_iff]
    cases decide (¬line = []) <;> rfl
  | ended line rest h ih =>
    have hbytes : bytes (line ++ '\n' :: rest) = bytes line ++ 0x0A :: bytes rest := by
      rw [bytes_append, bytes_cons]
      rfl
    rw [hbytes, lines_append_newline _ _ _ (mt newline_mem_bytes_iff.mp h),
      lines_append_newline _ _ _ h, dropReturn_bytes, ih, List.map_cons]

/-- Bytes can be decoded just if each of their lines can. -/
theorem isUTF8_iff_forall_line {input : List UInt8} :
    IsUTF8 input ↔
      ∀ line ∈ linesOfBytes input, IsUTF8 line := by
  simp only [isUTF8_iff]
  constructor
  · rintro ⟨text, rfl⟩ line hline
    rw [linesOfBytes_bytes] at hline
    obtain ⟨line, -, rfl⟩ := List.mem_map.mp hline
    exact ⟨line, rfl⟩
  · intro h
    rw [linesOfBytes] at h
    induction input using induction_on_lines with
    | last line hline =>
      rw [lines_eq_filter_of_not_mem hline] at h
      cases line with
      | nil => exact ⟨[], rfl⟩
      | cons b rest => exact h _ (List.mem_singleton_self _)
    | ended line rest hline ih =>
      rw [lines_append_newline _ _ _ hline, List.forall_mem_cons] at h
      obtain ⟨⟨text, htext⟩, hrest⟩ := h
      obtain ⟨text', rfl⟩ := ih hrest
      rcases eq_dropReturn_or 0x0D line with hline | hline
      · refine ⟨text ++ '\n' :: text', ?_⟩
        rw [hline, htext, bytes_append, bytes_cons]
        rfl
      · refine ⟨text ++ '\r' :: '\n' :: text', ?_⟩
        rw [hline, htext, bytes_append, bytes_cons, bytes_cons, List.append_assoc]
        rfl

end Calculator.Text
