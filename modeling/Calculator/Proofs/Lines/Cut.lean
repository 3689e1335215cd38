import Mathlib.Data.List.Forall2
import Calculator.Text

/-!
# The cut of a text into lines

Where the lines of a text begin and end is told by its newlines alone: they are the pieces between
the newlines, without the last piece if it is empty, and a piece before a newline loses the carriage
return at its end (`Text.cut`). The cut that goes along the text comes to the same
(`Text.lines_eq_cut`).

## Going along a text

A text is a line without a newline, or such a line, a newline and another text
(`Text.induction_on_lines`). Everything here is proved along this form: that texts which end their
last line can be put in front of others, that the lines before a given one are the lines of a
beginning of the text, and that carriage returns before all newlines at most stay at the ends of the
lines.
-/

namespace Calculator.Text

variable {α : Type} [DecidableEq α] {newline ret : α} {line text : List α}

/-- The lines of a text, by what stands between its newlines. -/
def cut (newline ret : α) (text : List α) : List (List α) :=
  (text.splitOn newline).dropLast.map (dropReturn ret)
    ++ (text.splitOn newline).getLast?.toList.filter (· ≠ [])

/-- Every text is made of lines with their newlines and of what stands behind them. -/
@[elab_as_elim]
theorem induction_on_lines {P : List α → Prop} (text : List α)
    (last : ∀ line, newline ∉ line → P line)
    (ended : ∀ line rest, newline ∉ line → P rest → P (line ++ newline :: rest)) : P text :=
  if h : newline ∈ text then by
    obtain ⟨line, rest, htext, hline⟩ := List.eq_append_cons_of_mem h
    have : rest.length < text.length := by
      rw [htext, List.length_append, List.length_cons]
      omega
    rw [htext]
    exact ended line rest hline (induction_on_lines rest last ended)
  else last text h
termination_by text.length

theorem splitOn_append_newline (h : newline ∉ line) (rest : List α) :
    (line ++ newline :: rest).splitOn newline = line :: rest.splitOn newline := by
  have hsplit :=
    List.splitOnP_append_cons (p := (· == newline)) line rest (beq_self_eq_true newline)
  rw [← List.splitOn_eq_splitOnP, ← List.splitOn_eq_splitOnP, List.splitOn_eq_singleton h] at hsplit
  exact hsplit

theorem lines_eq_filter_of_not_mem (h : newline ∉ line) :
    lines newline ret line = [line].filter (· ≠ []) := by
  cases line with
  | nil => exact lines_nil newline ret
  | cons c rest =>
    rw [lines_of_not_mem newline ret (List.cons_ne_nil c rest) h]
    rfl

/-- The lines are what stands between the newlines. -/
theorem lines_eq_cut (newline ret : α) (text : List α) :
    lines newline ret text = cut newline ret text := by
  induction text using induction_on_lines with
  | last line h =>
    rw [lines_eq_filter_of_not_mem h, cut, List.splitOn_eq_singleton h]
    rfl
  | ended line rest h ih =>
    have hne := List.splitOn_ne_nil newline rest
    rw [lines_append_newline newline ret rest h, ih, cut, cut, splitOn_append_newline h,
      List.dropLast_cons_of_ne_nil hne, List.map_cons, List.cons_append,
      List.getLast?_cons_of_ne_nil hne]

/-! ## Texts one after another -/

@[elab_as_elim]
theorem induction_on_ended {P : List α → Prop} (h : ∀ c ∈ text.getLast?, c = newline) (nil : P [])
    (ended : ∀ line rest, newline ∉ line → P rest → P (line ++ newline :: rest)) : P text := by
  induction text using induction_on_lines with
  | last line hline =>
    obtain rfl : line = [] := by
      by_contra hne
      exact hline (h _ (List.getLast?_eq_some_getLast hne) ▸ List.getLast_mem hne)
    exact nil
  | ended line rest hline ih =>
    refine ended line rest hline (ih fun c hc ↦ h c ?_)
    rw [List.getLast?_append, List.getLast?_cons, Option.mem_def.mp hc]
    rfl

theorem lines_append (h : ∀ c ∈ text.getLast?, c = newline) (more : List α) :
    lines newline ret (text ++ more) = lines newline ret text ++ lines newline ret more := by
  refine induction_on_ended h (by rw [lines_nil, List.nil_append, List.nil_append])
    fun line rest hline ih ↦ ?_
  rw [List.append_assoc, List.cons_append, lines_append_newline _ _ _ hline,
    lines_append_newline _ _ _ hline, ih, List.cons_append]

theorem length_lines (h : ∀ c ∈ text.getLast?, c = newline) :
    (lines newline ret text).length = text.count newline := by
  refine induction_on_ended h (by rw [lines_nil, List.length_nil, List.count_nil])
    fun line rest hline ih ↦ ?_
  rw [lines_append_newline _ _ _ hline, List.length_cons, ih, List.count_append,
    List.count_cons_self, List.count_eq_zero.mpr hline, Nat.zero_add]

theorem exists_lines_eq_of_append {before after : List (List α)}
    (h : lines newline ret text = before ++ line :: after) :
    ∃ first rest, text = first ++ rest ∧ lines newline ret first = before := by
  induction text using induction_on_lines generalizing before with
  | last last hlast =>
    cases before with
    | nil => exact ⟨[], last, rfl, lines_nil newline ret⟩
    | cons other before =>
      have hlength := congrArg List.length h
      have hle := List.length_filter_le (· ≠ []) [last]
      rw [lines_eq_filter_of_not_mem hlast, List.length_append, List.length_cons,
        List.length_cons] at hlength
      rw [List.length_singleton] at hle
      omega
  | ended start rest hstart ih =>
    rw [lines_append_newline _ _ _ hstart] at h
    cases before with
    | nil => exact ⟨[], _, rfl, lines_nil newline ret⟩
    | cons other before =>
      obtain ⟨rfl, hrest⟩ := List.cons.inj h
      obtain ⟨first, rest', rfl, hfirst⟩ := ih hrest
      refine ⟨start ++ newline :: first, rest', by rw [List.append_assoc, List.cons_append], ?_⟩
      rw [lines_append_newline _ _ _ hstart, hfirst]

/-! ## Carriage returns -/

theorem dropReturn_append_return (ret : α) (line : List α) :
    dropReturn ret (line ++ [ret]) = line := by
  rw [dropReturn, List.getLast?_concat, if_pos rfl, List.dropLast_concat]

theorem dropReturn_of_getLast?_ne (h : line.getLast? ≠ some ret) : dropReturn ret line = line :=
  if_neg h

theorem eq_dropReturn_or (ret : α) (line : List α) :
    line = dropReturn ret line ∨ line = dropReturn ret line ++ [ret] := by
  by_cases h : line.getLast? = some ret
  · obtain ⟨start, rfl⟩ := List.getLast?_eq_some_iff.mp h
    rw [dropReturn_append_return]
    exact .inr rfl
  · exact .inl (dropReturn_of_getLast?_ne h).symm

/-- A text with a carriage return put before every newline. -/
def withReturns (newline ret : α) (text : List α) : List α :=
  text.flatMap fun c ↦ if c = newline then [ret, newline] else [c]

theorem withReturns_of_not_mem (h : newline ∉ line) : withReturns newline ret line = line := by
  have hkept : ∀ c ∈ line, (if c = newline then [ret, newline] else [c]) = [c] := fun c hc ↦
    if_neg (ne_of_mem_of_not_mem hc h)
  rw [withReturns, List.flatMap_congr hkept, List.flatMap_singleton']

theorem withReturns_append_newline (h : newline ∉ line) (rest : List α) :
    withReturns newline ret (line ++ newline :: rest)
      = (line ++ [ret]) ++ newline :: withReturns newline ret rest := by
  have hline : withReturns newline ret line = line := withReturns_of_not_mem h
  rw [withReturns] at hline
  rw [withReturns, List.flatMap_append, hline, List.flatMap_cons, if_pos rfl, List.append_assoc]
  rfl

/-- Carriage returns before the newlines change no line but for a carriage return at its end. -/
theorem forall₂_lines_withReturns (hne : newline ≠ ret) (text : List α) :
    List.Forall₂ (fun line line' ↦ line' = line ∨ line' = line ++ [ret]) (lines newline ret text)
      (lines newline ret (withReturns newline ret text)) := by
  induction text using induction_on_lines with
  | last line h =>
    rw [withReturns_of_not_mem h]
    exact List.forall₂_same.mpr fun _ _ ↦ .inl rfl
  | ended line rest h ih =>
    have hreturn : newline ∉ line ++ [ret] := by
      rw [List.mem_append, List.mem_singleton]
      exact not_or.mpr ⟨h, hne⟩
    rw [withReturns_append_newline h, lines_append_newline _ _ _ h,
      lines_append_newline _ _ _ hreturn, dropReturn_append_return]
    exact .cons (eq_dropReturn_or ret line) ih

end Calculator.Text
