import Calculator.Proofs.Lines.Decoding
import Calculator.Proofs.Lines.Replies

/-!
# Files

Each line of a file is an expression of its own. What it adds to the outcome is told by a fresh
evaluation of that line alone (`IsShare`), and the outcome is put together from these shares in the
order of the lines; the number of a line is all that depends on the lines before it.

So a file can be put together as well (`runCommand_lines`): the outcome for two texts one after
another is that for the first and that for the second, with its line numbers raised by the number of
the lines before.

## Replies in order

The outcome is a function of the replies to the lines (`Outcome.ofReplies`). It is enough to know
how this function takes two lists of replies one after another, and that replies which are alike are
as good as each other.
-/

namespace Calculator

/-! ## Shares -/

/-- What a line adds to the outcome of a file. -/
structure Share where
  /-- What the line adds to the standard output. -/
  printed : String
  /-- The headlines that it adds. -/
  reported : List String

/-- `IsShare maxDepth source number share` says what a line with this number adds. -/
inductive IsShare (maxDepth : Nat) (source : Source) (number : Nat) : Share → Prop where
  /-- A blank line is passed over. -/
  | skipped (hblank : Text.isBlankLine source.text.toList = true) :
      IsShare maxDepth source number ⟨"", []⟩
  /-- The value of a line is printed on a line of its own. -/
  | value {x : Float} (hblank : ¬Text.isBlankLine source.text.toList = true)
      (h : (source.evaluate maxDepth).answer = .ok x) :
      IsShare maxDepth source number ⟨String.ofList (Binary64.text x) ++ "\n", []⟩
  /-- What is wrong with a line is reported with its number. -/
  | failed {diagnostic : Diagnostic} (hblank : ¬Text.isBlankLine source.text.toList = true)
      (h : (source.evaluate maxDepth).answer = .error diagnostic) :
      IsShare maxDepth source number
        ⟨"", ["[line " ++ number.repr ++ "] Error: " ++ diagnostic.problem.message,
          diagnostic.problem.code]⟩

/-- `IsTranscript maxDepth file lines shares` says what each line of a file adds. -/
def IsTranscript (maxDepth : Nat) (file : String) (lines : List (List Char))
    (shares : List Share) : Prop :=
  List.Forall₂ (fun line share ↦ IsShare maxDepth ⟨some file, String.ofList line.1⟩ line.2 share)
    (lines.zipIdx 1) shares

namespace Reply

/-- What a reply to the line with a number adds. -/
def share (number : Nat) (reply : Reply) : Share := ⟨reply.output, reply.errors (some number)⟩

theorem isShare_ofLine (maxDepth : Nat) (source : Source) (number : Nat) :
    IsShare maxDepth source number ((ofLine maxDepth source).share number) := by
  rw [ofLine]
  split
  · next h => exact .skipped h
  · next hblank =>
    rw [ofSource]
    split
    · next h => exact .value hblank h
    · next h => exact .failed hblank h

theorem isFailed_iff (reply : Reply) (number : Nat) :
    reply.isFailed = true ↔ (reply.share number).reported ≠ [] := by
  cases reply with
  | failed diagnostic => exact ⟨fun _ ↦ List.cons_ne_nil _ _, fun _ ↦ rfl⟩
  | skipped => exact ⟨nofun, fun h ↦ absurd rfl h⟩
  | value x => exact ⟨nofun, fun h ↦ absurd rfl h⟩

end Reply

/-! ## Replies in order -/

/-- A report about a line that is a number of lines further down. -/
def Report.lower (n : Nat) (report : Report) : Report :=
  { report with line := report.line.map (n + ·) }

namespace Outcome

/-- An outcome of which all lines are a number of lines further down. -/
def lower (n : Nat) (outcome : Outcome) : Outcome :=
  { outcome with reports := outcome.reports.map (Report.lower n) }

/-- The outcome of a file with these replies to its lines. -/
def ofReplies (replies : List Reply) : Outcome :=
  { exitCode := if replies.any Reply.isFailed then wrongInput else success
    output := String.join (replies.map Reply.output)
    reports := (replies.zipIdx 1).flatMap fun reply ↦ reply.1.reports (some reply.2) }

/-- What the replies add, in order. -/
def shares (replies : List Reply) : List Share :=
  (replies.zipIdx 1).map fun reply ↦ reply.1.share reply.2

theorem output_ofReplies (replies : List Reply) :
    (ofReplies replies).output = String.join ((shares replies).map Share.printed) := by
  have hmap := congrArg (List.map Reply.output) (List.zipIdx_map_fst 1 replies)
  rw [shares, List.map_map, ofReplies, ← hmap, List.map_map]
  rfl

theorem errors_ofReplies (replies : List Reply) :
    (ofReplies replies).errors = (shares replies).flatMap Share.reported := by
  rw [errors, ofReplies, List.flatMap_assoc, shares, List.flatMap_map]
  rfl

theorem exitCode_ofReplies_eq_iff (replies : List Reply) :
    (ofReplies replies).exitCode = 65 ↔ replies.any Reply.isFailed = true := by
  change (if _ then 65 else 0) = 65 ↔ _
  split <;> simp_all

theorem exitCode_ofReplies (replies : List Reply) :
    (ofReplies replies).exitCode
      = if ∃ share ∈ shares replies, share.reported ≠ [] then 65 else 0 := by
  have hfailed : replies.any Reply.isFailed = true
      ↔ ∃ share ∈ shares replies, share.reported ≠ [] := by
    rw [← List.zipIdx_map_fst 1 replies, List.any_map, List.any_eq_true, List.zipIdx_map_fst]
    constructor
    · rintro ⟨reply, hreply, hfailed⟩
      exact ⟨_, List.mem_map_of_mem hreply, (reply.1.isFailed_iff reply.2).mp hfailed⟩
    · rintro ⟨_, hshare, hne⟩
      obtain ⟨reply, hreply, rfl⟩ := List.mem_map.mp hshare
      exact ⟨reply, hreply, (reply.1.isFailed_iff reply.2).mpr hne⟩
  exact if_congr hfailed rfl rfl

theorem shares_eq {replies replies' : List Reply} (h : List.Forall₂ Reply.Alike replies replies') :
    shares replies = shares replies' := by
  have hfrom (start : Nat) : (replies.zipIdx start).map (fun reply ↦ reply.1.share reply.2)
      = (replies'.zipIdx start).map fun reply ↦ reply.1.share reply.2 := by
    induction h generalizing start with
    | nil => rfl
    | cons h _ ih =>
      rw [List.zipIdx_cons, List.zipIdx_cons, List.map_cons, List.map_cons, ih, Reply.share,
        Reply.share, h.output, h.errors]
  exact hfrom 1

/-! ### One after another -/

theorem output_ofReplies_append (replies replies' : List Reply) :
    (ofReplies (replies ++ replies')).output
      = (ofReplies replies).output ++ (ofReplies replies').output := by
  rw [ofReplies, List.map_append, String.join_append]
  rfl

/-- The reports of a list of replies begin with the first number and go on from there. -/
theorem flatMap_reports_zipIdx_add (n : Nat) (replies : List Reply) (start : Nat) :
    (replies.zipIdx (n + start)).flatMap (fun reply ↦ reply.1.reports (some reply.2))
      = ((replies.zipIdx start).flatMap fun reply ↦ reply.1.reports (some reply.2)).map
        (Report.lower n) := by
  induction replies generalizing start with
  | nil => rfl
  | cons reply replies ih =>
    rw [List.zipIdx_cons, List.zipIdx_cons, List.flatMap_cons, List.flatMap_cons, List.map_append,
      Nat.add_assoc, ih]
    cases reply <;> rfl

theorem reports_ofReplies_append (replies replies' : List Reply) :
    (ofReplies (replies ++ replies')).reports
      = (ofReplies replies).reports ++ ((ofReplies replies').lower replies.length).reports := by
  rw [ofReplies, List.zipIdx_append, List.flatMap_append, Nat.add_comm,
    flatMap_reports_zipIdx_add]
  rfl

theorem exitCode_ofReplies_append_iff (replies replies' : List Reply) :
    (ofReplies (replies ++ replies')).exitCode = 65 ↔
      (ofReplies replies).exitCode = 65 ∨ (ofReplies replies').exitCode = 65 := by
  rw [exitCode_ofReplies_eq_iff, exitCode_ofReplies_eq_iff, exitCode_ofReplies_eq_iff,
    List.any_append, Bool.or_eq_true]

end Outcome

/-! ## Files -/

section

variable (maxDepth : Nat) (file : String)

theorem runCommand_toUTF8 (text : String) :
    runCommand maxDepth file (some text.toUTF8)
      = .ofReplies (fileReplies maxDepth file text.toList) := by
  rw [runCommand, Option.bind_some, Text.fromUTF8?_toUTF8]
  rfl

/-- The replies add what the lines add. -/
theorem isTranscript_fileReplies (text : List Char) :
    IsTranscript maxDepth file (Text.linesOfChars text)
      (Outcome.shares (fileReplies maxDepth file text)) := by
  rw [IsTranscript, Outcome.shares, fileReplies, List.zipIdx_map, List.map_map,
    List.forall₂_map_right_iff]
  exact List.forall₂_same.mpr fun _ _ ↦ Reply.isShare_ofLine _ _ _

theorem fileReplies_append {text : List Char} (h : ∀ c ∈ text.getLast?, c = '\n')
    (more : List Char) :
    fileReplies maxDepth file (text ++ more)
      = fileReplies maxDepth file text ++ fileReplies maxDepth file more := by
  rw [fileReplies, Text.linesOfChars, Text.lines_append h, List.map_append]
  rfl

theorem length_fileReplies {text : List Char} (h : ∀ c ∈ text.getLast?, c = '\n') :
    (fileReplies maxDepth file text).length = text.count '\n' := by
  rw [fileReplies, List.length_map, Text.linesOfChars, Text.length_lines h]

theorem alike_fileReplies_withReturns (text : List Char) :
    List.Forall₂ Reply.Alike (fileReplies maxDepth file (Text.withReturns '\n' '\r' text))
      (fileReplies maxDepth file text) := by
  rw [fileReplies, fileReplies, List.forall₂_map_left_iff, List.forall₂_map_right_iff]
  refine List.Forall₂.flip ((Text.forall₂_lines_withReturns (by decide) text).imp ?_)
  rintro line line' (rfl | rfl)
  · exact .refl _
  · exact Reply.alike_append_return maxDepth (some file) line

/-- **Lines are independent.** The outcome of a file is made of what its lines add, each evaluated
on its own, and it exits with 65 just if one of them fails. So texts can be put one after another,
if the first is empty or ends in a newline, carriage returns before the newlines make no difference,
and no line that is passed over would have had a value. -/
theorem runCommand_lines :
    let run (text : String) : Outcome := runCommand maxDepth file (some text.toUTF8)
    (∀ text, ∃ shares,
      IsTranscript maxDepth file (Text.cut '\n' '\r' text.toList) shares ∧
        (run text).output = String.join (shares.map Share.printed) ∧
        (run text).errors = shares.flatMap Share.reported ∧
        (run text).exitCode = if ∃ share ∈ shares, share.reported ≠ [] then 65 else 0) ∧
    (∀ first second : String, (∀ c ∈ first.toList.getLast?, c = '\n') →
      let lowered := (run second).lower (first.toList.count '\n')
      (run (first ++ second)).output = (run first).output ++ (run second).output ∧
        (run (first ++ second)).reports = (run first).reports ++ lowered.reports ∧
        (run (first ++ second)).errors = (run first).errors ++ lowered.errors ∧
        ((run (first ++ second)).exitCode = 65 ↔
          (run first).exitCode = 65 ∨ (run second).exitCode = 65)) ∧
    (∀ text : String,
      let returned := run (String.ofList (Text.withReturns '\n' '\r' text.toList))
      returned.output = (run text).output ∧ returned.errors = (run text).errors ∧
        returned.exitCode = (run text).exitCode) ∧
    ∀ source : Source, Text.isBlankLine source.text.toList = true →
      ∀ value, (source.evaluate maxDepth).answer ≠ .ok value := by
  simp only [runCommand_toUTF8, String.toList_append, String.toList_ofList]
  refine ⟨fun text ↦ ?_, fun first second h ↦ ?_, fun text ↦ ?_,
    fun source h ↦ source.not_ok_of_isBlankLine h maxDepth⟩
  · have htranscript := isTranscript_fileReplies maxDepth file text.toList
    rw [Text.linesOfChars, Text.lines_eq_cut] at htranscript
    exact ⟨_, htranscript, Outcome.output_ofReplies _, Outcome.errors_ofReplies _,
      Outcome.exitCode_ofReplies _⟩
  · have hreports := Outcome.reports_ofReplies_append (fileReplies maxDepth file first.toList)
      (fileReplies maxDepth file second.toList)
    rw [length_fileReplies maxDepth file h] at hreports
    rw [fileReplies_append maxDepth file h]
    refine ⟨Outcome.output_ofReplies_append _ _, hreports, ?_,
      Outcome.exitCode_ofReplies_append_iff _ _⟩
    rw [Outcome.errors, hreports, List.flatMap_append]
    rfl
  · have hshares := Outcome.shares_eq (alike_fileReplies_withReturns maxDepth file text.toList)
    simp only [Outcome.output_ofReplies, Outcome.errors_ofReplies, Outcome.exitCode_ofReplies,
      hshares, and_self]

/-- The third line of a text is the first of what follows its second newline. -/
theorem runCommand_lines_second :
    (∀ c ∈ "1\n\n".toList.getLast?, c = '\n') ∧
      Text.isBlankLine (Source.mk (some "sums") "\u00a0").text.toList = true ∧
      (runCommand 9 "sums" (some ("1\n\n" ++ "(\r\n").toUTF8)).reports
        = (runCommand 9 "sums" (some "1\n\n".toUTF8)).reports
          ++ ((runCommand 9 "sums" (some "(\r\n".toUTF8)).lower 2).reports ∧
      ∀ value, (Source.evaluate ⟨some "sums", "\u00a0"⟩ 9).answer ≠ .ok value := by
  have hended : ∀ c ∈ "1\n\n".toList.getLast?, c = '\n' := by
    have hlast : "1\n\n".toList.getLast? = some '\n' := by decide
    intro c hc
    exact Option.some.inj (hc.symm.trans hlast)
  have hblank : Text.isBlankLine (Source.mk (some "sums") "\u00a0").text.toList = true := by decide
  have hlines := runCommand_lines 9 "sums"
  exact ⟨hended, hblank, (hlines.2.1 _ "(\r\n" hended).2.1, hlines.2.2.2 _ hblank⟩

end

end Calculator
