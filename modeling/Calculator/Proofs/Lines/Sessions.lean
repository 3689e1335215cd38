import Calculator.Proofs.Lines.Files

/-!
# Sessions and files

A session reads its lines one after another and decodes each on its own, while a file is decoded as
a whole. On bytes that can be decoded this makes no difference: a session answers each line with
what a file prints for it, behind a prompt, and reports what a file reports but for the entries with
the numbers of lines (`replCommand_runCommand`).

If a line cannot be decoded a file has no lines at all. A session does not know of that line until
it comes to it, and has answered what stands before it.
-/

namespace Calculator

/-- Whether an entry begins with the number of a line. -/
def IsNumbered (entry : String) : Prop := "[line ".toList <+: entry.toList

instance : DecidablePred IsNumbered := fun _ ↦ inferInstanceAs (Decidable (_ <+: _))

/-! ## Entries with the number of a line -/

/-- Without the entry with the number, a file reports what is reported elsewhere. -/
theorem Reply.filter_errors (reply : Reply) (number : Nat) :
    (reply.errors (some number)).filter (¬IsNumbered ·) = reply.errors none := by
  cases reply with
  | skipped => rfl
  | value x => rfl
  | failed diagnostic =>
    have hnumbered : IsNumbered
        ("[line " ++ number.repr ++ "] Error: " ++ diagnostic.problem.message) := by
      simp only [IsNumbered, String.toList_append, List.append_assoc]
      exact List.prefix_append _ _
    have hcode : ¬IsNumbered diagnostic.problem.code := by
      cases diagnostic.problem <;> rw [Problem.code] <;> decide
    rw [errors_failed_some, errors_failed_none, List.filter_cons_of_neg (by simpa using hnumbered),
      List.filter_cons_of_pos (by simpa using hcode), List.filter_nil]

/-! ## Sessions -/

namespace Outcome

/-- The outcome of a session with these replies to its lines. -/
def ofConversation (replies : List Reply) : Outcome :=
  { exitCode := success
    output := String.join (replies.map fun reply ↦ prompt ++ reply.output) ++ prompt
    reports := replies.flatMap (Reply.reports none) }

theorem ofConversation_cons (reply : Reply) (replies : List Reply) :
    ofConversation (reply :: replies)
      = { exitCode := (ofConversation replies).exitCode
          output := prompt ++ reply.output ++ (ofConversation replies).output
          reports := reply.reports none ++ (ofConversation replies).reports } := by
  rw [ofConversation, List.map_cons, String.join_cons, List.flatMap_cons, String.append_assoc]
  rfl

/-- A session has the outcome of a file, but for prompts and numbers. -/
theorem output_ofConversation {replies replies' : List Reply}
    (h : List.Forall₂ Reply.Alike replies replies') :
    (ofConversation replies).output
      = String.join ((shares replies').map fun share ↦ "> " ++ share.printed) ++ "> " := by
  have hmap := congrArg (List.map fun reply ↦ prompt ++ Reply.output reply)
    (List.zipIdx_map_fst 1 replies)
  rw [← shares_eq h, shares, List.map_map, ofConversation, ← hmap, List.map_map]
  rfl

theorem errors_ofConversation {replies replies' : List Reply}
    (h : List.Forall₂ Reply.Alike replies replies') :
    (ofConversation replies).errors = (ofReplies replies').errors.filter (¬IsNumbered ·) := by
  have hflat := congrArg (List.flatMap (Reply.errors none)) (List.zipIdx_map_fst 1 replies)
  rw [errors_ofReplies, ← shares_eq h, List.filter_flatMap, shares, List.flatMap_map, errors,
    ofConversation, List.flatMap_assoc]
  refine hflat.symm.trans ?_
  rw [List.flatMap_map]
  exact List.flatMap_congr fun reply _ ↦ (reply.1.filter_errors reply.2).symm

end Outcome

section

variable (maxDepth : Nat)

/-- The replies to the lines of a session, in order. -/
def sessionReplies (lines : List (List Char)) : List Reply :=
  lines.map fun line ↦ .ofLine maxDepth ⟨none, String.ofList line⟩

theorem converse_cons_bytes (text : List Char) (rest : List (List UInt8)) :
    converse maxDepth (Text.bytes text :: rest)
      = { exitCode := (converse maxDepth rest).exitCode
          output := prompt ++ (Reply.ofLine maxDepth ⟨none, String.ofList text⟩).output
            ++ (converse maxDepth rest).output
          reports := (Reply.ofLine maxDepth ⟨none, String.ofList text⟩).reports none
            ++ (converse maxDepth rest).reports } := by
  rw [converse, Text.fromUTF8?_bytes]

theorem converse_cons_of_not_isUTF8 {bad : List UInt8} (h : ¬Text.IsUTF8 bad)
    (rest : List (List UInt8)) :
    converse maxDepth (bad :: rest) = ⟨Outcome.unreadable, prompt, []⟩ := by
  rw [converse, Text.fromUTF8?_of_not_isUTF8 h]

theorem converse_map_bytes (texts : List (List Char)) :
    converse maxDepth (texts.map Text.bytes)
      = .ofConversation (sessionReplies maxDepth texts) := by
  induction texts with
  | nil => rfl
  | cons text texts ih =>
    rw [List.map_cons, converse_cons_bytes, ih, sessionReplies, sessionReplies, List.map_cons,
      Outcome.ofConversation_cons]

/-- A line that cannot be decoded ends the session, and what was answered before stays. -/
theorem converse_append {bad : List UInt8} (h : ¬Text.IsUTF8 bad)
    (texts : List (List Char)) (after : List (List UInt8)) :
    converse maxDepth (texts.map Text.bytes ++ bad :: after)
      = { converse maxDepth (texts.map Text.bytes) with exitCode := 1 } := by
  induction texts with
  | nil => exact converse_cons_of_not_isUTF8 maxDepth h after
  | cons text texts ih =>
    rw [List.map_cons, List.cons_append, converse_cons_bytes, converse_cons_bytes, ih]

theorem alike_fileReplies (file : String) (text : List Char) :
    List.Forall₂ Reply.Alike (sessionReplies maxDepth (Text.linesOfChars text))
      (fileReplies maxDepth file text) := by
  rw [sessionReplies, fileReplies, List.forall₂_map_left_iff, List.forall₂_map_right_iff]
  exact List.forall₂_same.mpr fun _ _ ↦ Reply.alike_of_text_eq ..

/-! ### The commands -/

theorem runCommand_bytes (file : String) (text : List Char) :
    runCommand maxDepth file (some ⟨(Text.bytes text).toArray⟩)
      = .ofReplies (fileReplies maxDepth file text) := by
  rw [← Text.toUTF8_ofList, runCommand_toUTF8, String.toList_ofList]

theorem replCommand_bytes (text : List Char) :
    replCommand maxDepth ⟨(Text.bytes text).toArray⟩
      = .ofConversation (sessionReplies maxDepth (Text.linesOfChars text)) := by
  rw [← converse_map_bytes, ← Text.linesOfBytes_bytes]
  rfl

theorem runCommand_of_not_isUTF8 (file : String) {input : List UInt8} (h : ¬Text.IsUTF8 input) :
    runCommand maxDepth file (some ⟨input.toArray⟩) = ⟨1, "", []⟩ := by
  rw [runCommand, Option.bind_some, Text.fromUTF8?_of_not_isUTF8 h]
  rfl

theorem exists_first_not_isUTF8 {lines : List (List UInt8)}
    (h : ¬∀ line ∈ lines, Text.IsUTF8 line) :
    ∃ before bad after, lines = before ++ bad :: after ∧ (∀ line ∈ before, Text.IsUTF8 line) ∧
      ¬Text.IsUTF8 bad ∧ lines.takeWhile (Text.IsUTF8 ·) = before := by
  induction lines with
  | nil => exact absurd nofun h
  | cons line lines ih =>
    by_cases hline : Text.IsUTF8 line
    · obtain ⟨before, bad, after, rfl, hbefore, hbad, htake⟩ := ih fun hall ↦
        h (List.forall_mem_cons.mpr ⟨hline, hall⟩)
      refine ⟨line :: before, bad, after, rfl, List.forall_mem_cons.mpr ⟨hline, hbefore⟩, hbad, ?_⟩
      rw [List.takeWhile_cons, if_pos (decide_eq_true hline), htake]
    · exact ⟨[], line, lines, rfl, nofun, hline,
        List.takeWhile_cons_of_neg (by simpa using hline)⟩

/-- A session goes on up to the first line that cannot be decoded. -/
theorem replCommand_of_not_isUTF8 {first input bad : List UInt8} {after : List (List UInt8)}
    (hlines : Text.linesOfBytes input = Text.linesOfBytes first ++ bad :: after)
    (hfirst : Text.IsUTF8 first) (hbad : ¬Text.IsUTF8 bad) :
    replCommand maxDepth ⟨input.toArray⟩
      = { replCommand maxDepth ⟨first.toArray⟩ with exitCode := 1 } := by
  obtain ⟨text, rfl⟩ := Text.isUTF8_iff.mp hfirst
  change converse maxDepth (Text.linesOfBytes input)
    = { converse maxDepth (Text.linesOfBytes (Text.bytes text)) with exitCode := 1 }
  rw [hlines, Text.linesOfBytes_bytes, converse_append maxDepth hbad]

/-- **Sessions and files agree.** If all lines of some bytes can be decoded, a session prints for
each line what a file with these bytes prints for it, behind a prompt, and a last prompt, exits with
0, and reports what the file reports without the entries that have the number of a line. If not, the
file cannot be read. The session is as if it had ended before the first line that cannot be decoded,
but exits with 1. -/
theorem replCommand_runCommand (file : String) (input : ByteArray) :
    let lines := Text.cut 0x0A 0x0D input.data.toList
    let run := runCommand maxDepth file (some input)
    let session := replCommand maxDepth input
    ((∀ line ∈ lines, Text.IsUTF8 line) →
      ∃ texts shares, lines = texts.map Text.bytes ∧ IsTranscript maxDepth file texts shares ∧
        run.output = String.join (shares.map Share.printed) ∧
        run.errors = shares.flatMap Share.reported ∧
        session.exitCode = 0 ∧
        session.output = String.join (shares.map fun share ↦ "> " ++ share.printed) ++ "> " ∧
        session.errors = run.errors.filter (¬IsNumbered ·)) ∧
    ((¬∀ line ∈ lines, Text.IsUTF8 line) →
      run = ⟨1, "", []⟩ ∧
        ∃ first rest, input = first ++ rest ∧
          Text.cut 0x0A 0x0D first.data.toList = lines.takeWhile (Text.IsUTF8 ·) ∧
          session = { replCommand maxDepth first with exitCode := 1 }) := by
  obtain ⟨⟨bytes⟩⟩ := input
  simp only [← Text.lines_eq_cut]
  have hvalid := @Text.isUTF8_iff_forall_line bytes
  refine ⟨fun h ↦ ?_, fun h ↦ ?_⟩
  · obtain ⟨text, rfl⟩ := Text.isUTF8_iff.mp (hvalid.mpr h)
    have halike := alike_fileReplies maxDepth file text
    have hrun := runCommand_bytes maxDepth file text
    have hsession := replCommand_bytes maxDepth text
    exact ⟨_, _, Text.linesOfBytes_bytes text, isTranscript_fileReplies maxDepth file text,
      hrun ▸ Outcome.output_ofReplies _, hrun ▸ Outcome.errors_ofReplies _, hsession ▸ rfl,
      hsession ▸ Outcome.output_ofConversation halike,
      hrun ▸ hsession ▸ Outcome.errors_ofConversation halike⟩
  · obtain ⟨before, bad, after, hlines, hbefore, hbad, htake⟩ := exists_first_not_isUTF8 h
    obtain ⟨first, rest, rfl, rfl⟩ := Text.exists_lines_eq_of_append hlines
    have hfirst := Text.isUTF8_iff_forall_line.mpr hbefore
    refine ⟨runCommand_of_not_isUTF8 maxDepth file (mt hvalid.mp h), ⟨first.toArray⟩,
      ⟨rest.toArray⟩, ?_, htake.symm, replCommand_of_not_isUTF8 maxDepth hlines hfirst hbad⟩
    exact ByteArray.ext (Array.toList_inj.mp (by rw [ByteArray.data_append, Array.toList_append]))

/-- If the second line cannot be decoded, the file has no outcome, and the session that of its first
line. -/
theorem replCommand_runCommand_second :
    let good : ByteArray := ⟨#[0x31, 0x0A]⟩
    let input : ByteArray := ⟨#[0x31, 0x0A, 0xFF, 0x0A, 0x32]⟩
    (∀ line ∈ Text.cut 0x0A 0x0D good.data.toList, Text.IsUTF8 line) ∧
      (replCommand 9 good).exitCode = 0 ∧
      (replCommand 9 good).errors
        = (runCommand 9 "sums" (some good)).errors.filter (¬IsNumbered ·) ∧
      (¬∀ line ∈ Text.cut 0x0A 0x0D input.data.toList, Text.IsUTF8 line) ∧
      runCommand 9 "sums" (some input) = ⟨1, "", []⟩ ∧
      ∃ first rest, input = first ++ rest ∧ Text.cut 0x0A 0x0D first.data.toList = [[0x31]] ∧
        replCommand 9 input = { replCommand 9 first with exitCode := 1 } := by
  intro good input
  have hvalid : Text.IsUTF8 [0x31] := by decide +kernel
  have hbad : ¬Text.IsUTF8 [0xFF] := by decide +kernel
  have hgood : ∀ line ∈ Text.cut 0x0A 0x0D good.data.toList, Text.IsUTF8 line := by
    rw [show Text.cut 0x0A 0x0D good.data.toList = [[0x31]] by decide]
    exact List.forall_mem_singleton.mpr hvalid
  have hcut : Text.cut 0x0A 0x0D input.data.toList = [[0x31], [0xFF], [0x32]] := by decide
  have hall : ¬∀ line ∈ Text.cut 0x0A 0x0D input.data.toList, Text.IsUTF8 line := by
    rw [hcut]
    exact fun h ↦ hbad (h _ (List.mem_cons_of_mem _ List.mem_cons_self))
  obtain ⟨-, -, -, -, -, -, hexit, -, herrors⟩ := (replCommand_runCommand 9 "sums" good).1 hgood
  obtain ⟨hrun, first, rest, happend, hfirst, hsession⟩ :=
    (replCommand_runCommand 9 "sums" input).2 hall
  have htake : List.takeWhile (Text.IsUTF8 ·) [[0x31], [0xFF], [0x32]] = [[0x31]] := by
    decide +kernel
  rw [hcut, htake] at hfirst
  exact ⟨hgood, hexit, herrors, hall, hrun, first, rest, happend, hfirst, hsession⟩

end

end Calculator
