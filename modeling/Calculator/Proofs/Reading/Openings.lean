import Calculator.Proofs.Reading.Log

/-!
# Groups that are open

When the machine finds a group unclosed, it names the parenthesis that opened it. What was read
since is then an expression, and nothing but that: so no group was opened behind this parenthesis
that is not closed.

## How the parenthesis is known

A frame keeps the token that opened its group, and the words for which the frames below it stand
come before that token (`Machine.Marked`). The frames above stand for the words behind it, as they
would if the group were all there is (`Machine.Stacked.exists_of_append`). A group is found unclosed
where an operand has been handed down to its frame; on the stack of what is in the group alone, the
same operand would have been the whole (`Machine.exists_append_of_unclosed`).
-/

namespace Calculator

namespace Machine

/-! ## What a stack stands for -/

section

variable {root floor : Precedence} {words : List Lexeme} {frames : List Frame}

theorem Stacked.width_eq (h : Stacked root words floor frames) : width frames = words.length := by
  induction h with
  | bottom => rfl
  | sign h ih | group h ih => simp [width, ih]
  | rhs h hlt hl ih => simp [width, ih, hl.lexemes_eq, Nat.add_assoc]

theorem State.HasRead.taken_eq {state : State} (h : state.HasRead root words) :
    state.taken = words.length := by
  rcases h with ⟨hstack⟩ | ⟨hstack, he⟩
  · exact hstack.width_eq
  · rw [List.length_append, ← hstack.width_eq, ← he.lexemes_eq]
    rfl

/-- What is above the frame of a group stands for the words behind its parenthesis. -/
theorem Stacked.exists_of_append {opening : Token} {outer : Precedence} {above below : List Frame}
    (h : Stacked root words floor (above ++ .group opening outer :: below)) :
    ∃ before inner : List Lexeme, words = before ++ .leftParen :: inner ∧
      before.length = width below ∧ Stacked .lowest inner floor above := by
  induction above generalizing words floor with
  | nil =>
    rcases h with _ | _ | h
    exact ⟨_, [], rfl, h.width_eq.symm, .bottom⟩
  | cons frame above ih =>
    rcases h with _ | h | h | ⟨h, hlt, hl⟩ <;>
      obtain ⟨before, inner, rfl, hlength, hinner⟩ := ih h <;>
      simp only [List.append_assoc, List.cons_append]
    · exact ⟨before, _, rfl, hlength, hinner.sign⟩
    · exact ⟨before, _, rfl, hlength, hinner.group⟩
    · exact ⟨before, _, rfl, hlength, hinner.rhs hlt hl⟩

end

theorem begin_ne_unclosed (t : Token) (floor : Precedence) (frames : List Frame)
    (found opening : Token) :
    begin t floor frames ≠ .keep (.error (.missingClosingParen found opening)) ∧
      begin t floor frames ≠ .take (.error (.missingClosingParen found opening)) := by
  unfold begin
  split
  · split <;> simp
  all_goals simp

theorem step_ne_keep_unclosed (limit : Nat) (state : State) (t found opening : Token) :
    (state.step limit (.token t)).verdict
      ≠ .keep (.error (.missingClosingParen found opening)) := by
  intro h
  obtain ⟨_ | e, floor, frames⟩ := state
  · rw [step_operand] at h
    split at h
    · exact (begin_ne_unclosed t floor frames found opening).1 h
    · cases h
  · have hsettled := settled t e floor frames
    rw [← step_operator limit, h] at hsettled
    cases hsettled

/-- Where a group is found unclosed, the operand is the whole of what is in the group. -/
theorem exists_append_of_unclosed {t found opening : Token} {e : Expr} {floor : Precedence}
    {frames : List Frame}
    (h : (settle t e floor frames).verdict = .take (.error (.missingClosingParen found opening))) :
    found = t ∧ ∃ (above below : List Frame) (outer : Precedence) (content : Expr),
      frames = above ++ .group opening outer :: below ∧
      (settle t e floor above).verdict = .keep (.ok content) := by
  induction frames generalizing e floor with
  | nil =>
    cases hrole : Reader.role floor t.lexeme with
    | ends => rw [settle_of_ends hrole] at h; cases h
    | strays => rw [settle_of_strays hrole] at h; cases h
    | joins op => rw [settle_of_joins hrole] at h; cases h
  | cons frame frames ih =>
    cases hrole : Reader.role floor t.lexeme with
    | strays => rw [settle_of_strays hrole] at h; cases h
    | joins op => rw [settle_of_joins hrole] at h; cases h
    | ends =>
      rw [settle_of_ends hrole] at h
      rcases frame with ⟨s, outer⟩ | ⟨opening', outer⟩ | ⟨op, lhs, outer⟩
      · obtain ⟨rfl, above, below, outer', content, rfl, hcontent⟩ := ih h
        refine ⟨rfl, .sign s outer :: above, below, outer', content, rfl, ?_⟩
        rwa [settle_of_ends hrole]
      · rw [release_group] at h
        split at h
        · cases h
        · cases h
          exact ⟨rfl, [], frames, outer, e, rfl, by rw [settle_of_ends hrole]; rfl⟩
      · obtain ⟨rfl, above, below, outer', content, rfl, hcontent⟩ := ih h
        refine ⟨rfl, .rhs op lhs outer :: above, below, outer', content, rfl, ?_⟩
        rwa [settle_of_ends hrole]

/-! ## Parentheses in their places -/

/-- The frames of the groups have the tokens that stand where the groups were opened. -/
def Marked (taken : List Token) : List Frame → Prop
  | [] => True
  | .group opening _ :: frames => taken[width frames]? = some opening ∧ Marked taken frames
  | .sign _ _ :: frames | .rhs _ _ _ :: frames => Marked taken frames

section

variable {taken : List Token} {frames : List Frame}

theorem Marked.of_suffix (h : Marked taken frames) {below : List Frame} (hle : below <:+ frames) :
    Marked taken below := by
  induction frames with
  | nil => exact List.suffix_nil.mp hle ▸ h
  | cons frame frames ih =>
    rcases List.suffix_cons_iff.mp hle with rfl | hbelow
    · exact h
    · rcases frame with _ | _ | _
      · exact ih h hbelow
      · exact ih h.2 hbelow
      · exact ih h hbelow

theorem Marked.append (h : Marked taken frames) (more : List Token) :
    Marked (taken ++ more) frames := by
  induction frames with
  | nil => trivial
  | cons frame frames ih =>
    rcases frame with _ | _ | _
    · exact ih h
    · obtain ⟨hlt, -⟩ := List.getElem?_eq_some_iff.mp h.1
      exact ⟨by rw [List.getElem?_append_left hlt, h.1], ih h.2⟩
    · exact ih h

theorem Marked.settle (h : Marked taken frames) {t : Token} {e : Expr} {floor : Precedence}
    {next : State} (hnext : (settle t e floor frames).verdict = .go next) :
    Marked taken next.frames := by
  have hsettled := settled t e floor frames
  rw [hnext] at hsettled
  cases hsettled with
  | @joins _ _ below lhs hrole hbelow =>
    have hmarked : Marked taken below := h.of_suffix hbelow
    exact hmarked
  | closes content ht hbelow => exact (h.of_suffix hbelow).2

theorem Marked.begin (h : Marked taken frames) (hwidth : width frames = taken.length) {t : Token}
    {floor : Precedence} {next : State} (hnext : begin t floor frames = .go next) :
    Marked (taken ++ [t]) next.frames := by
  obtain ⟨lexeme, offset⟩ := t
  cases lexeme with
  | number literal =>
    rw [begin_number] at hnext
    split at hnext
    · cases hnext
      exact h.append _
    · cases hnext
  | plus | minus =>
    cases hnext
    exact h.append _
  | leftParen =>
    cases hnext
    exact ⟨by rw [hwidth, List.getElem?_concat_length], h.append _⟩
  | _ => cases hnext

end

/-! ## What is remembered of the tokens -/

/-- The tokens were taken on the way to the state, and its groups are marked in them. -/
structure State.Recalls (root : Precedence) (taken : List Token) (state : State) : Prop where
  read : state.HasRead root (taken.map Token.lexeme)
  marked : Marked taken state.frames

theorem recalls_start (root : Precedence) : (start root).Recalls root [] :=
  ⟨hasRead_start root, trivial⟩

section

variable {root : Precedence} {taken : List Token} {state next : State} {limit : Nat} {t : Token}

theorem State.Recalls.step (h : state.Recalls root taken)
    (hnext : (state.step limit (.token t)).verdict = .go next) :
    next.Recalls root (taken ++ [t]) := by
  have hread := hasRead_step h.read limit t
  rw [hnext] at hread
  refine ⟨by rwa [List.map_append], ?_⟩
  have hmarked := h.marked
  have htaken := h.read.taken_eq
  obtain ⟨_ | e, floor, frames⟩ := state
  · rw [step_operand] at hnext
    split at hnext
    · exact hmarked.begin (htaken.trans (List.length_map _)) hnext
    · cases hnext
  · exact (hmarked.settle hnext).append [t]

theorem State.Recalls.unclosed (h : state.Recalls root taken) {found opening : Token}
    (hunclosed : (state.step limit (.token t)).verdict
      = .take (.error (.missingClosingParen found opening))) :
    found = t ∧ opening.lexeme = .leftParen ∧ ∃ (before inner : List Token) (content : Expr),
      taken = before ++ opening :: inner ∧ Derives .expr (inner.map Token.lexeme) content := by
  obtain ⟨hread, hmarked⟩ := h
  obtain ⟨_ | e, floor, frames⟩ := state
  · rw [step_operand] at hunclosed
    split at hunclosed
    · exact absurd hunclosed (begin_ne_unclosed t floor frames found opening).2
    · cases hunclosed
  · obtain ⟨rfl, above, below, outer, content, rfl, hcontent⟩ :=
      exists_append_of_unclosed hunclosed
    generalize hwords : taken.map Token.lexeme = words at hread
    rcases hread with _ | ⟨hstack, he⟩
    obtain ⟨before, inner, rfl, hlength, hinner⟩ := hstack.exists_of_append
    have hderives := hasRead_settle (t := found) hinner he (Phrase.unary_le _)
      fun op _ _ ↦ Phrase.unary_le _
    rw [hcontent] at hderives
    -- the words before the parenthesis tell where it stands
    rw [List.append_assoc, List.cons_append] at hwords
    obtain ⟨first, last, rfl, rfl, hlast⟩ := List.map_eq_append_iff.mp hwords
    obtain ⟨opening', inner', rfl, hopening, hinner'⟩ := List.map_eq_cons_iff.mp hlast
    have hmark := (hmarked.of_suffix (List.suffix_append _ _)).1
    rw [← hlength, List.length_map, List.getElem?_append_right (Nat.le_refl _), Nat.sub_self,
      List.getElem?_cons_zero] at hmark
    cases hmark
    exact ⟨rfl, hopening, first, inner', content, rfl, hinner' ▸ hderives.1⟩

/-- Whenever it comes to it, a group that is found unclosed has an expression in it. -/
theorem run_unclosed {finish : Nat} {items : List Item} (h : state.Recalls root taken)
    {found opening : Token} (hanswer : (run limit finish state items).answer
      = .error (.missingClosingParen found opening)) :
    opening.lexeme = .leftParen ∧
      ∃ (before inner : List Token) (rest : List Item) (content : Expr),
        taken.map Item.token ++ items
          = before.map Item.token ++ .token opening :: (inner.map Item.token ++ rest) ∧
        rest.headD (.endAt finish) = .token found ∧
        Derives .expr (inner.map Token.lexeme) content := by
  refine run_induction (motive := fun state items result ↦ ∀ {taken}, state.Recalls root taken →
    result.answer = .error (.missingClosingParen found opening) → opening.lexeme = .leftParen ∧
      ∃ (before inner : List Token) (rest : List Item) (content : Expr),
        taken.map Item.token ++ items
          = before.map Item.token ++ .token opening :: (inner.map Item.token ++ rest) ∧
        rest.headD (.endAt finish) = .token found ∧
        Derives .expr (inner.map Token.lexeme) content) items ?_ ?_ ?_ ?_ state h hanswer
  · intro state next log t items hstep ih taken h hanswer
    have hnext := ih (h.step (congrArg Reaction.verdict hstep)) hanswer
    rwa [List.map_append, List.append_assoc] at hnext
  · rintro state answer log t items hfront hstep taken h ⟨rfl⟩
    exact absurd (congrArg Reaction.verdict hstep) (step_ne_keep_unclosed limit state t _ _)
  · rintro state answer log t items hfront hstep taken h ⟨rfl⟩
    obtain ⟨rfl, hopening, before, inner, content, rfl, hderives⟩ :=
      h.unclosed (congrArg Reaction.verdict hstep)
    refine ⟨hopening, before, inner, items, content, ?_, hfront, hderives⟩
    rw [List.map_append, List.map_cons, List.append_assoc, List.cons_append]
  · rintro state c offset items taken h ⟨⟩

end

end Machine

end Calculator
