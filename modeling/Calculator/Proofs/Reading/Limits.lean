import Calculator.Proofs.Lexing.Kinds
import Calculator.Proofs.Reading.Simulation

/-!
# Limits

A level is in use for each frame of the stack. A step begins one level at most, and it takes an item
to do so. Hence a run that is stopped by the limit has taken at least as many items as the limit
allows levels, and an input with fewer items is never stopped.

What a limit does to an evaluation is to end it early, and nothing else. Below a higher limit the
same is read, recorded and reported, only that it goes on where the lower limit stopped it.

## Two runs side by side

The machine looks at the limit where an operand begins, and only if a token is there to begin it:
a character that is in no lexeme is reported before the limit is looked at. So two machines in the
same state, with different limits, react alike to an item, or else the lower limit is reached
(`Machine.step_eq_or_stopped`). In that case the token was recorded already, and whatever the higher
limit still brings about is recorded later and points to that token or behind it, since a run points
to the items that it has in front of it (`Machine.offset_mem_of_whole`).
-/

namespace Calculator

/-! ## How many levels are in use -/

namespace Machine

/-- What a reaction does to a stack of a height: it adds one frame at most, and it stops at the
limit only if there is no room for one. -/
def Verdict.Climbs (limit height : Nat) : Verdict → Prop
  | .go next => next.frames.length ≤ height + 1
  | .keep (.error (.depthLimitExceeded n _)) => n = limit ∧ limit ≤ height
  | .take (.error (.depthLimitExceeded _ _)) => False
  | .keep _ | .take _ => True

theorem climbs_settle (limit : Nat) (t : Token) (e : Expr) (floor : Precedence)
    (frames : List Frame) : (settle t e floor frames).verdict.Climbs limit frames.length := by
  -- a frame is added only after others were removed, or with none removed
  have hsettled := settled t e floor frames
  generalize (settle t e floor frames).verdict = verdict at hsettled ⊢
  cases hsettled with
  | ends | strays | unclosed => trivial
  | joins lhs hrole hbelow => exact Nat.succ_le_succ hbelow.length_le
  | closes content ht hbelow =>
    have hlength := hbelow.length_le
    rw [List.length_cons] at hlength
    exact Nat.le_trans (Nat.le_succ _) (Nat.le_succ_of_le hlength)

theorem climbs_begin (limit : Nat) (t : Token) (floor : Precedence) (frames : List Frame) :
    (begin t floor frames).Climbs limit frames.length := by
  unfold begin
  split
  · split
    · exact Nat.le_succ _
    · trivial
  · exact Nat.le_refl _
  · exact Nat.le_refl _
  · exact Nat.le_refl _
  · trivial

theorem climbs_step (limit : Nat) (state : State) (item : Item) :
    (state.step limit item).verdict.Climbs limit state.frames.length := by
  obtain ⟨_ | e, floor, frames⟩ := state
  · cases item with
    | stray c offset => trivial
    | token t =>
      rw [step_operand]
      split
      · exact climbs_begin limit t floor frames
      · next h => exact ⟨rfl, Nat.le_of_not_lt h⟩
  · cases item with
    | stray c offset => trivial
    | token t => exact climbs_settle limit t e floor frames

/-- **Stopped by the limit.** A run that the limit stops has taken tokens only, and one for every
level that it went up. -/
theorem exists_taken_of_stopped {limit finish : Nat} {state : State} {items : List Item} {n : Nat}
    {t : Token} (h : (run limit finish state items).answer = .error (.depthLimitExceeded n t)) :
    n = limit ∧ ∃ taken : List Token,
      items = taken.map Item.token ++ (run limit finish state items).rest ∧
      limit ≤ state.frames.length + taken.length := by
  refine run_induction (motive := fun state items result ↦
    result.answer = .error (.depthLimitExceeded n t) →
      n = limit ∧ ∃ taken : List Token, items = taken.map Item.token ++ result.rest ∧
        limit ≤ state.frames.length + taken.length)
    items ?_ ?_ ?_ ?_ state h
  · intro state next log t items hstep ih h
    have hclimbs := climbs_step limit state (.token t)
    rw [hstep] at hclimbs
    have hframes : next.frames.length ≤ state.frames.length + 1 := hclimbs
    obtain ⟨hn, taken, hitems, hle⟩ := ih h
    refine ⟨hn, t :: taken, congrArg _ hitems, Nat.le_trans hle ?_⟩
    rw [List.length_cons]
    omega
  · rintro state answer log t items hfront hstep ⟨rfl⟩
    have hclimbs := climbs_step limit state (.token t)
    rw [hstep] at hclimbs
    exact ⟨hclimbs.1, [], rfl, hclimbs.2⟩
  · rintro state answer log t items hfront hstep ⟨rfl⟩
    have hclimbs := climbs_step limit state (.token t)
    rw [hstep] at hclimbs
    exact hclimbs.elim
  · rintro state c offset items ⟨⟩

end Machine

theorem Source.le_length_items_of_answer {source : Source} {maxDepth n : Nat}
    {diagnostic : Diagnostic} {t : Token}
    (h : (source.evaluate maxDepth).answer = .error diagnostic)
    (hproblem : diagnostic.problem = .depthLimitExceeded n t) :
    n = maxDepth ∧ maxDepth ≤ source.items.length := by
  have hwhole := (answer_eq_error_iff.mp h).2
  rw [hproblem] at hwhole
  rcases Machine.Result.answer_of_whole_eq_error hwhole with hanswer | ⟨t', _, _, ht'⟩
  · obtain ⟨hn, taken, hitems, hle⟩ := Machine.exists_taken_of_stopped hanswer
    rw [Machine.start, List.length_nil, Nat.zero_add] at hle
    refine ⟨hn, Nat.le_trans hle ?_⟩
    rw [hitems, List.length_append, List.length_map]
    exact Nat.le_add_right _ _
  · cases ht'

/-! ## Where the items stand -/

/-- Where the items stand, and where the input ends. -/
def Item.places (finish : Nat) (items : List Item) : List Nat :=
  (items.map fun item ↦ item.span.offset) ++ [finish]

theorem Item.places_eq_cons (finish : Nat) (items : List Item) :
    ∃ more, places finish items = (items.headD (.endAt finish)).span.offset :: more := by
  cases items with
  | nil => exact ⟨[], rfl⟩
  | cons item items => exact ⟨places finish items, rfl⟩

namespace Machine

/-! ## What a problem points to -/

/-- A reaction to an item reports a problem that is about that item. -/
def Verdict.PointsTo (item : Item) : Verdict → Prop
  | .keep (.error problem) | .take (.error problem) => problem.item = item
  | .keep (.ok _) | .take (.ok _) | .go _ => True

theorem pointsTo_settle (t : Token) (e : Expr) (floor : Precedence) (frames : List Frame) :
    (settle t e floor frames).verdict.PointsTo (.token t) := by
  have hsettled := settled t e floor frames
  generalize (settle t e floor frames).verdict = verdict at hsettled ⊢
  cases hsettled with
  | ends | joins | closes => trivial
  | strays | unclosed => rfl

theorem pointsTo_begin (t : Token) (floor : Precedence) (frames : List Frame) :
    (begin t floor frames).PointsTo (.token t) := by
  obtain ⟨lexeme, offset⟩ := t
  cases lexeme with
  | number literal =>
    rw [begin_number]
    split
    · trivial
    · rfl
  | plus | minus | leftParen => trivial
  | _ => rfl

theorem pointsTo_step (limit : Nat) (state : State) (item : Item) :
    (state.step limit item).verdict.PointsTo item := by
  obtain ⟨_ | e, floor, frames⟩ := state
  · cases item with
    | stray c offset => rfl
    | token t =>
      rw [step_operand]
      split
      · exact pointsTo_begin t floor frames
      · rfl
  · cases item with
    | stray c offset => rfl
    | token t => exact pointsTo_settle t e floor frames

theorem headD_mem_append (finish : Nat) (items : List Item) :
    items.headD (.endAt finish) ∈ items ++ [.endAt finish] := by
  cases items with
  | nil => exact List.mem_singleton_self _
  | cons item items => exact List.mem_cons_self

/-- Before the item that a run reports there are tokens only. -/
theorem exists_taken_of_answer {limit finish : Nat} {state : State} {items : List Item}
    {problem : Problem} (h : (run limit finish state items).answer = .error problem) :
    ∃ (taken : List Token) (rest : List Item), items = taken.map Item.token ++ rest ∧
      problem.item = rest.headD (.endAt finish) := by
  refine run_induction (motive := fun _ items result ↦ result.answer = .error problem →
    ∃ (taken : List Token) (rest : List Item), items = taken.map Item.token ++ rest ∧
      problem.item = rest.headD (.endAt finish)) items ?_ ?_ ?_ ?_ state h
  · intro state next log t items hstep ih h
    obtain ⟨taken, rest, hitems, hfront⟩ := ih h
    exact ⟨t :: taken, rest, congrArg _ hitems, hfront⟩
  · rintro state answer log t items hfront hstep ⟨rfl⟩
    have hpoints := pointsTo_step limit state (.token t)
    rw [hstep] at hpoints
    exact ⟨[], items, rfl, hpoints.trans hfront.symm⟩
  · rintro state answer log t items hfront hstep ⟨rfl⟩
    have hpoints := pointsTo_step limit state (.token t)
    rw [hstep] at hpoints
    exact ⟨[], items, rfl, hpoints.trans hfront.symm⟩
  · rintro state c offset items ⟨⟩
    exact ⟨[], .stray c offset :: items, rfl, rfl⟩

theorem item_mem_of_answer {limit finish : Nat} {state : State} {items : List Item}
    {problem : Problem} (h : (run limit finish state items).answer = .error problem) :
    problem.item ∈ items ++ [.endAt finish] := by
  obtain ⟨taken, rest, rfl, hfront⟩ := exists_taken_of_answer h
  rw [hfront, List.append_assoc]
  exact List.mem_append_right _ (headD_mem_append finish rest)

theorem item_mem_of_whole {limit finish : Nat} {state : State} {items : List Item}
    {problem : Problem} (h : (run limit finish state items).whole = .error problem) :
    problem.item ∈ items ++ [.endAt finish] := by
  rcases Result.answer_of_whole_eq_error h with hanswer | ⟨t, rest, hrest, rfl⟩
  · exact item_mem_of_answer hanswer
  · have hmem : Item.token t ∈ items :=
      (run_rest_suffix limit finish state items).subset (hrest ▸ List.mem_cons_self)
    exact List.mem_append_left _ hmem

theorem offset_mem_of_whole {limit finish : Nat} {state : State} {items : List Item}
    {problem : Problem} (h : (run limit finish state items).whole = .error problem) :
    problem.offset ∈ Item.places finish items := by
  have hmem := List.mem_map_of_mem (f := fun item ↦ item.span.offset) (item_mem_of_whole h)
  rwa [List.map_append, problem.span_item] at hmem

/-! ## Two runs -/

/-- `result.Reveals limit more` says that a run with a higher limit came to the same, or that the
limit stopped the run and the other one went on. -/
inductive Result.Reveals (limit : Nat) (result more : Result) : Prop
  | same (h : more = result)
  | stopped {t : Token} (hanswer : result.answer = .error (.depthLimitExceeded limit t))
      (hlog : result.log <+: more.log)
      (hoffset : ∀ problem, more.whole = .error problem → t.offset ≤ problem.offset)

theorem Result.Reveals.after {limit : Nat} {result more : Result} (h : result.Reveals limit more)
    (log : List Record) : (result.after log).Reveals limit (more.after log) := by
  cases h with
  | same h => exact .same (by rw [h])
  | stopped hanswer hlog hoffset =>
    exact .stopped hanswer ((List.prefix_append_right_inj log).mpr hlog) hoffset

/-- Below two limits the same is done about an item, or the lower one is reached. -/
theorem step_eq_or_stopped {n m : Nat} (hle : n ≤ m) (state : State) (item : Item) :
    state.step m item = state.step n item ∨
      ∃ t, item = .token t ∧
        state.step n item = ⟨.keep (.error (.depthLimitExceeded n t)), []⟩ := by
  cases item with
  | stray c offset => exact .inl rfl
  | token t =>
    obtain ⟨_ | e, floor, frames⟩ := state
    · rw [step_operand, step_operand]
      by_cases hlevel : frames.length < n
      · rw [if_pos hlevel, if_pos (Nat.lt_of_lt_of_le hlevel hle)]
        exact .inl rfl
      · exact .inr ⟨t, rfl, if_neg hlevel⟩
    · exact .inl rfl

/-- **A higher limit reveals more of the same run.** -/
theorem reveals_run {n m : Nat} (hle : n ≤ m) (finish : Nat) (state : State) {items : List Item}
    (hplaces : (Item.places finish items).Pairwise (· < ·)) :
    (run n finish state items).Reveals n (run m finish state items) := by
  refine run_induction (motive := fun state items result ↦
    (Item.places finish items).Pairwise (· < ·) → result.Reveals n (run m finish state items))
    items ?_ ?_ ?_ ?_ state hplaces
  · intro state next log t items hstep ih hplaces
    rcases step_eq_or_stopped hle state (.token t) with hsame | ⟨t', -, hstopped⟩
    · rw [run_of_go (.token t :: items) (hsame.trans hstep)]
      exact (ih hplaces.of_cons).after _
    · cases hstep.symm.trans hstopped
  · intro state answer log t items hfront hstep hplaces
    rcases step_eq_or_stopped hle state (.token t) with hsame | ⟨t', ht', hstopped⟩
    · exact .same (by rw [run_of_keep items (hfront ▸ hsame.trans hstep), hfront])
    · cases ht'
      cases hstep.symm.trans hstopped
      refine .stopped rfl ?_ fun problem hproblem ↦ ?_
      · rw [run_eq, hfront, List.append_nil]
        exact List.prefix_append _ _
      · -- the token stands at the first of the places
        obtain ⟨more, hmore⟩ := Item.places_eq_cons finish items
        have hmem := offset_mem_of_whole hproblem
        rw [hmore, hfront] at hplaces hmem
        rcases List.mem_cons.mp hmem with heq | hmem
        · exact Nat.le_of_eq heq.symm
        · exact Nat.le_of_lt (List.rel_of_pairwise_cons hplaces hmem)
  · intro state answer log t items hfront hstep hplaces
    rcases step_eq_or_stopped hle state (.token t) with hsame | ⟨t', -, hstopped⟩
    · exact .same (by rw [run_of_take items (hfront ▸ hsame.trans hstep), hfront])
    · cases hstep.symm.trans hstopped
  · intro state c offset items hplaces
    exact .same (run_of_take (.stray c offset :: items) (step_stray m state c offset))

end Machine

namespace Source

theorem reveals_reading (source : Source) {n m : Nat} (hle : n ≤ m) :
    (source.reading n).Reveals n (source.reading m) := by
  refine Machine.reveals_run hle source.finish (Machine.start .lowest) ?_
  have hplaces := source.pairwise_places
  rwa [places, ← source.finish_eq] at hplaces

/-- **A higher limit reveals more of the same evaluation.** An evaluation that does not come to its
limit comes to the same below every higher one, and makes the same records; this includes a
character in no lexeme that is met where the limit is reached. If it does come to its limit, then
below a higher one the same records are made and perhaps more, and what is reported then, if
anything, does not stand before the place where the limit was reached. -/
theorem evaluate_of_le (source : Source) {n m : Nat} (hle : n ≤ m) :
    ((∀ diagnostic limit t, (source.evaluate n).answer = .error diagnostic →
        diagnostic.problem ≠ .depthLimitExceeded limit t) →
      (source.evaluate m).answer = (source.evaluate n).answer ∧
        (source.evaluate m).log = (source.evaluate n).log) ∧
    ∀ diagnostic limit t, (source.evaluate n).answer = .error diagnostic →
      diagnostic.problem = .depthLimitExceeded limit t →
        limit = n ∧ (source.evaluate n).log <+: (source.evaluate m).log ∧
          ∀ other, (source.evaluate m).answer = .error other →
            diagnostic.problem.offset ≤ other.problem.offset := by
  cases reveals_reading source hle with
  | same hsame =>
    have hanswer : (source.evaluate m).answer = (source.evaluate n).answer := by
      rw [answer_evaluate, answer_evaluate, hsame]
    have hlog : (source.evaluate m).log = (source.evaluate n).log := by
      rw [log_evaluate, log_evaluate, hsame]
    refine ⟨fun _ ↦ ⟨hanswer, hlog⟩, fun diagnostic limit t h hproblem ↦ ?_⟩
    refine ⟨(le_length_items_of_answer h hproblem).1, hlog ▸ List.prefix_rfl, fun other hother ↦ ?_⟩
    cases h.symm.trans (hanswer.symm.trans hother)
    exact Nat.le_refl _
  | @stopped t hstopped hlog hoffset =>
    have hwhole := Machine.Result.whole_of_answer_eq_error hstopped
    have hanswer : (source.evaluate n).answer = .error ⟨source, .depthLimitExceeded n t⟩ :=
      answer_eq_error_iff.mpr ⟨rfl, hwhole⟩
    refine ⟨fun h ↦ absurd rfl (h _ n t hanswer), fun diagnostic limit t' h hproblem ↦ ?_⟩
    cases hanswer.symm.trans h
    cases hproblem
    refine ⟨rfl, ?_, fun other hother ↦ hoffset _ (answer_eq_error_iff.mp hother).2⟩
    rw [log_evaluate, log_evaluate, Machine.Result.closing, hwhole, List.append_nil]
    exact hlog.trans (List.prefix_append _ _)

/-- In `1+(2` the group is not closed, but with two levels its content is too deep; and in `-$` the
character is reported where the limit is reached. -/
theorem evaluate_of_le_unclosed :
    (2 ≤ defaultMaxDepth ∧
      (Source.evaluate ⟨none, "1+(2"⟩ 2).answer
        = .error ⟨⟨none, "1+(2"⟩, .depthLimitExceeded 2 ⟨.number ['2'], 3⟩⟩ ∧
      (Source.evaluate ⟨none, "1+(2"⟩ 2).log
        <+: (Source.evaluate ⟨none, "1+(2"⟩ defaultMaxDepth).log) ∧
    1 ≤ defaultMaxDepth ∧
      (Source.evaluate ⟨none, "-$"⟩ defaultMaxDepth).answer
        = .error ⟨⟨none, "-$"⟩, .unrecognizedCharacter '$' 1⟩ := by
  have hdeep : (Source.evaluate ⟨none, "1+(2"⟩ 2).answer
      = .error ⟨⟨none, "1+(2"⟩, .depthLimitExceeded 2 ⟨.number ['2'], 3⟩⟩ := by
    refine answer_eq_error_iff.mpr ⟨rfl, ?_⟩
    have hitems : Source.items ⟨none, "1+(2"⟩ = [.token ⟨.number ['1'], 0⟩, .token ⟨.plus, 1⟩,
        .token ⟨.leftParen, 2⟩, .token ⟨.number ['2'], 3⟩] := by decide +kernel
    rw [reading, hitems]
    rfl
  have hstray : (Source.evaluate ⟨none, "-$"⟩ 1).answer
      = .error ⟨⟨none, "-$"⟩, .unrecognizedCharacter '$' 1⟩ := by
    refine answer_eq_error_iff.mpr ⟨rfl, ?_⟩
    have hitems : Source.items ⟨none, "-$"⟩ = [.token ⟨.minus, 0⟩, .stray '$' 1] := by
      decide +kernel
    rw [reading, hitems]
    rfl
  have hle : 2 ≤ defaultMaxDepth ∧ 1 ≤ defaultMaxDepth := by decide
  refine ⟨⟨hle.1, hdeep, ((evaluate_of_le _ hle.1).2 _ 2 _ hdeep rfl).2.1⟩, hle.2, ?_⟩
  refine ((evaluate_of_le _ hle.2).1 ?_).1.trans hstray
  rintro diagnostic limit t h hproblem
  cases hstray.symm.trans h
  cases hproblem

end Source

end Calculator
