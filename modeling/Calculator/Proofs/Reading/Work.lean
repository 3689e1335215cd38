import Calculator.Proofs.Reading.Calls
import Calculator.Proofs.Reading.Limits

/-!
# How much an evaluation does

An evaluator never goes back in the text, so all that it does can be paid for with the tokens that
it takes. What is compared are the tokens that were not taken, a held one among them: to look at a
token costs nothing, and whoever holds a token has not used it up.

## The account

At the beginning of a call there is one more call to be paid for. A call that comes to a value has
taken a token, which pays for it, so that the calls that were made and the tokens that are left
together are no more than before (`Lexer.Owes`). A call that comes to a diagnostic need not have
taken anything, but then all the calls around it end as well, and each of these took a token before
it made a call. So one call in all is left unpaid.

## The end of the input

The limit is looked at before the first token, but with one level at least there is no step that
takes nothing: either an operand begins or what comes is refused together with the item
(`Machine.rest_run_start_suffix`). Steps therefore come to the end of the input, each taking an
item.
-/

namespace Calculator

open Lexer (peek next)

/-! ## What is left -/

/-- Whether an item is a token. -/
def Item.isToken : Item → Bool
  | .token _ => true
  | .stray _ _ => false

namespace Lexer

/-- The number of tokens that were not taken. -/
def tokensLeft (lexer : Lexer) : Nat := lexer.ahead.countP Item.isToken

theorem MovesTo.tokensLeft {lexer after : Lexer} {items : List Item} {held : Option Token}
    (h : lexer.MovesTo after items held) : after.tokensLeft = items.countP Item.isToken := by
  rw [Lexer.tokensLeft, h.ahead]

theorem tokensLeft_eq_of_front {lexer : Lexer} {t : Token} (h : lexer.front = .token t)
    (ht : t.lexeme ≠ .endOfInput) :
    lexer.tokensLeft = lexer.ahead.tail.countP Item.isToken + 1 := by
  rw [tokensLeft]
  rw [front] at h
  cases hahead : lexer.ahead with
  | nil =>
    rw [hahead] at h
    cases h
    exact absurd rfl ht
  | cons item items =>
    rw [hahead] at h
    cases h
    exact List.countP_cons_of_pos rfl

end Lexer

/-- The call was made in another one and began with fewer tokens left than that one, and if it came
to a value then it took a token. -/
structure Visit.Advances (visit : Visit) : Prop where
  outer : ∃ outer, visit.outer = some outer ∧ visit.start.tokensLeft < outer.tokensLeft
  took : ∀ value, visit.answer = .ok value → visit.stop.tokensLeft < visit.start.tokensLeft

/-! ## The account -/

namespace Lexer

/-- The calls that were noted advance, and together with the tokens that are left they are fewer
than `cost`; the tokens that are left are fewer than `bound`. -/
structure Owes (cost bound : Nat) (visits : List Visit) (lexer : Lexer) : Prop where
  coherent : lexer.Coherent
  advances : ∀ visit ∈ visits, visit.Advances
  paid : visits.length + lexer.tokensLeft < cost
  below : lexer.tokensLeft < bound

variable {cost bound : Nat} {visits : List Visit} {lexer : Lexer}

theorem owes_nil (hc : lexer.Coherent) :
    Owes (lexer.tokensLeft + 1) (lexer.tokensLeft + 1) [] lexer := by
  refine ⟨hc, fun visit hvisit ↦ absurd hvisit List.not_mem_nil, ?_, Nat.lt_add_one _⟩
  rw [List.length_nil, Nat.zero_add]
  exact Nat.lt_add_one _

theorem Owes.mono (h : Owes cost bound visits lexer) {cost' bound' : Nat} (hcost : cost ≤ cost')
    (hbound : bound ≤ bound') : Owes cost' bound' visits lexer :=
  ⟨h.coherent, h.advances, Nat.lt_of_lt_of_le h.paid hcost, Nat.lt_of_lt_of_le h.below hbound⟩

theorem Owes.note (h : Owes cost bound visits lexer) {visit : Visit} (hvisit : visit.Advances) :
    Owes (cost + 1) bound (visits ++ [visit]) lexer := by
  refine ⟨h.coherent, fun other hother ↦ ?_, ?_, h.below⟩
  · rcases List.mem_append.mp hother with hother | hother
    · exact h.advances other hother
    · exact List.mem_singleton.mp hother ▸ hvisit
  · have hpaid := h.paid
    rw [List.length_append, List.length_singleton]
    omega

theorem Owes.moves (h : Owes cost bound visits lexer) {after : Lexer} {items : List Item}
    {held : Option Token} (hmoves : lexer.MovesTo after items held) (hle : items <:+ lexer.ahead) :
    Owes cost bound visits after := by
  have htokens : after.tokensLeft ≤ lexer.tokensLeft :=
    hmoves.tokensLeft ▸ hle.sublist.countP_le
  have hpaid := h.paid
  exact ⟨hmoves.coherent, h.advances, by omega, Nat.lt_of_le_of_lt htokens h.below⟩

/-- A token that was taken pays for a call. -/
theorem Owes.pays (h : Owes (cost + 1) (bound + 1) visits lexer) {after : Lexer}
    {items : List Item} {held : Option Token} (hmoves : lexer.MovesTo after items held)
    (hlt : after.tokensLeft < lexer.tokensLeft) : Owes cost bound visits after := by
  have hpaid := h.paid
  have hbelow := h.below
  exact ⟨hmoves.coherent, h.advances, by omega, by omega⟩

theorem ensures_next_owes (cost bound : Nat) (visits : List Visit) :
    next.Ensures (Owes (cost + 1) (bound + 1) visits)
      (fun t lexer ↦ Owes (cost + 1) (bound + 1) visits lexer ∧
        (t.lexeme ≠ .endOfInput → Owes cost bound visits lexer))
      fun _ ↦ Owes (cost + 1) (bound + 1) visits := by
  intro lexer howes
  obtain ⟨after, hrun, hmoves⟩ := run_next howes.coherent
  have hafter := howes.moves hmoves (List.tail_suffix lexer.ahead)
  rw [hrun]
  cases hfront : lexer.front with
  | stray c offset => exact hafter
  | token t =>
    refine ⟨hafter, fun ht ↦ howes.pays hmoves ?_⟩
    rw [tokensLeft_eq_of_front hfront ht, hmoves.tokensLeft]
    exact Nat.lt_add_one _

theorem keeps_next_owes (cost bound : Nat) (visits : List Visit) :
    next.Keeps (Owes cost bound visits) := by
  refine Pass.Keeps.of_run fun lexer howes ↦ ?_
  obtain ⟨after, hrun, hmoves⟩ := run_next howes.coherent
  rw [hrun]
  exact howes.moves hmoves (List.tail_suffix lexer.ahead)

theorem keeps_peek_owes (cost bound : Nat) (visits : List Visit) :
    peek.Keeps (Owes cost bound visits) := by
  refine Pass.Keeps.of_run fun lexer howes ↦ ?_
  cases hfront : lexer.front with
  | stray c offset =>
    obtain ⟨after, hrun, hmoves⟩ := run_peek_of_stray howes.coherent hfront
    rw [hrun]
    exact howes.moves hmoves (List.tail_suffix lexer.ahead)
  | token t =>
    obtain ⟨after, hrun, hmoves⟩ := run_peek_of_token howes.coherent hfront
    rw [hrun]
    exact howes.moves hmoves List.suffix_rfl

end Lexer

/-! ## Conditions on evaluations -/

namespace Counting

theorem lexer_of_enter {counter after : Counter} (h : enter counter = some ((), after)) :
    after.lexer = counter.lexer := by
  rw [enter] at h
  split at h
  · cases h
  · cases h
    rfl

theorem lexer_of_leave {counter after : Counter} (h : leave counter = some ((), after)) :
    after.lexer = counter.lexer := by
  rw [leave] at h
  split at h
  · cases h
  · cases h
    rfl

end Counting

namespace Tracing

open Counting (passIn operandIn linkIn levelIn)
open Lexer (Owes)

variable {α β : Type}

/-- From calls and a lexer with `P` the evaluation, if it comes to an end, comes to an answer and to
calls and a lexer with `Q`, or to a diagnostic and to calls and a lexer with `E`. -/
def Ensures (P : List Visit → Lexer → Prop) (tracing : Tracing α)
    (Q : α → List Visit → Lexer → Prop) (E : List Visit → Lexer → Prop) : Prop :=
  ∀ tracer answer after, P tracer.visits tracer.counter.lexer →
    tracing tracer = some (answer, after) →
      match answer with
      | .ok a => Q a after.visits after.counter.lexer
      | .error _ => E after.visits after.counter.lexer

namespace Ensures

variable {P : List Visit → Lexer → Prop} {Q : α → List Visit → Lexer → Prop}
  {E : List Visit → Lexer → Prop}

protected theorem pure {a : α} (h : ∀ visits lexer, P visits lexer → Q a visits lexer) :
    Ensures P (pure a) Q E := by
  rintro tracer _ _ hP ⟨rfl⟩
  exact h _ _ hP

theorem mono {P' : List Visit → Lexer → Prop} {tracing : Tracing α}
    (hP : ∀ visits lexer, P' visits lexer → P visits lexer) (h : Ensures P tracing Q E) :
    Ensures P' tracing Q E :=
  fun tracer answer after hP' hrun ↦ h tracer answer after (hP _ _ hP') hrun

protected theorem bind {R : β → List Visit → Lexer → Prop} {first : Tracing α}
    {next : α → Tracing β} (h : Ensures P first Q E) (hnext : ∀ a, Ensures (Q a) (next a) R E) :
    Ensures P (first >>= next) R E := by
  intro tracer answer after hP hrun
  obtain ⟨⟨firstAnswer, mid⟩, hfirst, hsecond⟩ := Option.bind_eq_some_iff.mp hrun
  have hmid := h tracer firstAnswer mid hP hfirst
  cases firstAnswer with
  | ok a => exact hnext a mid answer after hmid hsecond
  | error diagnostic =>
    cases hsecond
    exact hmid

theorem passIn {pass : Pass α}
    (h : ∀ visits, pass.Ensures (P visits) (fun a ↦ Q a visits) fun _ ↦ E visits) :
    Ensures P (passIn onCounter pass) Q E := by
  intro tracer answer after hP hrun
  cases hrun
  exact h tracer.visits tracer.counter.lexer hP

theorem levelIn {expression : Lexer → Tracing Float} {Q : Float → List Visit → Lexer → Prop}
    {start : Lexer} (h : Ensures P (expression start) Q P)
    (hpeek : ∀ visits, peek.Keeps (P visits)) :
    Ensures (fun visits lexer ↦ lexer = start ∧ P visits lexer)
      (Counting.levelIn onCounter expression) Q P := by
  rintro tracer answer after ⟨hstart, hP⟩ hrun
  change (if tracer.counter.maxDepth ≤ tracer.counter.depth then _ else _ :
    StateT Tracer Option _) tracer = _ at hrun
  split at hrun
  · have hrefuse : Ensures P (Counting.passIn onCounter
        (Reader.refuse tracer.counter.maxDepth.toNat)) Q P := by
      refine Ensures.passIn fun visits ↦ (hpeek visits).bind fun t ↦ ?_
      exact Pass.Ensures.fail fun _ h ↦ h
    exact hrefuse tracer answer after hP hrun
  · obtain ⟨⟨_, begun⟩, hbegun, hrun⟩ := Option.bind_eq_some_iff.mp hrun
    obtain ⟨⟨read, inside⟩, hexpression, hrun⟩ := Option.bind_eq_some_iff.mp hrun
    obtain ⟨⟨_, ended⟩, hended, hrun⟩ := Option.bind_eq_some_iff.mp hrun
    cases hrun
    obtain ⟨⟨_, counter⟩, henter, heq⟩ := Option.map_eq_some_iff.mp hbegun
    cases heq
    obtain ⟨⟨_, counter'⟩, hleave, heq⟩ := Option.map_eq_some_iff.mp hended
    cases heq
    rw [Counting.lexer_of_leave hleave]
    refine h { tracer with counter := counter } answer inside ?_ (hstart ▸ hexpression)
    rwa [Counting.lexer_of_enter henter]

end Ensures

/-! ## The calls of an evaluation -/

section

variable {cost bound : Nat}

/-- A pass that keeps what is owed makes no calls; after a diagnostic one more may be owed. -/
theorem ensures_passIn {pass : Pass α} (h : ∀ visits, pass.Keeps (Owes cost bound visits)) :
    Ensures (Owes cost bound) (passIn onCounter pass) (fun _ ↦ Owes cost bound)
      (Owes (cost + 1) (bound + 1)) := by
  refine Ensures.passIn fun visits lexer howes ↦ ?_
  have hafter := (h visits).run howes
  rw [Step.Leaves]
  split
  · exact hafter
  · exact hafter.mono (Nat.le_succ cost) (Nat.le_succ bound)

theorem ensures_fail {Q : α → List Visit → Lexer → Prop} (problem : Problem) :
    Ensures (Owes cost bound) (passIn onCounter (Pass.fail problem)) Q
      (Owes (cost + 1) (bound + 1)) :=
  Ensures.passIn fun _ ↦ Pass.Ensures.fail fun _ howes ↦
    howes.mono (Nat.le_succ cost) (Nat.le_succ bound)

variable {read : Precedence → Tracing Float}
  (hread : ∀ floor, Ensures (Owes cost bound) (read floor) (fun _ ↦ Owes cost bound)
    (Owes (cost + 1) (bound + 1)))

include hread

theorem ensures_operandIn :
    Ensures (Owes (cost + 1) (bound + 1)) (operandIn onCounter read) (fun _ ↦ Owes cost bound)
      (Owes (cost + 1) (bound + 1)) := by
  refine (Ensures.passIn (Lexer.ensures_next_owes cost bound)).bind fun token ↦
    (Ensures.passIn fun visits ↦ Pass.Ensures.record _).bind fun _ ↦ ?_
  obtain ⟨lexeme, offset⟩ := token
  by_cases hend : lexeme = .endOfInput
  · subst hend
    exact Ensures.passIn fun visits ↦ Pass.Ensures.fail fun _ howes ↦ howes.1
  refine Ensures.mono (fun _ _ howes ↦ howes.2 hend) ?_
  cases lexeme with
  | number literal =>
    dsimp only
    cases Numeral.read? literal with
    | some value => exact Ensures.pure fun _ _ howes ↦ howes
    | none => exact ensures_fail _
  | plus => exact hread signFloor
  | minus => exact (hread signFloor).bind fun _ ↦ Ensures.pure fun _ _ howes ↦ howes
  | leftParen =>
    refine (hread .lowest).bind fun _ ↦
      (ensures_passIn (Lexer.keeps_next_owes cost bound)).bind fun close ↦ ?_
    split
    · exact Ensures.pure fun _ _ howes ↦ howes
    · exact ensures_fail _
  | _ => exact ensures_fail _

theorem ensures_linkIn (floor : Precedence) (lhs : Float) :
    Ensures (Owes cost bound) (linkIn onCounter read floor lhs) (fun _ ↦ Owes cost bound)
      (Owes (cost + 1) (bound + 1)) := by
  refine (ensures_passIn (Lexer.keeps_peek_owes cost bound)).bind fun token ↦ ?_
  cases Reader.role floor token.lexeme with
  | ends => exact Ensures.pure fun _ _ howes ↦ howes
  | strays => exact ensures_fail _
  | joins op =>
    exact (ensures_passIn (Lexer.keeps_next_owes cost bound)).bind fun _ ↦
      (hread op.rightFloor).bind fun rhs ↦
      (ensures_passIn fun visits ↦ Pass.Ensures.record _).bind fun _ ↦
      Ensures.pure fun _ _ howes ↦ howes

end

theorem ensures_noting {expression : Lexer → Tracing Float}
    (h : ∀ (start : Lexer) (cost : Nat), Ensures (Owes (cost + 1) (start.tokensLeft + 1))
      (expression start) (fun _ ↦ Owes cost start.tokensLeft)
      (Owes (cost + 1) (start.tokensLeft + 1))) (outer : Lexer) (cost : Nat) :
    Ensures (Owes cost outer.tokensLeft) (noting (some outer) (levelIn onCounter expression))
      (fun _ ↦ Owes cost outer.tokensLeft) (Owes (cost + 1) (outer.tokensLeft + 1)) := by
  intro tracer answer after howes hrun
  obtain ⟨⟨answer', inside⟩, hlevel, heq⟩ := Option.map_eq_some_iff.mp hrun
  cases heq
  have hbelow := howes.below
  obtain ⟨cost, rfl⟩ := Nat.exists_eq_add_one_of_ne_zero (Nat.ne_zero_of_lt howes.paid)
  have hinside := (h tracer.counter.lexer cost).levelIn (Lexer.keeps_peek_owes _ _) tracer answer
    inside ⟨rfl, howes.coherent, howes.advances, howes.paid, Nat.lt_add_one _⟩ hlevel
  cases answer with
  | ok value =>
    refine (Owes.note hinside ⟨⟨outer, rfl, hbelow⟩, ?_⟩).mono (Nat.le_refl _) (Nat.le_of_lt hbelow)
    exact fun _ _ ↦ hinside.below
  | error diagnostic =>
    refine (Owes.note hinside ⟨⟨outer, rfl, hbelow⟩, ?_⟩).mono (Nat.le_refl _)
      (Nat.le_succ_of_le hbelow)
    rintro _ ⟨⟩

mutual

/-- **A call that comes to a value is paid for with a token.** -/
theorem ensures_read : ∀ (fuel : Nat) (outer : Lexer) (floor : Precedence) (cost : Nat),
    Ensures (Owes cost outer.tokensLeft) (read fuel (some outer) floor)
      (fun _ ↦ Owes cost outer.tokensLeft) (Owes (cost + 1) (outer.tokensLeft + 1))
  | 0, _, _, _ => fun _ _ _ _ h ↦ nomatch h
  | fuel + 1, outer, floor, cost =>
    ensures_noting (fun start ↦ ensures_expression fuel start floor) outer cost

theorem ensures_expression : ∀ (fuel : Nat) (start : Lexer) (floor : Precedence) (cost : Nat),
    Ensures (Owes (cost + 1) (start.tokensLeft + 1)) (expression fuel start floor)
      (fun _ ↦ Owes cost start.tokensLeft) (Owes (cost + 1) (start.tokensLeft + 1))
  | 0, _, _, _ => fun _ _ _ _ h ↦ nomatch h
  | fuel + 1, start, floor, cost =>
    (ensures_operandIn fun floor ↦ ensures_read fuel start floor cost).bind
      fun lhs ↦ ensures_chain fuel start floor lhs cost

theorem ensures_chain : ∀ (fuel : Nat) (start : Lexer) (floor : Precedence) (lhs : Float)
    (cost : Nat), Ensures (Owes cost start.tokensLeft) (chain fuel start floor lhs)
      (fun _ ↦ Owes cost start.tokensLeft) (Owes (cost + 1) (start.tokensLeft + 1))
  | 0, _, _, _, _ => fun _ _ _ _ h ↦ nomatch h
  | fuel + 1, start, floor, lhs, cost => by
    refine (ensures_linkIn (fun floor ↦ ensures_read fuel start floor cost) floor lhs).bind
      fun value? ↦ ?_
    cases value? with
    | none => exact Ensures.pure fun _ _ howes ↦ howes
    | some value => exact ensures_chain fuel start floor value cost

end

end Tracing

/-! ## The first item -/

namespace Machine

theorem begin_ne_keep (t : Token) (floor : Precedence) (frames : List Frame)
    (answer : Except Problem Expr) : begin t floor frames ≠ .keep answer := by
  obtain ⟨lexeme, offset⟩ := t
  cases lexeme with
  | number literal =>
    rw [begin_number]
    split <;> nofun
  | _ => nofun

theorem rest_run_start_suffix {limit : Nat} (h : 0 < limit) (finish : Nat) (floor : Precedence)
    (items : List Item) : (run limit finish (start floor) items).rest <:+ items.tail := by
  cases items with
  | nil => exact run_rest_suffix limit finish (start floor) []
  | cons item items =>
    cases item with
    | stray c offset =>
      exact run_of_take (.stray c offset :: items) (step_stray limit _ c offset)
        ▸ List.suffix_rfl
    | token t =>
      have hstep : (start floor).step limit (.token t) = ⟨begin t floor [], [.operand t.lexeme]⟩ :=
        if_pos h
      cases hbegin : begin t floor [] with
      | go next =>
        rw [run_of_go _ (hbegin ▸ hstep)]
        exact run_rest_suffix limit finish next items
      | keep answer => exact absurd hbegin (begin_ne_keep t floor [] answer)
      | take answer =>
        exact run_of_take (.token t :: items) (hbegin ▸ hstep) ▸ List.suffix_rfl

end Machine

/-! ## Steps -/

namespace Counter

variable {source : Source} {counter after : Counter} {floor : Precedence}
  {answer : Except Diagnostic Float}

/-- The run of the machine on the items that are left. -/
def reading (counter : Counter) (floor : Precedence) : Machine.Result :=
  Machine.run counter.maxDepth.toNat counter.lexer.finish (Machine.start floor) counter.lexer.ahead

theorem Evaluates.follows_reading (hrun : counter.Evaluates floor answer after)
    (h : counter.Reachable source) :
    counter.lexer.MovesTo after.lexer (counter.reading floor).rest after.lexer.held ∧
      ∀ diagnostic, answer = .error diagnostic →
        (counter.reading floor).answer = .error diagnostic.problem := by
  obtain ⟨hdepth, -, hreachable⟩ := h.evaluator
  obtain ⟨last, hevaluate, hmoves, -⟩ :=
    Evaluator.run_evaluate hreachable.sound.coherent counter.maxDepth.toNat floor
  obtain ⟨hanswer, hrest, -⟩ := counter.lexer.reading_eq_run counter.maxDepth.toNat floor
  rw [evaluates_iff hdepth, Counting.ofPass, hevaluate, hanswer] at hrun
  cases hrun
  refine ⟨hrest ▸ hmoves, fun diagnostic h ↦ ?_⟩
  rw [reading]
  generalize (Machine.run _ _ _ _).answer = result at h ⊢
  cases result with
  | ok e => cases h
  | error problem =>
    cases h
    rfl

theorem Evaluates.ahead_suffix_tail (hrun : counter.Evaluates floor answer after)
    (h : counter.Reachable source) (hlimit : 1 ≤ counter.maxDepth) :
    after.lexer.ahead <:+ counter.lexer.ahead.tail := by
  rw [(hrun.follows_reading h).1.ahead]
  exact Machine.rest_run_start_suffix (UInt64.le_iff_toNat_le.mp hlimit) _ _ _

/-- Where the limit is reached, as many tokens were taken as it allows levels. -/
theorem Evaluates.limit_add_tokensLeft_le (hrun : counter.Evaluates floor answer after)
    (h : counter.Reachable source) {diagnostic : Diagnostic} {limit : Nat} {t : Token}
    (hanswer : answer = .error diagnostic)
    (hproblem : diagnostic.problem = .depthLimitExceeded limit t) :
    limit = counter.maxDepth.toNat ∧
      limit + after.lexer.tokensLeft ≤ counter.lexer.tokensLeft := by
  obtain ⟨hmoves, herror⟩ := hrun.follows_reading h
  obtain ⟨hlimit, taken, hahead, hle⟩ :=
    Machine.exists_taken_of_stopped ((herror diagnostic hanswer).trans (congrArg _ hproblem))
  have htaken : (taken.map Item.token).countP Item.isToken = taken.length := by
    rw [List.countP_map]
    exact List.countP_eq_length.mpr fun _ _ ↦ rfl
  rw [Machine.start, List.length_nil, Nat.zero_add, ← hlimit] at hle
  rw [← reading, ← hmoves.ahead] at hahead
  refine ⟨hlimit, ?_⟩
  rw [Lexer.tokensLeft, Lexer.tokensLeft, hahead, List.countP_append, htaken]
  exact Nat.add_le_add_right hle _

/-- The calls that an evaluation makes advance, and there are no more of them than tokens that it
takes. -/
theorem Traces.exists_nested {visits : List Visit}
    (htraces : counter.Traces floor answer after visits) (hc : counter.lexer.Coherent) :
    ∃ nested, visits = nested ++ [⟨none, counter.lexer, answer, after.lexer⟩] ∧
      (∀ visit ∈ nested, visit.Advances) ∧
      (∀ value, answer = .ok value → after.lexer.tokensLeft < counter.lexer.tokensLeft) ∧
      nested.length + after.lexer.tokensLeft ≤ counter.lexer.tokensLeft := by
  obtain ⟨enough, henough⟩ := htraces
  obtain ⟨⟨answer', inside⟩, hlevel, heq⟩ :=
    Option.map_eq_some_iff.mp (henough (enough + 1) (Nat.le_succ enough))
  cases heq
  have howes := (Tracing.ensures_expression enough counter.lexer floor _).levelIn
    (Lexer.keeps_peek_owes _ _) ⟨counter, []⟩ answer inside ⟨rfl, Lexer.owes_nil hc⟩ hlevel
  refine ⟨inside.visits, rfl, ?_⟩
  cases answer with
  | ok value => exact ⟨howes.advances, fun _ _ ↦ howes.below, Nat.le_of_lt howes.paid⟩
  | error diagnostic =>
    refine ⟨howes.advances, ?_, Nat.le_of_lt_succ howes.paid⟩
    rintro _ ⟨⟩

/-- `counter.Steps n last` says that `n` evaluations with one level at least lead to the last
counter. -/
inductive Steps (counter : Counter) : Nat → Counter → Prop
  | none : Steps counter 0 counter
  | evaluate {n : Nat} {mid after : Counter} {floor : Precedence}
      {answer : Except Diagnostic Float} (h : Steps counter n mid) (hlimit : 1 ≤ mid.maxDepth)
      (hrun : mid.Evaluates floor answer after) : Steps counter (n + 1) after
  | setMaxDepth {n : Nat} {mid : Counter} (h : Steps counter n mid) (maxDepth : UInt64) :
      Steps counter n { mid with maxDepth := maxDepth }

theorem Steps.reachable {n : Nat} {last : Counter} (hsteps : counter.Steps n last)
    (h : counter.Reachable source) : last.Reachable source := by
  induction hsteps with
  | none => exact h
  | @evaluate n mid after floor answer _ _ hrun ih => exact ih.evaluate floor hrun
  | @setMaxDepth n mid _ maxDepth ih => exact ih.setMaxDepth maxDepth

/-- Every step takes an item, as long as there is one. -/
theorem Steps.length_ahead_le {n : Nat} {last : Counter} (hsteps : counter.Steps n last)
    (h : counter.Reachable source) :
    last.lexer.ahead.length ≤ counter.lexer.ahead.length - n := by
  induction hsteps with
  | none => exact Nat.le_refl _
  | @evaluate n mid after floor answer hbefore hlimit hrun ih =>
    have hle := (hrun.ahead_suffix_tail (hbefore.reachable h) hlimit).length_le
    rw [List.length_tail] at hle
    omega
  | setMaxDepth _ _ ih => exact ih

/-- **Nothing is read twice, and everything that is done is paid for with tokens.** Whatever was
evaluated before and whatever limits were set, an evaluation down to any floor comes to an end, and
if it comes to a value then it has taken a token. This holds of every call that it makes on the way
as well; each of them begins behind a token that was taken since the call around it began, and they
are no more than the tokens that are taken. The limit is reported only when as many tokens were
taken as it allows levels, hence never in a source with fewer tokens.

With one level at least, an evaluation takes an item wherever there is one left. So steps come to
the end of the input when there were as many of them as there are items left. -/
theorem calls_of_reachable {source : Source} {counter : Counter} (h : counter.Reachable source) :
    counter.lexer.ahead <:+ source.items ∧
    (∀ floor, ∃ answer after nested,
      counter.Evaluates floor answer after ∧
      counter.Traces floor answer after
        (nested ++ [⟨none, counter.lexer, answer, after.lexer⟩]) ∧
      after.lexer.ahead <:+ counter.lexer.ahead ∧
      (∀ value, answer = .ok value → after.lexer.tokensLeft < counter.lexer.tokensLeft) ∧
      (∀ visit ∈ nested, visit.Advances) ∧
      nested.length + after.lexer.tokensLeft ≤ counter.lexer.tokensLeft ∧
      (∀ diagnostic limit t, answer = .error diagnostic →
        diagnostic.problem = .depthLimitExceeded limit t →
          limit = counter.maxDepth.toNat ∧
          limit + after.lexer.tokensLeft ≤ counter.lexer.tokensLeft ∧
          limit ≤ source.items.countP Item.isToken) ∧
      (1 ≤ counter.maxDepth → counter.lexer.ahead ≠ [] →
        after.lexer.ahead.length < counter.lexer.ahead.length)) ∧
    ∀ n last, counter.Steps n last → counter.lexer.ahead.length ≤ n → last.lexer.ahead = [] := by
  obtain ⟨hdepth, ⟨cursor, htracks⟩, hreachable⟩ := h.evaluator
  have hahead : counter.lexer.ahead <:+ source.items := htracks.ahead ▸ List.drop_suffix _ _
  refine ⟨hahead, fun floor ↦ ?_, fun n last hsteps hle ↦ ?_⟩
  · have hrun := (evaluates_iff hdepth floor).mpr rfl
    obtain ⟨visits, htraces⟩ := evaluates_iff_exists_traces.mp hrun
    obtain ⟨nested, rfl, hadvances, htook, hlength⟩ :=
      htraces.exists_nested hreachable.sound.coherent
    refine ⟨_, _, nested, hrun, htraces, ?_, htook, hadvances, hlength, ?_, ?_⟩
    · rw [(hrun.follows_reading h).1.ahead]
      exact Machine.run_rest_suffix _ _ _ _
    · intro diagnostic limit t hanswer hproblem
      obtain ⟨hlimit, hle⟩ := hrun.limit_add_tokensLeft_le h hanswer hproblem
      have htokens : counter.lexer.tokensLeft ≤ source.items.countP Item.isToken :=
        hahead.sublist.countP_le
      exact ⟨hlimit, hle, Nat.le_trans (Nat.le_of_add_right_le hle) htokens⟩
    · intro hlimit hne
      have hle := (hrun.ahead_suffix_tail h hlimit).length_le
      have hpos := List.length_pos_iff.mpr hne
      rw [List.length_tail] at hle
      omega
  · have hlength := hsteps.length_ahead_le h
    rw [Nat.sub_eq_zero_of_le hle] at hlength
    exact List.eq_nil_of_length_eq_zero (Nat.eq_zero_of_le_zero hlength)

/-- In `-(1)` there are four tokens, which is too few for the greatest of all limits and used up
after four steps. The evaluation makes two calls, for the operand of the sign and for what is in the
group. -/
theorem calls_of_reachable_signed_group :
    let source : Source := ⟨none, "-(1)"⟩
    let counter : Counter := ⟨.ofSource source, 18446744073709551615, 0, []⟩
    counter.Reachable source ∧
      (∃ answer after nested, counter.Traces .lowest answer after
          (nested ++ [⟨none, counter.lexer, answer, after.lexer⟩]) ∧
        nested.length = 2 ∧
        ∀ diagnostic limit t, answer = .error diagnostic →
          diagnostic.problem ≠ .depthLimitExceeded limit t) ∧
      ∀ n last, counter.Steps n last → 4 ≤ n → last.lexer.ahead = [] := by
  intro source counter
  have hreachable : counter.Reachable source := .start _
  have hitems : source.items = [.token ⟨.minus, 0⟩, .token ⟨.leftParen, 1⟩,
      .token ⟨.number ['1'], 2⟩, .token ⟨.rightParen, 3⟩] := by decide +kernel
  have hahead : counter.lexer.ahead = source.items := Lexer.ahead_ofSource source
  obtain ⟨-, hevaluate, hsteps⟩ := calls_of_reachable hreachable
  obtain ⟨answer, after, nested, -, htraces, -, -, -, -, hlimit, -⟩ := hevaluate .lowest
  rw [hitems] at hlimit
  rw [hahead, hitems] at hsteps
  have hvisits : (Tracing.read 12 none .lowest ⟨counter, []⟩).map
      (fun result ↦ result.2.visits.length) = some (2 + 1) := by decide +kernel
  obtain ⟨result, hread, hlength⟩ := Option.map_eq_some_iff.mp hvisits
  rw [htraces.eq_of_read hread, List.length_append, List.length_singleton] at hlength
  refine ⟨hreachable, ⟨answer, after, nested, htraces, Nat.add_right_cancel hlength, ?_⟩, hsteps⟩
  intro diagnostic limit t hanswer hproblem
  obtain ⟨rfl, -, hle⟩ := hlimit diagnostic limit t hanswer hproblem
  exact absurd hle (by decide)

end Counter

end Calculator
