import CirText.Parser.Recovery
import CirText.Proofs.Scope.Timeline

/-!
# What parsers leave behind

Whether it succeeds or not, a parser only ever moves forward over tokens, adds diagnostics and lets
the tracker run its course. `Trail` records how the state before and the state after are related:
the tokens passed, the uses of names noted on the way, which stand at tokens of their own in the
order of the tokens, as the labels defined do, and the diagnostics found, among which the verdicts
of the tracker are the only ones on unresolved names.

`Traced` says that every run of a parser leaves such a trail and that its result, if there is one,
satisfies a condition that may mention the uses noted. It is closed under everything parsers are
built from.
-/

namespace CirText

/-- Whether a diagnostic is about a name that refers to nothing. -/
def Diagnostic.isUnresolved (diagnostic : Diagnostic) : Bool :=
  match diagnostic.kind with
  | .unresolved _ _ => true
  | _ => false

theorem filter_isUnresolved_ofUnresolved (verdicts : List Unresolved) :
    (verdicts.map Diagnostic.ofUnresolved).filter Diagnostic.isUnresolved =
      verdicts.map Diagnostic.ofUnresolved := by
  apply List.filter_eq_self.2
  intro diagnostic member
  obtain ⟨verdict, _, rfl⟩ := List.mem_map.1 member
  rfl

/-! ## Cursors -/

namespace Cursor

theorem rest_next (cursor : Cursor) : cursor.next.rest = cursor.rest.drop 1 := by
  unfold next
  split
  · rename_i empty
    rw [empty, List.drop_nil]
  · rename_i found
    rw [found, List.drop_one, List.tail_cons]

theorem peek_of_cons {cursor : Cursor} {token : Token} {rest : List Token}
    (more : cursor.rest = token :: rest) :
    cursor.peek = token := by
  rw [peek, more]
  rfl

theorem rest_next_of_cons {cursor : Cursor} {token : Token} {rest : List Token}
    (more : cursor.rest = token :: rest) : cursor.next.rest = rest := by
  rw [rest_next, more, List.drop_one, List.tail_cons]

theorem advance_add (cursor : Cursor) (count more : Nat) :
    (cursor.advance count).advance more = cursor.advance (count + more) := by
  induction count generalizing cursor with
  | zero => rw [Nat.zero_add, advance]
  | succ count ih => rw [advance, ih, Nat.succ_add, advance]

theorem rest_advance (cursor : Cursor) (count : Nat) :
    (cursor.advance count).rest = cursor.rest.drop count := by
  induction count generalizing cursor with
  | zero => rfl
  | succ count ih =>
    rw [advance, ih, rest_next, List.drop_drop, Nat.add_comm]

/-- The tokens before a cursor and those behind it are all tokens of the source unit. -/
theorem position_add_length_next (cursor : Cursor) :
    cursor.next.position + cursor.next.rest.length = cursor.position + cursor.rest.length := by
  unfold next
  split
  · rfl
  · rename_i found
    rw [found, List.length_cons, Nat.add_assoc, Nat.add_comm 1]

theorem position_add_length_advance (cursor : Cursor) (count : Nat) :
    (cursor.advance count).position + (cursor.advance count).rest.length =
      cursor.position + cursor.rest.length := by
  induction count generalizing cursor with
  | zero => rfl
  | succ count ih => rw [advance, ih, position_add_length_next]

end Cursor

namespace Parser

variable {α β σ : Type}

/-! ## Running parsers -/

theorem pure_run (a : α) (input : Input) (state : State) :
    (pure a : Parser α) input state = (some a, state) :=
  rfl

theorem bind_run (parser : Parser α) (next : α → Parser β) (input : Input) (state : State) :
    (parser >>= next) input state =
      match parser input state with
      | (some a, state) => next a input state
      | (none, state) => (none, state) :=
  rfl

theorem map_run (f : α → β) (parser : Parser α) (input : Input) (state : State) :
    (f <$> parser) input state = ((parser input state).1.map f, (parser input state).2) := by
  change (parser >>= fun a => Pure.pure (f a)) input state = _
  rw [bind_run]
  cases parser input state with
  | mk outcome last => cases outcome <;> rfl

theorem satisfying_run (condition : Token → Bool) (what : String) (input : Input) (state : State) :
    satisfying condition what input state =
      if condition state.cursor.peek then
        (some state.cursor.peek, { state with cursor := state.cursor.next })
      else expected what input state := by
  change (if condition state.cursor.peek then skip >>= fun _ => Pure.pure state.cursor.peek
    else expected what : Parser Token) input state = _
  split <;> rfl

theorem refer_run (kind : NameKind) (input : Input) (state : State) :
    refer kind input state =
      let found := state.cursor.peek
      if found.kind = nameToken kind then
        (some (state.tracker.refer kind found.name found.span).1,
          { state with
            cursor := state.cursor.next
            tracker := (state.tracker.refer kind found.name found.span).2 })
      else expected (missingName kind) input state := by
  rw [refer, bind_run, token, satisfying_run]
  by_cases same : state.cursor.peek.kind = nameToken kind
  · simp [same, noteUse]
  · simp only [same, beq_iff_eq, if_false]
    rfl

theorem iterate_run (step : σ → Parser (Step σ β)) (accumulated : σ) (input : Input)
    (state : State) :
    iterate step accumulated input state =
      match step accumulated input state with
      | (none, final) => (none, final)
      | (some (.done result), final) => (some result, final)
      | (some (.again accumulated), next) =>
        if next.cursor.rest.length < state.cursor.rest.length then
          iterate step accumulated input next
        else (none, next) := by
  exact iterate.loop.eq_def step input accumulated state

/-- Induction on the runs of a loop, with a case for each way its first step ends: it fails, gives
the result, wants to go on without having consumed a token, or goes on. -/
theorem iterate_induction (step : σ → Parser (Step σ β)) (input : Input) {motive : σ → State → Prop}
    (failed : ∀ accumulated state final, step accumulated input state = (none, final) →
      iterate step accumulated input state = (none, final) → motive accumulated state)
    (done : ∀ accumulated state result final, step accumulated input state =
      (some (.done result), final) →
      iterate step accumulated input state = (some result, final) → motive accumulated state)
    (stuck : ∀ accumulated state further next, step accumulated input state =
      (some (.again further), next) →
      ¬next.cursor.rest.length < state.cursor.rest.length →
        iterate step accumulated input state = (none, next) → motive accumulated state)
    (again : ∀ accumulated state further next, step accumulated input state =
      (some (.again further), next) →
      next.cursor.rest.length < state.cursor.rest.length →
        iterate step accumulated input state = iterate step further input next →
        motive further next → motive accumulated state)
    (accumulated : σ) (state : State) : motive accumulated state := by
  -- A loop goes on only with fewer tokens left.
  induction left : state.cursor.rest.length using Nat.strong_induction_on generalizing accumulated
    state with
  | _ count ih =>
    have unrolled := iterate_run step accumulated input state
    cases run : step accumulated input state with
    | mk outcome next =>
      rw [run] at unrolled
      rcases outcome with _ | ⟨further | result⟩
      · exact failed accumulated state next run unrolled
      · by_cases fewer : next.cursor.rest.length < state.cursor.rest.length
        · exact again accumulated state further next run fewer (unrolled.trans (if_pos fewer))
            (ih _ (left ▸ fewer) further next rfl)
        · exact stuck accumulated state further next run fewer (unrolled.trans (if_neg fewer))
      · exact done accumulated state result next run unrolled

theorem warnDeprecated_run (opcode : Opcode) (message : String) (span : Span) (input : Input)
    (state : State) :
    Parser.warnDeprecated opcode message span input state =
      (some (), if input.options.deprecations then
        { state with
          diagnostics := state.diagnostics.push (.warning (.deprecated opcode message) span) }
        else state) := by
  change ((if input.options.deprecations then Parser.report
    (.warning (.deprecated opcode message) span)
    else Pure.pure ()) : Parser Unit) input state = _
  split <;> rfl

/-! ## Trails -/

/-- How the states before and after a part of parsing are related. -/
structure Trail (before : State) (tokens : List Token) (uses : List Reference)
    (found : List Diagnostic) (after : State) : Prop where
  /-- The cursor has moved forward. -/
  moved : ∃ count, after.cursor = before.cursor.advance count
  /-- The tokens passed. -/
  rest : before.cursor.rest = tokens ++ after.cursor.rest
  /-- The diagnostics found. -/
  reports : after.diagnostics.items.toList = before.diagnostics.items.toList ++ found
  /-- The steps of the tracker, at some of the tokens in their order, whose verdicts are
  reported. -/
  timeline : ∃ marks verdicts, Tracker.Timeline before.tracker marks uses verdicts after.tracker ∧
    marks.Sublist (tokens.map (·.span)) ∧
    found.filter Diagnostic.isUnresolved = verdicts.map Diagnostic.ofUnresolved

namespace Trail

/-- Every use is noted at a token, in the order of the tokens. -/
theorem spans {before after : State} {tokens : List Token} {uses : List Reference}
    {found : List Diagnostic} (trail : Trail before tokens uses found after) :
    (uses.map (·.span)).Sublist (tokens.map (·.span)) := by
  obtain ⟨marks, verdicts, timeline, marked, _⟩ := trail.timeline
  exact timeline.spans.trans marked

/-- The tracker runs its course, and its verdicts are reported. -/
theorem steps {before after : State} {tokens : List Token} {uses : List Reference}
    {found : List Diagnostic} (trail : Trail before tokens uses found after) :
    ∃ verdicts, Tracker.Course before.tracker uses verdicts after.tracker ∧
      found.filter Diagnostic.isUnresolved = verdicts.map Diagnostic.ofUnresolved := by
  obtain ⟨marks, verdicts, timeline, _, reported⟩ := trail.timeline
  exact ⟨verdicts, timeline.course, reported⟩

theorem refl (state : State) : Trail state [] [] [] state :=
  ⟨⟨0, rfl⟩, by simp, by simp, [], [], .refl, by simp, rfl⟩

theorem trans {first middle last : State} {tokens more : List Token} {uses others : List Reference}
    {found further : List Diagnostic} (left : Trail first tokens uses found middle)
    (right : Trail middle more others further last) :
    Trail first (tokens ++ more) (uses ++ others) (found ++ further) last := by
  obtain ⟨marks, verdicts, steps, marked, reported⟩ := left.timeline
  obtain ⟨places, added, continued, placed, announced⟩ := right.timeline
  obtain ⟨count, moved⟩ := left.moved
  obtain ⟨further, goneOn⟩ := right.moved
  refine ⟨⟨count + further, ?_⟩, ?_, ?_, marks ++ places, verdicts ++ added, steps.trans continued,
    ?_, ?_⟩
  · rw [goneOn, moved, Cursor.advance_add]
  · rw [left.rest, right.rest, List.append_assoc]
  · rw [right.reports, left.reports, List.append_assoc]
  · rw [List.map_append]
    exact marked.append placed
  · rw [List.filter_append, reported, announced, List.map_append]

/-- A change that leaves the tracker and the diagnostics alone and moves over tokens. -/
theorem ofMove {before after : State} {count : Nat}
    (cursor : after.cursor = before.cursor.advance count)
    (tracker : after.tracker = before.tracker)
    (diagnostics : after.diagnostics = before.diagnostics) :
    Trail before (before.cursor.rest.take count) [] [] after where
  moved := ⟨count, cursor⟩
  rest := by rw [cursor, Cursor.rest_advance, List.take_append_drop]
  reports := by rw [diagnostics, List.append_nil]
  timeline := ⟨[], [], tracker ▸ .refl, List.nil_sublist _, rfl⟩

/-- A diagnostic that is not about an unresolved name. -/
theorem ofReport {before after : State} {diagnostic : Diagnostic}
    (cursor : after.cursor = before.cursor) (tracker : after.tracker = before.tracker)
    (diagnostics : after.diagnostics = before.diagnostics.push diagnostic)
    (other : diagnostic.isUnresolved = false) : Trail before [] [] [diagnostic] after where
  moved := ⟨0, cursor⟩
  rest := by rw [cursor, List.nil_append]
  reports := by rw [diagnostics, Diagnostics.push, Array.toList_push]
  timeline := ⟨[], [], tracker ▸ .refl, List.nil_sublist _, by simp [other]⟩

end Trail

/-! ## Traced parsers -/

/-- Every run of the parser leaves a trail, and its result satisfies the condition. -/
def Traced (parser : Parser α) (post : List Reference → α → Prop) : Prop :=
  ∀ input state, ∃ tokens uses found,
    Trail state tokens uses found (parser input state).2 ∧
      ∀ a, (parser input state).1 = some a → post uses a

namespace Traced

variable {parser : Parser α} {post : List Reference → α → Prop}

theorem mono {weaker : List Reference → α → Prop} (h : Traced parser post)
    (implies : ∀ uses a, post uses a → weaker uses a) : Traced parser weaker := by
  intro input state
  obtain ⟨tokens, uses, found, trail, result⟩ := h input state
  exact ⟨tokens, uses, found, trail, fun a eq => implies uses a (result a eq)⟩

theorem weaken (h : Traced parser post) : Traced parser fun _ _ => True :=
  h.mono fun _ _ _ => trivial

theorem pure {a : α} (h : post [] a) : Traced (Pure.pure a) post := by
  intro input state
  refine ⟨[], [], [], .refl state, ?_⟩
  rintro _ ⟨⟩
  exact h

theorem fail : Traced (Parser.fail : Parser α) post := by
  intro input state
  refine ⟨[], [], [], .refl state, ?_⟩
  rintro _ ⟨⟩

theorem bind {next : α → Parser β} {then_ : List Reference → β → Prop} (first : Traced parser post)
    (second : ∀ uses a, post uses a → Traced (next a) fun more b => then_ (uses ++ more) b) :
    Traced (parser >>= next) then_ := by
  intro input state
  obtain ⟨tokens, uses, found, trail, result⟩ := first input state
  rw [bind_run]
  cases run : parser input state with
  | mk outcome middle =>
    rw [run] at trail result
    cases outcome with
    | none => exact ⟨tokens, uses, found, trail, by rintro _ ⟨⟩⟩
    | some a =>
      obtain ⟨more, others, further, continued, final⟩ := second uses a (result a rfl) input middle
      exact ⟨tokens ++ more, uses ++ others, found ++ further, trail.trans continued, final⟩

/-- A part whose result does not matter, before another one. -/
theorem andThen {next : α → Parser β} {then_ : List Reference → β → Prop}
    (first : Traced parser fun _ _ => True)
    (second : ∀ uses a, Traced (next a) fun more b => then_ (uses ++ more) b) :
    Traced (parser >>= next) then_ :=
  first.bind fun uses a _ => second uses a

theorem map {f : α → β} {then_ : List Reference → β → Prop} (h : Traced parser post)
    (implies : ∀ uses a, post uses a → then_ uses (f a)) : Traced (f <$> parser) then_ := by
  refine h.bind fun uses a holds => .pure ?_
  rw [List.append_nil]
  exact implies uses a holds

theorem look {read : State → α} {then_ : List Reference → β → Prop} {next : α → Parser β}
    (second : ∀ a, Traced (next a) then_) : Traced (Parser.look read >>= next) then_ := by
  have nothing : Traced (Parser.look read) fun uses _ => uses = [] := fun _ state =>
    ⟨[], [], [], .refl state, fun _ _ => rfl⟩
  apply nothing.bind
  rintro _ a rfl
  exact second a

theorem ite {condition : Prop} [Decidable condition] {other : Parser α}
    (yes : condition → Traced parser post) (no : ¬condition → Traced other post) :
    Traced (if condition then parser else other) post := by
  split
  · exact yes ‹_›
  · exact no ‹_›

theorem attempt (h : Traced parser post) :
    Traced (Parser.attempt parser) fun uses result => ∀ a, result = some a → post uses a := by
  intro input state
  obtain ⟨tokens, uses, found, trail, result⟩ := h input state
  refine ⟨tokens, uses, found, trail, ?_⟩
  rintro outcome ⟨⟩ a eq
  exact result a eq

theorem naming {construct : String} (h : Traced parser post) :
    Traced (Parser.naming construct parser) post := by
  intro input state
  obtain ⟨tokens, uses, found, trail, result⟩ := h input { state with construct }
  exact ⟨tokens, uses, found, ⟨trail.moved, trail.rest, trail.reports, trail.timeline⟩, result⟩

/-- A parser in a scope of its own, whose verdicts are reported when the scope is closed. -/
theorem inScope (h : Traced parser post) : Traced (Parser.inScope parser) post := by
  intro input state
  obtain ⟨tokens, uses, found, trail, result⟩ :=
    h input { state with tracker := state.tracker.push }
  obtain ⟨marks, verdicts, steps, marked, reported⟩ := trail.timeline
  let closed := (parser input { state with tracker := state.tracker.push }).2.tracker.pop
  refine ⟨tokens, uses, found ++ closed.2.map .ofUnresolved, ⟨trail.moved, trail.rest, ?_,
    marks, verdicts ++ closed.2, ?_, marked, ?_⟩, result⟩
  · have appended := congrArg (· ++ closed.2.map Diagnostic.ofUnresolved) trail.reports
    simpa [Parser.inScope, Diagnostics.append] using appended
  · have opened : Tracker.Timeline state.tracker [] [] [] state.tracker.push := .push .refl
    exact (opened.trans steps).pop
  · rw [List.filter_append, reported, filter_isUnresolved_ofUnresolved, List.map_append]

/-- A condition on what a step of a loop ends with. -/
def Ends (invariant : List Reference → σ → Prop) (then_ : List Reference → β → Prop)
    (uses : List Reference) : Step σ β → Prop
  | .again accumulated => invariant uses accumulated
  | .done result => then_ uses result

/-- A loop keeps an invariant if each of its steps does. -/
theorem iterate {step : σ → Parser (Step σ β)} {accumulated : σ}
    {invariant : List Reference → σ → Prop} {then_ : List Reference → β → Prop}
    (start : invariant [] accumulated)
    (steps : ∀ uses accumulated, invariant uses accumulated →
      Traced (step accumulated) fun more outcome => Ends invariant then_ (uses ++ more) outcome) :
    Traced (Parser.iterate step accumulated) then_ := by
  have general : ∀ input accumulated (state : State) earlier, invariant earlier accumulated →
      ∃ tokens uses found,
        Trail state tokens uses found (Parser.iterate step accumulated input state).2 ∧
          ∀ result, (Parser.iterate step accumulated input state).1 = some result →
            then_ (earlier ++ uses) result := by
    intro input accumulated state
    induction accumulated, state using iterate_induction step input with
    | failed accumulated state final run ran
    | stuck accumulated state further final run fewer ran =>
      intro earlier holds
      obtain ⟨tokens, uses, found, trail, _⟩ := steps earlier accumulated holds input state
      rw [run] at trail
      rw [ran]
      exact ⟨tokens, uses, found, trail, by rintro _ ⟨⟩⟩
    | done accumulated state result final run ran =>
      intro earlier holds
      obtain ⟨tokens, uses, found, trail, outcome⟩ := steps earlier accumulated holds input state
      rw [run] at trail outcome
      rw [ran]
      refine ⟨tokens, uses, found, trail, ?_⟩
      rintro _ ⟨⟩
      exact outcome (.done result) rfl
    | again accumulated state further next run fewer ran ih =>
      intro earlier holds
      obtain ⟨tokens, uses, found, trail, outcome⟩ := steps earlier accumulated holds input state
      rw [run] at trail outcome
      rw [ran]
      obtain ⟨more, others, later, continued, final⟩ :=
        ih (earlier ++ uses) (outcome (.again further) rfl)
      refine ⟨tokens ++ more, uses ++ others, found ++ later, trail.trans continued,
        fun result given => ?_⟩
      rw [← List.append_assoc]
      exact final result given
  intro input state
  exact general input accumulated state [] start

/-- A condition on results that goes on holding when more uses are noted. -/
def Grows (holds : List Reference → α → Prop) : Prop :=
  ∀ uses more a, holds uses a → uses ⊆ more → holds more a

/-- A loop that collects items finds in each of them what one step finds. -/
theorem collect {step : Parser (Option α × Bool)} {holds : List Reference → α → Prop}
    (grows : Grows holds)
    (steps : Traced step fun uses outcome => ∀ a, outcome.1 = some a → holds uses a) :
    Traced (Parser.collect step) fun uses items => ∀ a ∈ items, holds uses a := by
  let allHold : List Reference → List α → Prop := fun uses items => ∀ a ∈ items, holds uses a
  suffices loop : Traced (Parser.iterate _ []) allHold from
    loop.map fun uses items all a member => all a (List.mem_reverse.1 member)
  have start : allHold [] [] := by
    intro a member
    cases member
  apply iterate start
  intro uses items all
  refine steps.bind fun more outcome found => .pure ?_
  have both : ∀ a ∈ outcome.1.toList ++ items, holds (uses ++ (more ++ [])) a := by
    intro a member
    rcases List.mem_append.1 member with new | old
    · exact grows _ _ _ (found a (by simpa using new)) (by simp)
    · exact grows _ _ _ (all a old) (by simp)
  cases outcome.2
  · exact both
  · exact both

end Traced

/-! ## Tokens, names and reports -/

namespace Traced

theorem change {update : State → State}
    (moves : ∀ state, ∃ count, (update state).cursor = state.cursor.advance count)
    (tracker : ∀ state, (update state).tracker = state.tracker)
    (diagnostics : ∀ state, (update state).diagnostics = state.diagnostics) :
    Traced (Parser.change update) fun _ _ => True := by
  intro input state
  obtain ⟨count, moved⟩ := moves state
  exact ⟨_, [], [], .ofMove moved (tracker state) (diagnostics state), fun _ _ => trivial⟩

theorem skip : Traced Parser.skip fun _ _ => True :=
  change (fun _ => ⟨1, rfl⟩) (fun _ => rfl) fun _ => rfl

theorem halt : Traced Parser.halt fun _ _ => True :=
  change (fun _ => ⟨0, rfl⟩) (fun _ => rfl) fun _ => rfl

theorem report {diagnostic : Diagnostic} (other : diagnostic.isUnresolved = false) :
    Traced (Parser.report diagnostic) fun _ _ => True := by
  intro input state
  exact ⟨[], [], [diagnostic], .ofReport rfl rfl rfl other, fun _ _ => trivial⟩

theorem reportExpected (what : String) : Traced (Parser.reportExpected what) fun _ _ => True := by
  intro input state
  exact ⟨[], [], [_], .ofReport rfl rfl rfl rfl, fun _ _ => trivial⟩

theorem expected (what : String) {post : List Reference → α → Prop} :
    Traced (Parser.expected what) post :=
  (reportExpected what).andThen fun _ _ => fail

theorem satisfying (condition : Token → Bool) (what : String) :
    Traced (Parser.satisfying condition what) fun _ token => condition token = true := by
  refine look fun token => ite (fun holds => ?_) fun _ => expected what
  exact skip.andThen fun _ _ => .pure holds

theorem token (kind : TokenKind) (what : String) :
    Traced (Parser.token kind what) fun _ token => token.kind = kind :=
  (satisfying _ what).mono fun _ _ holds => by simpa using holds

theorem punct (mark : Punct) : Traced (Parser.punct mark) fun _ _ => True :=
  (satisfying _ _).weaken

theorem word (text : String) : Traced (Parser.word text) fun _ _ => True :=
  (satisfying _ _).weaken

theorem eat (mark : Punct) : Traced (Parser.eat mark) fun _ _ => True := by
  refine look fun here => ite (fun _ => ?_) fun _ => .pure trivial
  exact skip.andThen fun _ _ => .pure trivial

/-- A value or a symbol is defined, wherever its name stands. -/
theorem define {kind : NameKind} (notLabel : kind ≠ .label) (found : Token) :
    Traced (Parser.define kind found) fun _ definition => definition.kind = kind := by
  intro input state
  have step : Tracker.Timeline state.tracker [] [] []
      (state.tracker.define kind found.name found.span).2.2 :=
    .define .refl notLabel found.name found.span
  cases clash : state.tracker.clash? kind found.name with
  | none =>
    refine ⟨[], [], [], ⟨⟨0, rfl⟩, rfl, ?_, [], [], step, List.nil_sublist _, rfl⟩, ?_⟩
    · simp [Parser.define, Tracker.define, clash]
    · rintro _ ⟨⟩
      simp [clash]
  | some earlier =>
    refine ⟨[], [], [.ofDuplicate ⟨kind, found.name, found.span, state.tracker.scope⟩ earlier],
      ⟨⟨0, rfl⟩, rfl, ?_, [], [], step, List.nil_sublist _, rfl⟩, ?_⟩
    · simp [Parser.define, Tracker.define, clash, Diagnostics.push]
    · rintro _ ⟨⟩
      simp [clash]

/-- A token of a name is a real one. -/
theorem rest_eq_peek {state : State} {kind : NameKind}
    (isName : state.cursor.peek.kind = nameToken kind) :
    state.cursor.rest = [state.cursor.peek] ++ state.cursor.next.rest := by
  rw [Cursor.rest_next]
  cases rest : state.cursor.rest with
  | nil =>
    simp only [Cursor.peek, rest, List.headD_nil, Cursor.endToken, Token.endAt] at isName
    cases kind <;> cases isName
  | cons first others => simp [Cursor.peek, rest]

/-- A label is defined at the token that is consumed for it. -/
theorem label (what : String) :
    Traced (Parser.token (nameToken .label) what >>= Parser.define .label) fun _ definition =>
      definition.kind = .label := by
  intro input state
  rw [bind_run, Parser.token, satisfying_run]
  by_cases same : state.cursor.peek.kind = nameToken .label
  · have step : Tracker.Timeline state.tracker [state.cursor.peek.span] [] []
        (state.tracker.define .label state.cursor.peek.name state.cursor.peek.span).2.2 :=
      .defineLabel .refl state.cursor.peek.name state.cursor.peek.span
    simp only [same, beq_self_eq_true, if_true]
    cases clash : state.tracker.clash? .label state.cursor.peek.name with
    | none =>
      refine ⟨[state.cursor.peek], [], [], ⟨⟨1, rfl⟩, rest_eq_peek same, ?_, _, [], step,
        List.Sublist.refl _, rfl⟩, ?_⟩
      · simp [Parser.define, Tracker.define, clash]
      · rintro _ ⟨⟩
        simp [clash]
    | some earlier =>
      refine ⟨[state.cursor.peek], [], [.ofDuplicate ⟨.label, state.cursor.peek.name,
        state.cursor.peek.span, state.tracker.scope⟩ earlier], ⟨⟨1, rfl⟩,
        rest_eq_peek same, ?_, _, [],
        step, List.Sublist.refl _, rfl⟩, ?_⟩
      · simp [Parser.define, Tracker.define, clash, Diagnostics.push]
      · rintro _ ⟨⟩
        simp [clash]
  · simp only [same, beq_iff_eq, if_false]
    exact expected what input state

/-- A name is defined at the token that is consumed for it. -/
theorem definition (kind : NameKind) (what : String) :
    Traced (Parser.token (nameToken kind) what >>= Parser.define kind) fun _ definition =>
      definition.kind = kind := by
  by_cases isLabel : kind = .label
  · subst isLabel
    exact label what
  · exact (token _ _).weaken.andThen fun _ found => define isLabel found

/-- A use is noted at the token that is consumed for it. -/
theorem refer (kind : NameKind) :
    Traced (Parser.refer kind) fun uses reference => reference ∈ uses ∧ reference.kind = kind := by
  intro input state
  rw [refer_run]
  by_cases same : state.cursor.peek.kind = nameToken kind
  · let noted := state.tracker.refer kind state.cursor.peek.name state.cursor.peek.span
    simp only [same, if_true]
    refine ⟨[state.cursor.peek], [noted.1], [], ⟨⟨1, rfl⟩, rest_eq_peek same, by simp, _, [],
      Tracker.Timeline.refl.refer kind state.cursor.peek.name state.cursor.peek.span,
      List.Sublist.refl _, rfl⟩, ?_⟩
    rintro _ ⟨⟩
    exact ⟨List.mem_singleton_self _, by cases kind <;> rfl⟩
  · simp only [same, if_false]
    exact expected (missingName kind) input state

/-! ## Embedded languages, cancellation and recovery -/

theorem embed {language : Sublanguage} {adapter : Adapters → Adapter α} {holds : α → Prop}
    (all : ∀ {adapters source cursor value after},
      (adapter adapters).read source cursor = .ok (value, after) → holds value) :
    Traced (Parser.embed language adapter) fun _ value => holds value := by
  intro input state
  unfold Parser.embed
  cases outcome : (adapter input.adapters).read input.source state.cursor with
  | ok found =>
    obtain ⟨value, after⟩ := found
    obtain ⟨count, _, moved⟩ := (adapter input.adapters).advances outcome
    refine ⟨_, [], [], .ofMove moved rfl rfl, ?_⟩
    rintro _ ⟨⟩
    exact all outcome
  | error error =>
    refine ⟨[], [], [.error (.sublanguage error) error.span], .ofReport rfl rfl rfl rfl, ?_⟩
    rintro _ ⟨⟩

theorem type : Traced Parser.type fun _ _ => True :=
  embed fun _ => trivial

theorem attributeOf (form : AttributeForm) :
    Traced (Parser.attributeOf form) fun _ value => value.form = form :=
  embed fun {adapters _ _ _ _} read => adapters.formed read

theorem checkHalted : Traced Parser.checkHalted fun _ _ => True := by
  intro input state
  unfold Parser.checkHalted
  split
  · exact ⟨[], [], [], .refl state, fun _ _ => trivial⟩
  · split
    · exact ⟨[], [], [.error .cancelled (.emptyAt state.cursor.peek.span.start)],
        .ofReport rfl rfl rfl rfl, fun _ _ => trivial⟩
    · exact ⟨[], [], [], .refl state, fun _ _ => trivial⟩

theorem options : Traced Parser.options fun _ _ => True :=
  fun _ state => ⟨[], [], [], .refl state, fun _ _ => trivial⟩

theorem warnDeprecated (opcode : Opcode) (message : String) (span : Span) :
    Traced (Parser.warnDeprecated opcode message span) fun _ _ => True :=
  options.andThen fun _ _ => ite (fun _ => report rfl) fun _ => .pure trivial

theorem resynchronize (start : Cursor) :
    Traced (Parser.resynchronize start) fun _ _ => True := by
  apply change
  · intro state
    split
    · exact ⟨0, rfl⟩
    · simp only [Cursor.toBoundary, Cursor.advanceTo]
      split
      · exact ⟨_ + 1, rfl⟩
      · exact ⟨_, rfl⟩
  · intro state
    split <;> rfl
  · intro state
    split <;> rfl

end Traced

end Parser

end CirText
