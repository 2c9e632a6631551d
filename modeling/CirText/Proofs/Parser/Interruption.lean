import CirText.Proofs.Parser.Uses
import CirText.Proofs.Scope.Entries
import CirText.Proofs.Scope.Nesting

/-!
# What cancelling does to a run

A parser runs twice from the same state, once with a cancellation and once without. Both runs go
alike up to the place at which the cancellation is noticed. From there on the cancelled run only
leaves what it is in: it fails, and its scopes are closed. `Lags` relates the state that it ends in
to that of the other run, which goes on: all that the cancelled run reports is also reported by the
other one, except the cancellation itself and verdicts on labels that it has not come to define.

`Interruptible` says so of a parser, together with what a whole run keeps: scopes are closed as they
were opened, and without a cancellation none is reported. It is closed under everything parsers are
built from, other than going on after a failure.
-/

namespace CirText

/-- Whether a diagnostic says that reading was cancelled. -/
def Diagnostic.isCancelled (diagnostic : Diagnostic) : Bool :=
  diagnostic.kind == .cancelled

/-- The same options without a cancellation. -/
def Options.uncancelled (options : Options) : Options :=
  { options with cancellation := {} }

namespace Parser

variable {α β σ : Type}

/-- The same input without a cancellation. -/
def Input.uncancelled (input : Input) : Input :=
  { input with options := input.options.uncancelled }

/-- The number of cancellations reported. -/
def State.cancellations (state : State) : Nat :=
  state.diagnostics.items.toList.countP Diagnostic.isCancelled

/-! ## Two runs -/

/-- How the state after a cancelled run is related to the state after the same run without the
cancellation. -/
structure Lags (cut full : State) : Prop where
  /-- The cancelled run has come to an early end. -/
  halted : cut.halted = true
  /-- Its tracker is behind. -/
  tracker : cut.tracker.Behind full.tracker
  /-- Only the cancellation and verdicts that are overtaken are not reported by both. -/
  diagnostics : ∀ diagnostic ∈ cut.diagnostics.items.toList,
    diagnostic.isCancelled = true ∨ diagnostic ∈ full.diagnostics.items.toList ∨
      ∃ verdict, diagnostic = .ofUnresolved verdict ∧
        Tracker.Overtaken cut.tracker.table full.tracker.table verdict

/-- The run without the cancellation may go on. -/
theorem Lags.extend {cut full later : State} (lags : Lags cut full) {contained : Bool}
    (within : full.tracker.Within contained later.tracker)
    (reports : full.diagnostics.items.toList ⊆ later.diagnostics.items.toList) :
    Lags cut later where
  halted := lags.halted
  tracker := lags.tracker.extend within
  diagnostics diagnostic member := by
    rcases lags.diagnostics diagnostic member with cancelled | both | ⟨verdict, same, overtaken⟩
    · exact .inl cancelled
    · exact .inr (.inl (reports both))
    · exact .inr (.inr ⟨verdict, same, overtaken.extend within⟩)

/-- A cancelled run from a state that was stopped reports one cancellation more. -/
structure Stopped (before cut full : State) : Prop where
  counted : cut.cancellations = before.cancellations + 1
  lags : Lags cut full

/-- A parser whose run is either not changed by a cancellation or is stopped by it and then gives
what is related to the result of the run without the cancellation. -/
structure InterruptibleWith (gives : Option α → Option α → Prop) (contained : Bool)
    (parser : Parser α) : Prop where
  /-- Every run leaves a trail. -/
  traced : Traced parser fun _ _ => True
  /-- Scopes are closed as they were opened. -/
  within : ∀ input (state : State), state.tracker.Sound →
    state.tracker.Within contained (parser input state).2.tracker
  /-- Without a cancellation none is reported. -/
  calm : ∀ (input : Input) state, input.options.cancellation = {} →
    (parser input state).2.cancellations = state.cancellations
  /-- The two runs from one state. -/
  runs : ∀ input (state : State), state.tracker.Sound →
    parser input state = parser input.uncancelled state ∨
      gives (parser input state).1 (parser input.uncancelled state).1 ∧
        Stopped state (parser input state).2 (parser input.uncancelled state).2

/-- A parser that fails when it is stopped. -/
abbrev Interruptible (contained : Bool) (parser : Parser α) : Prop :=
  InterruptibleWith (fun cut _ => cut = none) contained parser

/-! ## Noticing a cancellation -/

/-- Whether a cancellation is noticed in a state. -/
def Input.stops (input : Input) (state : State) : Bool :=
  input.options.cancellation.isSet (countReadings .type state.readings)
    (countReadings .attribute state.readings)

/-- The state after a cancellation has been noticed. -/
def State.stopped (state : State) : State :=
  { state with
    halted := true
    diagnostics := state.diagnostics.push <|
      .error .cancelled (.emptyAt state.cursor.peek.span.start) }

theorem checkHalted_run (input : Input) (state : State) :
    Parser.checkHalted input state =
      if state.halted then (some true, state)
      else if input.stops state then (some true, state.stopped)
      else (some false, state) :=
  rfl

theorem stops_uncancelled (input : Input) (state : State) :
    input.uncancelled.stops state = false :=
  rfl

/-- A run that notices a cancellation stays where it is, and one that does not may go on. -/
theorem stopped_stopped {contained : Bool} {state later : State}
    (within : state.tracker.Within contained later.tracker)
    (reports : state.diagnostics.items.toList ⊆ later.diagnostics.items.toList) :
    Stopped state state.stopped later where
  counted := by
    simp [State.cancellations, State.stopped, Diagnostics.push, Diagnostic.isCancelled,
      Diagnostic.error]
  lags := by
    have noticed : Lags state.stopped state := by
      refine ⟨rfl, .refl _, ?_⟩
      intro diagnostic member
      simp only [State.stopped, Diagnostics.push, Array.toList_push, List.mem_append,
        List.mem_singleton] at member
      rcases member with earlier | rfl
      · exact .inr (.inl earlier)
      · exact .inl rfl
    exact noticed.extend within reports

/-- A part that is skipped once parsing has come to an early end, which includes that a cancellation
is noticed. -/
def unlessHalted (parser : Parser α) : Parser α := do
  if ← Parser.checkHalted then
    Parser.fail
  else
    parser

theorem unlessHalted_run (parser : Parser α) (input : Input) (state : State) :
    unlessHalted parser input state =
      if state.halted then (none, state)
      else if input.stops state then (none, state.stopped)
      else parser input state := by
  rw [unlessHalted, bind_run, checkHalted_run]
  by_cases halted : state.halted = true
  · simp only [halted, if_true]
    rfl
  · by_cases stops : input.stops state = true
    · simp only [halted, stops, if_true]
      rfl
    · simp only [halted, stops]
      rfl

/-! ## Interruptible parsers -/

/-- What a parser has reported goes on being reported. -/
theorem Traced.reports {parser : Parser α} {post : List Reference → α → Prop}
    (traced : Traced parser post) (input : Input) (state : State) :
    state.diagnostics.items.toList ⊆ (parser input state).2.diagnostics.items.toList := by
  obtain ⟨tokens, uses, found, trail, _⟩ := traced input state
  rw [trail.reports]
  exact List.subset_append_left _ _

/-- The tracker stays sound. -/
theorem Traced.sound {parser : Parser α} {post : List Reference → α → Prop}
    (traced : Traced parser post) (input : Input) {state : State} (sound : state.tracker.Sound) :
    (parser input state).2.tracker.Sound := by
  obtain ⟨tokens, uses, found, trail, _⟩ := traced input state
  obtain ⟨verdicts, steps, _⟩ := trail.steps
  exact sound.course steps

namespace InterruptibleWith

variable {gives : Option α → Option α → Prop} {contained : Bool} {parser : Parser α}

theorem mono {others : Option α → Option α → Prop} (h : InterruptibleWith gives contained parser)
    (implies : ∀ cut full, gives cut full → others cut full) :
    InterruptibleWith others contained parser where
  traced := h.traced
  within := h.within
  calm := h.calm
  runs input state sound := (h.runs input state sound).imp id (And.imp_left (implies _ _))

/-- A parser that does not look at the cancellation and leaves the tracker alone. -/
theorem quiet (traced : Traced parser fun _ _ => True)
    (tracker : ∀ input state, (parser input state).2.tracker = state.tracker)
    (calm : ∀ input state, (parser input state).2.cancellations = state.cancellations)
    (same : ∀ input state, parser input state = parser input.uncancelled state) :
    InterruptibleWith gives contained parser where
  traced := traced
  within input state _ := (tracker input state).symm ▸ .refl _
  calm input state _ := calm input state
  runs input state _ := .inl (same input state)

theorem pure {a : α} : InterruptibleWith gives contained (Pure.pure a) :=
  quiet (.pure trivial) (fun _ _ => rfl) (fun _ _ => rfl) fun _ _ => rfl

theorem fail : InterruptibleWith gives contained (Parser.fail : Parser α) :=
  quiet .fail (fun _ _ => rfl) (fun _ _ => rfl) fun _ _ => rfl

theorem within_bind {others : Option β → Option β → Prop} {next : α → Parser β}
    (first : InterruptibleWith gives contained parser)
    (second : ∀ a, InterruptibleWith others contained (next a)) (input : Input) (state : State)
    (sound : state.tracker.Sound) :
    state.tracker.Within contained ((parser >>= next) input state).2.tracker := by
  have start := first.within input state sound
  have middleSound := first.traced.sound input sound
  rw [bind_run]
  cases run : parser input state with
  | mk outcome middle =>
    rw [run] at start middleSound
    cases outcome with
    | none => exact start
    | some a => exact start.trans ((second a).within input middle middleSound)

theorem calm_bind {others : Option β → Option β → Prop} {next : α → Parser β}
    (first : InterruptibleWith gives contained parser)
    (second : ∀ a, InterruptibleWith others contained (next a)) (input : Input) (state : State)
    (uncancelled : input.options.cancellation = {}) :
    ((parser >>= next) input state).2.cancellations = state.cancellations := by
  have start := first.calm input state uncancelled
  rw [bind_run]
  cases run : parser input state with
  | mk outcome middle =>
    rw [run] at start
    cases outcome with
    | none => exact start
    | some a => exact ((second a).calm input middle uncancelled).trans start

/-- Up to the point at which the first part is stopped both runs go alike, and so they do in the
second part if the first one is not stopped. -/
theorem bindOf {others : Option β → Option β → Prop} {next : α → Parser β}
    (first : InterruptibleWith gives contained parser)
    (second : ∀ a, InterruptibleWith others contained (next a))
    (fails : ∀ cut full, gives cut full → cut = none ∧ ∀ full, others none full) :
    InterruptibleWith others contained (parser >>= next) where
  traced := first.traced.andThen fun _ a => (second a).traced
  within := within_bind first second
  calm := calm_bind first second
  runs input state sound := by
    have counted := first.calm input.uncancelled state rfl
    have middleSound := first.traced.sound input.uncancelled sound
    rcases first.runs input state sound with same | ⟨given, stopped⟩
    · rw [bind_run, bind_run, same]
      cases run : parser input.uncancelled state with
      | mk outcome middle =>
        rw [run] at counted middleSound
        cases outcome with
        | none => exact .inl rfl
        | some a =>
          rcases (second a).runs input middle middleSound with alike | ⟨given, later⟩
          · exact .inl alike
          · exact .inr ⟨given, later.counted.trans (congrArg (· + 1) counted), later.lags⟩
    · obtain ⟨failed, related⟩ := fails _ _ given
      rw [bind_run, bind_run]
      cases run : parser input state with
      | mk outcome cut =>
        rw [run] at failed stopped
        change outcome = none at failed
        subst failed
        refine .inr ⟨related _, stopped.counted, ?_⟩
        cases full : parser input.uncancelled state with
        | mk outcome middle =>
          rw [full] at stopped middleSound
          cases outcome with
          | none => exact stopped.lags
          | some a =>
            exact stopped.lags.extend ((second a).within input.uncancelled middle middleSound)
              ((second a).traced.reports input.uncancelled middle)

theorem bindWith {others : Option β → Option β → Prop} {next : α → Parser β}
    (first : Interruptible contained parser)
    (second : ∀ a, InterruptibleWith others contained (next a))
    (fails : ∀ full, others none full) :
    InterruptibleWith others contained (parser >>= next) :=
  bindOf first second fun _ _ failed => ⟨failed, fails⟩

/-- A first part that is never stopped. -/
theorem bindSteady {others : Option β → Option β → Prop} {next : α → Parser β}
    (first : InterruptibleWith (fun _ _ => False) contained parser)
    (second : ∀ a, InterruptibleWith others contained (next a)) :
    InterruptibleWith others contained (parser >>= next) :=
  bindOf first second fun _ _ never => never.elim

theorem bind {next : α → Parser β} (first : Interruptible contained parser)
    (second : ∀ a, Interruptible contained (next a)) : Interruptible contained (parser >>= next) :=
  bindWith first second fun _ => rfl

theorem map {f : α → β} (h : Interruptible contained parser) :
    Interruptible contained (f <$> parser) :=
  h.bind fun _ => pure

theorem mapWith {others : Option β → Option β → Prop} {f : α → β}
    (h : InterruptibleWith gives contained parser)
    (implies : ∀ cut full, gives cut full → others (cut.map f) (full.map f)) :
    InterruptibleWith others contained (f <$> parser) where
  traced := h.traced.map fun _ _ _ => trivial
  within input state sound := by
    rw [map_run]
    exact h.within input state sound
  calm input state uncancelled := by
    rw [map_run]
    exact h.calm input state uncancelled
  runs input state sound := by
    rw [map_run, map_run]
    rcases h.runs input state sound with same | ⟨given, stopped⟩
    · rw [same]
      exact .inl rfl
    · exact .inr ⟨implies _ _ given, stopped⟩

/-- A parser that does not look at the cancellation and may fail. -/
theorem attempt {others : Option (Option α) → Option (Option α) → Prop}
    (h : InterruptibleWith gives contained parser)
    (same : ∀ input state, parser input state = parser input.uncancelled state) :
    InterruptibleWith others contained (Parser.attempt parser) where
  traced := h.traced.attempt.weaken
  within := h.within
  calm := h.calm
  runs input state _ := by
    rw [Parser.attempt, same]
    exact .inl rfl

/-- A part that adds nothing to what is given, and does nothing any more once parsing has come to an
early end. -/
theorem thenClose {others : Option β → Option β → Prop} {next : α → Parser β} {f : α → β}
    (first : InterruptibleWith gives contained parser)
    (second : ∀ a, InterruptibleWith (fun _ _ => False) contained (next a))
    (always : ∀ a input state, (next a input state).1 = some (f a))
    (stays : ∀ a input state, state.halted = true → (next a input state).2 = state)
    (implies : ∀ cut full, gives cut full → others (cut.map f) (full.map f)) :
    InterruptibleWith others contained (parser >>= next) where
  traced := first.traced.andThen fun _ a => (second a).traced
  within := within_bind first second
  calm := calm_bind first second
  runs input state sound := by
    have middleSound := first.traced.sound input.uncancelled sound
    have alike : ∀ a middle, middle.tracker.Sound →
        next a input middle = next a input.uncancelled middle := fun a middle isSound =>
      ((second a).runs input middle isSound).elim id fun never => never.1.elim
    rcases first.runs input state sound with same | ⟨given, counted, lags⟩
    · rw [bind_run, bind_run, same]
      cases run : parser input.uncancelled state with
      | mk outcome middle =>
        rw [run] at middleSound
        cases outcome with
        | none => exact .inl rfl
        | some a => exact .inl (alike a middle middleSound)
    · cases cutRun : parser input state with
      | mk cut stopped =>
        cases fullRun : parser input.uncancelled state with
        | mk full middle =>
          rw [cutRun] at given counted lags
          rw [fullRun] at given lags middleSound
          have cutEnd : (parser >>= next) input state = (cut.map f, stopped) := by
            rw [bind_run, cutRun]
            cases cut with
            | none => rfl
            | some a => exact Prod.ext (always a input stopped) (stays a input stopped lags.halted)
          rw [cutEnd, bind_run, fullRun]
          cases full with
          | none => exact .inr ⟨implies _ _ given, counted, lags⟩
          | some a =>
            refine .inr ⟨?_, counted, lags.extend
              ((second a).within input.uncancelled middle middleSound)
              ((second a).traced.reports input.uncancelled middle)⟩
            rw [always a input.uncancelled middle]
            exact implies _ _ given

theorem look {read : State → α} {others : Option β → Option β → Prop} {next : α → Parser β}
    (second : ∀ a, InterruptibleWith others contained (next a)) :
    InterruptibleWith others contained (Parser.look read >>= next) where
  traced := .look fun a => (second a).traced
  within input state sound := (second (read state)).within input state sound
  calm input state uncancelled := (second (read state)).calm input state uncancelled
  runs input state sound := (second (read state)).runs input state sound

theorem ite {condition : Prop} [Decidable condition] {other : Parser α}
    (yes : InterruptibleWith gives contained parser)
    (no : InterruptibleWith gives contained other) :
    InterruptibleWith gives contained (if condition then parser else other) := by
  split
  · exact yes
  · exact no

theorem naming {construct : String} (h : Interruptible contained parser) :
    Interruptible contained (Parser.naming construct parser) where
  traced := h.traced.naming
  within input state sound := h.within input { state with construct } sound
  calm input state uncancelled := h.calm input { state with construct } uncancelled
  runs input state sound := by
    rcases h.runs input { state with construct } sound with same | ⟨failed, counted, lags⟩
    · rw [Parser.naming, same]
      exact .inl rfl
    · exact .inr ⟨failed, counted, lags.halted, lags.tracker, lags.diagnostics⟩

/-- The verdicts on closing a scope are no cancellations. -/
theorem countP_ofUnresolved (verdicts : List Unresolved) :
    (verdicts.map Diagnostic.ofUnresolved).countP Diagnostic.isCancelled = 0 := by
  apply List.countP_eq_zero.2
  intro diagnostic member
  obtain ⟨verdict, _, rfl⟩ := List.mem_map.1 member
  exact Bool.false_ne_true

/-- A scope of its own keeps what the parser does in it from the current scope, and its verdicts are
alike in both runs, or overtaken. -/
theorem inScope (h : Interruptible false parser) :
    Interruptible contained (Parser.inScope parser) where
  traced := h.traced.inScope
  within input state sound :=
    .inScope sound (h.within input { state with tracker := state.tracker.push } sound.push)
  calm input state uncancelled := by
    have inside := h.calm input { state with tracker := state.tracker.push } uncancelled
    simp only [State.cancellations, Parser.inScope, Diagnostics.append, Array.toList_appendList,
      List.countP_append, countP_ofUnresolved] at inside ⊢
    exact inside
  runs input state sound := by
    rcases h.runs input { state with tracker := state.tracker.push } sound.push with
      same | ⟨failed, counted, lags⟩
    · rw [Parser.inScope, same]
      exact .inl rfl
    · refine .inr ⟨failed, ?_, ?_⟩
      · simp only [State.cancellations, Parser.inScope, Diagnostics.append,
          Array.toList_appendList, List.countP_append, countP_ofUnresolved] at counted ⊢
        exact counted
      · let opened : State := { state with tracker := state.tracker.push }
        have isSound : opened.tracker.Sound := sound.push
        have popped := Tracker.Behind.pop (h.traced.sound input isSound)
          (h.traced.sound input.uncancelled isSound) (h.within input opened isSound)
          (h.within input.uncancelled opened isSound) lags.tracker
        refine ⟨lags.halted, popped.1, ?_⟩
        intro diagnostic member
        simp only [Parser.inScope, Diagnostics.append, Array.toList_appendList,
          List.mem_append, Tracker.table_pop] at member ⊢
        rcases member with earlier | late
        · rcases lags.diagnostics diagnostic earlier with cancelled | both | overtaken
          · exact .inl cancelled
          · exact .inr (.inl (.inl both))
          · exact .inr (.inr overtaken)
        · obtain ⟨verdict, given, rfl⟩ := List.mem_map.1 late
          rcases popped.2 verdict given with both | overtaken
          · exact .inr (.inl (.inr (List.mem_map_of_mem both)))
          · exact .inr (.inr ⟨verdict, rfl, overtaken⟩)

end InterruptibleWith

/-! ## Loops -/

/-- What holds after the first step of a loop and is kept by every step holds after the loop. -/
theorem iterate_keeps {holds : State → Prop} {step : σ → Parser (Step σ β)} {input : Input}
    (steps : ∀ accumulated state, holds state → holds (step accumulated input state).2)
    {accumulated : σ} {state : State} (kept : holds (step accumulated input state).2) :
    holds (Parser.iterate step accumulated input state).2 := by
  induction accumulated, state using iterate_induction step input with
  | failed accumulated state final run ran | done accumulated state result final run ran
  | stuck accumulated state further final run fewer ran =>
    rw [run] at kept
    rw [ran]
    exact kept
  | again accumulated state further next run fewer ran ih =>
    rw [run] at kept
    rw [ran]
    exact ih (steps further next kept)

/-- How a loop ends, given how one of its steps ends that was stopped. The step fails or gives the
result, or it wants to go on, but then every further step fails. -/
inductive Ends (step : σ → Parser (Step σ β)) : Option (Step σ β) → Option β → Prop where
  | fails : Ends step none none
  | done (result : β) : Ends step (some (.done result)) (some result)
  | stalls (accumulated : σ)
      (fails : ∀ accumulated input state, state.halted = true →
        step accumulated input state = (none, state)) :
      Ends step (some (.again accumulated)) none

/-- A stopped step ends the loop. -/
theorem iterate_ends {step : σ → Parser (Step σ β)} {accumulated : σ} {input : Input}
    {state : State} {given : Option β} (ends : Ends step (step accumulated input state).1 given)
    (halted : (step accumulated input state).2.halted = true) :
    Parser.iterate step accumulated input state = (given, (step accumulated input state).2) := by
  rw [iterate_run]
  cases run : step accumulated input state with
  | mk outcome next =>
    rw [run] at ends halted
    cases ends with
    | fails => rfl
    | done result => rfl
    | stalls further fails =>
      simp only
      split
      · rw [iterate_run, fails further input next halted]
      · rfl

namespace InterruptibleWith

variable {contained : Bool}

/-- A loop goes alike in both runs up to the step that is stopped. -/
theorem iterateWith {step : σ → Parser (Step σ β)} {stops : σ → Option β}
    {gives : Option β → Option β → Prop} {accumulated : σ}
    (steps : ∀ accumulated, InterruptibleWith (fun cut _ => Ends step cut (stops accumulated))
      contained (step accumulated))
    (related : ∀ accumulated input state,
      gives (stops accumulated) (Parser.iterate step accumulated input state).1) :
    InterruptibleWith gives contained (Parser.iterate step accumulated) where
  traced := by
    let invariant : List Reference → σ → Prop := fun _ _ => True
    have start : invariant [] accumulated := trivial
    apply Traced.iterate start
    intro uses accumulated _
    apply (steps accumulated).traced.mono
    intro more outcome _
    cases outcome
    · trivial
    · trivial
  within input state sound := by
    let holds : State → Prop := fun later =>
      later.tracker.Sound ∧ state.tracker.Within contained later.tracker
    have keeps : ∀ accumulated middle, holds middle → holds (step accumulated input middle).2 :=
      fun accumulated middle ⟨middleSound, within⟩ =>
        ⟨(steps accumulated).traced.sound input middleSound,
          within.trans ((steps accumulated).within input middle middleSound)⟩
    exact (iterate_keeps keeps (keeps accumulated state ⟨sound, .refl _⟩)).2
  calm input state uncancelled := by
    let holds : State → Prop := fun later => later.cancellations = state.cancellations
    have keeps : ∀ accumulated middle, holds middle → holds (step accumulated input middle).2 :=
      fun accumulated middle same => ((steps accumulated).calm input middle uncancelled).trans same
    exact iterate_keeps keeps (keeps accumulated state rfl)
  runs input state sound := by
    have cut : ∀ accumulated (state : State), state.tracker.Sound →
        Ends step (step accumulated input state).1 (stops accumulated) →
          Stopped state (step accumulated input state).2
          (step accumulated input.uncancelled state).2 →
            gives (Parser.iterate step accumulated input state).1
                (Parser.iterate step accumulated input.uncancelled state).1 ∧
              Stopped state (Parser.iterate step accumulated input state).2
                (Parser.iterate step accumulated input.uncancelled state).2 := by
      intro accumulated state sound ends stopped
      rw [iterate_ends ends stopped.lags.halted]
      let holds : State → Prop := fun later =>
        later.tracker.Sound ∧ Lags (step accumulated input state).2 later
      have keeps : ∀ accumulated middle, holds middle →
          holds (step accumulated input.uncancelled middle).2 :=
        fun accumulated middle ⟨middleSound, lags⟩ =>
          ⟨(steps accumulated).traced.sound input.uncancelled middleSound,
            lags.extend ((steps accumulated).within input.uncancelled middle middleSound)
              ((steps accumulated).traced.reports input.uncancelled middle)⟩
      have first : holds (step accumulated input.uncancelled state).2 :=
        ⟨(steps accumulated).traced.sound input.uncancelled sound, stopped.lags⟩
      exact ⟨related accumulated input.uncancelled state, stopped.counted,
        (iterate_keeps keeps first).2⟩
    induction accumulated, state using iterate_induction step input.uncancelled with
    | failed accumulated state final run ran | done accumulated state result final run ran =>
      rcases (steps accumulated).runs input state sound with same | ⟨ends, stopped⟩
      · rw [ran, iterate_run, same, run]
        exact .inl rfl
      · exact .inr (cut accumulated state sound ends stopped)
    | stuck accumulated state further final run fewer ran =>
      rcases (steps accumulated).runs input state sound with same | ⟨ends, stopped⟩
      · rw [ran, iterate_run, same, run]
        exact .inl (if_neg fewer)
      · exact .inr (cut accumulated state sound ends stopped)
    | again accumulated state further next run fewer ran ih =>
      rcases (steps accumulated).runs input state sound with same | ⟨ends, stopped⟩
      · have counted := (steps accumulated).calm input.uncancelled state rfl
        have nextSound := (steps accumulated).traced.sound input.uncancelled sound
        have unrolled : Parser.iterate step accumulated input state =
            Parser.iterate step further input next := by
          rw [iterate_run, same, run]
          exact if_pos fewer
        rw [run] at counted nextSound
        rw [ran, unrolled]
        rcases ih nextSound with alike | ⟨given, later⟩
        · exact .inl alike
        · exact .inr ⟨given, later.counted.trans (congrArg (· + 1) counted), later.lags⟩
      · exact .inr (cut accumulated state sound ends stopped)

/-- A loop that fails when one of its steps is stopped. -/
theorem iterate {step : σ → Parser (Step σ β)} {accumulated : σ}
    (steps : ∀ accumulated,
      InterruptibleWith (fun cut _ => Ends step cut none) contained (step accumulated)) :
    Interruptible contained (Parser.iterate step accumulated) :=
  iterateWith steps fun _ _ _ => rfl

/-- A loop whose steps all fail when they are stopped. -/
theorem loop {step : σ → Parser (Step σ β)} {accumulated : σ}
    (steps : ∀ accumulated, Interruptible contained (step accumulated)) :
    Interruptible contained (Parser.iterate step accumulated) := by
  apply iterate
  intro accumulated
  apply (steps accumulated).mono
  rintro cut full rfl
  exact .fails

theorem collect {step : Parser (Option α × Bool)} (h : Interruptible contained step) :
    Interruptible contained (Parser.collect step) := by
  apply map
  apply loop
  intro items
  apply h.bind
  rintro ⟨item, goesOn⟩
  exact pure

/-! ## Tokens, names and reports -/

variable {unitGives : Option Unit → Option Unit → Prop}

theorem change {update : State → State}
    (moves : ∀ state, ∃ count, (update state).cursor = state.cursor.advance count)
    (tracker : ∀ state, (update state).tracker = state.tracker)
    (diagnostics : ∀ state, (update state).diagnostics = state.diagnostics) :
    InterruptibleWith unitGives contained (Parser.change update) :=
  quiet (.change moves tracker diagnostics) (fun _ state => tracker state)
    (fun _ state => congrArg (fun found : Diagnostics =>
      found.items.toList.countP Diagnostic.isCancelled) (diagnostics state)) fun _ _ => rfl

theorem skip : InterruptibleWith unitGives contained Parser.skip :=
  change (fun _ => ⟨1, rfl⟩) (fun _ => rfl) fun _ => rfl

theorem halt : InterruptibleWith unitGives contained Parser.halt :=
  change (fun _ => ⟨0, rfl⟩) (fun _ => rfl) fun _ => rfl

/-- One more diagnostic that is not a cancellation. -/
theorem cancellations_push {before after : State} {diagnostic : Diagnostic}
    (diagnostics : after.diagnostics = before.diagnostics.push diagnostic)
    (other : diagnostic.isCancelled = false) : after.cancellations = before.cancellations := by
  simp [State.cancellations, diagnostics, Diagnostics.push, other]

theorem report {diagnostic : Diagnostic} (resolved : diagnostic.isUnresolved = false)
    (other : diagnostic.isCancelled = false) :
    InterruptibleWith unitGives contained (Parser.report diagnostic) :=
  quiet (.report resolved) (fun _ _ => rfl) (fun _ _ => cancellations_push rfl other) fun _ _ => rfl

theorem reportExpected (what : String) :
    InterruptibleWith unitGives contained (Parser.reportExpected what) :=
  quiet (.reportExpected what) (fun _ _ => rfl) (fun _ _ => cancellations_push rfl rfl) fun _ _ =>
    rfl

theorem expected (what : String) : Interruptible contained (Parser.expected what : Parser α) :=
  bind (reportExpected what) fun _ => fail

theorem satisfying (condition : Token → Bool) (what : String) :
    Interruptible contained (Parser.satisfying condition what) :=
  look fun _ => ite (skip.bind fun _ => pure) (expected what)

theorem token (kind : TokenKind) (what : String) :
    Interruptible contained (Parser.token kind what) :=
  satisfying _ what

theorem punct (mark : Punct) : Interruptible contained (Parser.punct mark) :=
  satisfying _ _

theorem word (text : String) : Interruptible contained (Parser.word text) :=
  satisfying _ _

theorem eat (mark : Punct) : Interruptible contained (Parser.eat mark) :=
  look fun _ => ite (skip.bind fun _ => pure) pure

theorem refer (kind : NameKind) : Interruptible contained (Parser.refer kind) where
  traced := (Traced.refer kind).weaken
  within input state sound := by
    rw [refer_run]
    by_cases same : state.cursor.peek.kind = nameToken kind
    · simp only [same, if_true]
      exact .refer _ _ _ _
    · simp only [same, if_false]
      exact .refl _
  calm input state _ := by
    rw [refer_run]
    by_cases same : state.cursor.peek.kind = nameToken kind
    · simp only [same, if_true]
      rfl
    · simp only [same, if_false]
      exact cancellations_push rfl rfl
  runs input state _ := .inl (by rw [refer_run, refer_run]; rfl)

/-- A definition reports no cancellation. -/
theorem cancellations_define (kind : NameKind) (found : Token) (input : Input) (state : State) :
    (Parser.define kind found input state).2.cancellations = state.cancellations := by
  cases clash : (state.tracker.define kind found.name found.span).2.1 with
  | none => simp [Parser.define, State.cancellations, clash]
  | some earlier =>
    let duplicate :=
      Diagnostic.ofDuplicate (state.tracker.define kind found.name found.span).1 earlier
    have pushed : (Parser.define kind found input state).2.diagnostics =
        state.diagnostics.push duplicate := by
      simp only [Parser.define, clash]
      rfl
    exact cancellations_push pushed rfl

/-- A definition of a symbol is contained, since symbols do not belong to a scope. -/
theorem define {kind : NameKind} (notLabel : kind ≠ .label)
    (symbols : contained = true → kind = .symbol) (found : Token) :
    Interruptible contained (Parser.define kind found) where
  traced := (Traced.define notLabel found).weaken
  within _ _ sound := .define sound symbols found.name found.span
  calm input state _ := cancellations_define kind found input state
  runs _ _ _ := .inl rfl

theorem definition {kind : NameKind} (symbols : contained = true → kind = .symbol) (what : String) :
    Interruptible contained (Parser.token (nameToken kind) what >>= Parser.define kind) where
  traced := (Traced.definition kind what).weaken
  within input state sound := by
    rw [bind_run, Parser.token, satisfying_run]
    by_cases same : state.cursor.peek.kind = nameToken kind
    · simp only [same, beq_self_eq_true, if_true]
      exact .define sound symbols _ _
    · simp only [same, beq_iff_eq, if_false]
      exact .refl _
  calm input state _ := by
    rw [bind_run, Parser.token, satisfying_run]
    by_cases same : state.cursor.peek.kind = nameToken kind
    · simp only [same, beq_self_eq_true, if_true]
      exact cancellations_define kind _ input { state with cursor := state.cursor.next }
    · simp only [same, beq_iff_eq, if_false]
      exact cancellations_push rfl rfl
  runs input state _ := .inl (by
    rw [bind_run, bind_run, Parser.token, satisfying_run, satisfying_run]
    by_cases same : state.cursor.peek.kind = nameToken kind
    · simp only [same, beq_self_eq_true, if_true]
      rfl
    · simp only [same, beq_iff_eq, if_false]
      rfl)

/-! ## Embedded languages, cancellation and recovery -/

theorem embed {language : Sublanguage} {adapter : Adapters → Adapter α} :
    Interruptible contained (Parser.embed language adapter) := by
  apply quiet (.embed fun _ => trivial)
  · intro input state
    unfold Parser.embed
    split <;> rfl
  · intro input state
    unfold Parser.embed
    split
    · rfl
    · exact cancellations_push rfl rfl
  · intro input state
    rfl

theorem type : Interruptible contained Parser.type :=
  embed

theorem attributeOf (form : AttributeForm) : Interruptible contained (Parser.attributeOf form) :=
  embed

theorem warnDeprecated (opcode : Opcode) (message : String) (span : Span) :
    Interruptible contained (Parser.warnDeprecated opcode message span) := by
  apply quiet (.warnDeprecated opcode message span)
  · intro input state
    rw [warnDeprecated_run]
    split <;> rfl
  · intro input state
    rw [warnDeprecated_run]
    split
    · exact cancellations_push rfl rfl
    · rfl
  · intro input state
    rw [warnDeprecated_run, warnDeprecated_run]
    rfl

/-- A part that is skipped once parsing has come to an early end. -/
theorem checkingHalted {parser : Parser α} (h : Interruptible contained parser) :
    Interruptible contained (unlessHalted parser) where
  traced := Traced.checkHalted.andThen fun _ _ => .ite (fun _ => .fail) fun _ => h.traced
  within input state sound := by
    rw [unlessHalted_run]
    split
    · exact .refl _
    · split
      · exact .refl _
      · exact h.within input state sound
  calm input state uncancelled := by
    have never : input.stops state = false := by
      rw [Input.stops, uncancelled]
      rfl
    rw [unlessHalted_run, never]
    split
    · rfl
    · exact h.calm input state uncancelled
  runs input state sound := by
    rw [unlessHalted_run, unlessHalted_run, stops_uncancelled]
    split
    · exact .inl rfl
    · split
      · exact .inr ⟨rfl, stopped_stopped (h.within input.uncancelled state sound)
          (h.traced.reports input.uncancelled state)⟩
      · exact h.runs input state sound

end InterruptibleWith

end Parser

end CirText
