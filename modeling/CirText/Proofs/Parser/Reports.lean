import CirText.Proofs.Parser.Inherited
import CirText.Proofs.Parser.Meaning

/-!
# What parsers add to what has been reported

A parser does not look at what has been reported before it, and takes nothing back: it adds its own
diagnostics, which are errors unless warnings of deprecated forms are switched on.
-/

namespace CirText

theorem Diagnostics.append_nil (diagnostics : Diagnostics) :
    diagnostics.append [] = diagnostics := by
  simp [append]

theorem Diagnostics.append_append (diagnostics : Diagnostics) (first second : List Diagnostic) :
    (diagnostics.append first).append second = diagnostics.append (first ++ second) := by
  apply congrArg Diagnostics.mk
  apply Array.toList_inj.1
  simp [append]

theorem Diagnostics.push_eq_append (diagnostics : Diagnostics) (diagnostic : Diagnostic) :
    diagnostics.push diagnostic = diagnostics.append [diagnostic] := by
  simp [push, append]

/-- Whether a diagnostic may be reported under the options: it is an error, or a warning that is
wanted. -/
def Diagnostic.May (diagnostic : Diagnostic) (options : Options) : Prop :=
  diagnostic.isError = true ∨ diagnostic.isDeprecated = true ∧ options.deprecations = true

namespace Parser

variable {α β σ : Type}

/-- The state in which other diagnostics have been reported. -/
def State.reporting (state : State) (diagnostics : Diagnostics) : State :=
  { state with diagnostics }

/-- Whether two runs of a parser, with different diagnostics before them, give the same and add the
given diagnostics to what has been reported. -/
def Adds (new : List Diagnostic) (before after : Diagnostics) (run other : Option α × State) :
    Prop :=
  run.2.diagnostics = before.append new ∧ other = (run.1, run.2.reporting (after.append new))

/-- Whether the runs of a parser do not depend on what has been reported before them, and add errors
or wanted warnings to it. -/
def Appends (parser : Parser α) : Prop :=
  ∀ (input : Input) (state : State), ∃ new : List Diagnostic,
    (∀ diagnostic ∈ new, diagnostic.May input.options) ∧
      ∀ earlier, Adds new state.diagnostics earlier (parser input state)
      (parser input (state.reporting earlier))

theorem appends_look {read : State → α}
    (same : ∀ state earlier, read (State.reporting state earlier) = read state) :
    Appends (look read) := by
  refine fun input state =>
    ⟨[], by rintro _ ⟨⟩, fun earlier => ⟨(Diagnostics.append_nil _).symm, ?_⟩⟩
  rw [Diagnostics.append_nil]
  exact congrArg (fun a => (some a, state.reporting earlier)) (same state earlier)

/-- A change of the state that reports some diagnostics and leaves alone what has been reported. -/
theorem appends_change {update : State → State} (new : State → List Diagnostic)
    (reports : ∀ state earlier, update (State.reporting state earlier) =
      (update state).reporting (earlier.append (new state)))
    (may : ∀ input state, ∀ diagnostic ∈ new state, diagnostic.May (Input.options input)) :
    Appends (change update) := by
  intro input state
  refine ⟨new state, may input state, fun earlier => ⟨?_, ?_⟩⟩
  · have here := reports state state.diagnostics
    exact congrArg State.diagnostics here
  · exact congrArg (some (), ·) (reports state earlier)

/-- A change of the state that reports nothing. -/
theorem appends_quiet {update : State → State}
    (same : ∀ state earlier, update (State.reporting state earlier) =
      (update state).reporting earlier) :
    Appends (change update) := by
  refine appends_change (fun _ => []) (fun state earlier => ?_) (by rintro _ _ _ ⟨⟩)
  rw [Diagnostics.append_nil, same]

theorem appends_report {diagnostic : Diagnostic} (error : diagnostic.isError = true) :
    Appends (report diagnostic) := by
  refine appends_change (fun _ => [diagnostic]) (fun state earlier => ?_)
    fun input state other member => ?_
  · rw [← Diagnostics.push_eq_append]
    rfl
  · rw [List.mem_singleton.1 member]
    exact .inl error

theorem appends_bind {parser : Parser α} {next : α → Parser β} (first : Appends parser)
    (second : ∀ a, Appends (next a)) : Appends (parser >>= next) := by
  intro input state
  obtain ⟨new, may, adds⟩ := first input state
  cases run : parser input state with
  | mk outcome middle =>
    rw [run] at adds
    cases outcome with
    | none =>
      refine ⟨new, may, fun earlier => ⟨?_, ?_⟩⟩
      · rw [bind_run, run]
        exact (adds earlier).1
      · rw [bind_run, bind_run, run, (adds earlier).2]
    | some a =>
      obtain ⟨more, mayMore, addsMore⟩ := second a input middle
      refine ⟨new ++ more, fun diagnostic member => ?_, fun earlier => ⟨?_, ?_⟩⟩
      · exact (List.mem_append.1 member).elim (may diagnostic) (mayMore diagnostic)
      · rw [bind_run, run, ← Diagnostics.append_append, ← (adds earlier).1]
        exact (addsMore earlier).1
      · rw [bind_run, bind_run, run, (adds earlier).2, ← Diagnostics.append_append]
        exact (addsMore (earlier.append new)).2

theorem appends_iterate {step : σ → Parser (Step σ β)}
    (steps : ∀ accumulated, Appends (step accumulated))
    (accumulated : σ) : Appends (iterate step accumulated) := by
  intro input state
  induction accumulated, state using iterate_induction step input with
  | failed accumulated state final run ran | done accumulated state result final run ran =>
    obtain ⟨new, may, adds⟩ := steps accumulated input state
    rw [run] at adds
    refine ⟨new, may, fun earlier => ?_⟩
    rw [Adds, ran, iterate_run, (adds earlier).2]
    exact ⟨(adds earlier).1, rfl⟩
  | stuck accumulated state further final run fewer ran =>
    obtain ⟨new, may, adds⟩ := steps accumulated input state
    rw [run] at adds
    refine ⟨new, may, fun earlier => ?_⟩
    rw [Adds, ran, iterate_run, (adds earlier).2]
    exact ⟨(adds earlier).1, if_neg fewer⟩
  | again accumulated state further next run fewer ran ih =>
    obtain ⟨new, may, adds⟩ := steps accumulated input state
    obtain ⟨more, mayMore, addsMore⟩ := ih
    rw [run] at adds
    refine ⟨new ++ more, fun diagnostic member => ?_, fun earlier => ?_⟩
    · exact (List.mem_append.1 member).elim (may diagnostic) (mayMore diagnostic)
    · have unrolled : iterate step accumulated input (state.reporting earlier) =
          iterate step further input (next.reporting (earlier.append new)) := by
        rw [iterate_run, (adds earlier).2]
        exact if_pos fewer
      rw [Adds, ran, unrolled, ← Diagnostics.append_append, ← Diagnostics.append_append,
        ← (adds earlier).1]
      exact addsMore (earlier.append new)

/-- The error for a definition that clashes with an earlier one, if it does. -/
def duplicates (definition : Definition) (earlier : Option Definition) : List Diagnostic :=
  earlier.toList.map (.ofDuplicate definition)

theorem define_run (kind : NameKind) (found : Token) (input : Input) (state : State) :
    define kind found input state =
      (some (state.tracker.define kind found.name found.span).1,
        { state with
          tracker := (state.tracker.define kind found.name found.span).2.2
          diagnostics := state.diagnostics.append
            (duplicates (state.tracker.define kind found.name found.span).1
              (state.tracker.define kind found.name found.span).2.1) }) := by
  unfold define
  obtain ⟨definition, earlier, tracker⟩ := state.tracker.define kind found.name found.span
  cases earlier with
  | none => simp only [duplicates, Option.toList_none, List.map_nil, Diagnostics.append_nil]
  | some earlier =>
    simp only [duplicates, Option.toList_some, List.map_singleton, Diagnostics.push_eq_append]

theorem appends_define (kind : NameKind) (found : Token) : Appends (define kind found) := by
  intro input state
  refine ⟨duplicates (state.tracker.define kind found.name found.span).1
    (state.tracker.define kind found.name found.span).2.1, fun diagnostic member => ?_,
    fun earlier => ?_⟩
  · obtain ⟨earlier, _, rfl⟩ := List.mem_map.1 member
    exact .inl rfl
  · rw [Adds, define_run, define_run]
    exact ⟨rfl, rfl⟩

/-- Defining values depends on nothing but the names that are already defined. -/
theorem mapM_define_run (names : List Token) (tracker : Tracker) :
    ∃ results last new, ∀ input (state : State), state.tracker = tracker →
      names.mapM (define .value) input state =
        (some results,
          { state with tracker := last, diagnostics := state.diagnostics.append new }) := by
  suffices loop : ∀ done, ∃ results last new, ∀ input (state : State), state.tracker = tracker →
      List.mapM.loop (define .value) names done input state =
        (some results,
          { state with tracker := last, diagnostics := state.diagnostics.append new }) from
    loop []
  induction names generalizing tracker with
  | nil =>
    refine fun done => ⟨done.reverse, tracker, [], ?_⟩
    rintro input state rfl
    rw [Diagnostics.append_nil]
    rfl
  | cons name names ih =>
    intro done
    obtain ⟨results, last, more, others⟩ := ih (tracker.define .value name.name name.span).2.2
      ((tracker.define .value name.name name.span).1 :: done)
    refine ⟨results, last, duplicates (tracker.define .value name.name name.span).1
      (tracker.define .value name.name name.span).2.1 ++ more, ?_⟩
    rintro input state rfl
    rw [List.mapM.loop, bind_run, define_run]
    refine (others input _ rfl).trans ?_
    rw [Diagnostics.append_append]

theorem appends_embed (language : Sublanguage) (adapter : Adapters → Adapter α) :
    Appends (embed language adapter) := by
  intro input state
  unfold embed
  cases outcome : (adapter input.adapters).read input.source state.cursor with
  | ok found =>
    refine ⟨[], by rintro _ ⟨⟩, fun earlier => ?_⟩
    simp only [Adds, State.reporting, outcome, Diagnostics.append_nil, and_self]
  | error error =>
    refine ⟨[.error (.sublanguage error) error.span], fun diagnostic member => ?_,
      fun earlier => ?_⟩
    · rw [List.mem_singleton.1 member]
      exact .inl rfl
    · simp only [Adds, State.reporting, outcome, Diagnostics.push_eq_append, and_self]

theorem appends_inScope {parser : Parser α} (inner : Appends parser) :
    Appends (inScope parser) := by
  intro input state
  obtain ⟨new, may, adds⟩ := inner input { state with tracker := state.tracker.push }
  unfold inScope
  cases run : parser input { state with tracker := state.tracker.push } with
  | mk outcome last =>
    rw [run] at adds
    refine ⟨new ++ last.tracker.pop.2.map .ofUnresolved, fun diagnostic member => ?_,
      fun earlier => ⟨?_, ?_⟩⟩
    · rcases List.mem_append.1 member with inside | unresolved
      · exact may diagnostic inside
      · obtain ⟨verdict, _, rfl⟩ := List.mem_map.1 unresolved
        exact .inl rfl
    · rw [← Diagnostics.append_append, ← (adds earlier).1]
    · have again : parser input { state.reporting earlier with tracker := state.tracker.push } =
          (outcome, last.reporting (earlier.append new)) := (adds earlier).2
      rw [← Diagnostics.append_append]
      simp only [State.reporting] at again ⊢
      rw [again]

theorem appends_checkHalted : Appends checkHalted := by
  intro input state
  unfold checkHalted
  cases ended : state.halted with
  | true =>
    refine ⟨[], by rintro _ ⟨⟩, fun earlier => ?_⟩
    simp only [Adds, State.reporting, ended, Diagnostics.append_nil, if_true, and_self]
  | false =>
    cases cancelled : input.options.cancellation.isSet (countReadings .type state.readings)
      (countReadings .attribute state.readings) with
    | true =>
      refine ⟨[.error .cancelled (.emptyAt state.cursor.peek.span.start)],
        fun diagnostic member => ?_,
        fun earlier => ?_⟩
      · rw [List.mem_singleton.1 member]
        exact .inl rfl
      · simp only [Adds, State.reporting, ended, cancelled, Diagnostics.push_eq_append,
          Bool.false_eq_true, if_false, if_true, and_self]
    | false =>
      refine ⟨[], by rintro _ ⟨⟩, fun earlier => ?_⟩
      simp only [Adds, State.reporting, ended, cancelled, Diagnostics.append_nil,
        Bool.false_eq_true, if_false,
        and_self]

/-- Adding to what has been reported is inherited. -/
theorem inherited_appends : Inherited Appends where
  pure a input state := ⟨[], by rintro _ ⟨⟩, fun earlier => by
    rw [Adds, Diagnostics.append_nil, Diagnostics.append_nil]
    exact ⟨rfl, rfl⟩⟩
  fail input state := ⟨[], by rintro _ ⟨⟩, fun earlier => by
    rw [Adds, Diagnostics.append_nil, Diagnostics.append_nil]
    exact ⟨rfl, rfl⟩⟩
  cursor := appends_look fun _ _ => rfl
  halted := appends_look fun _ _ => rfl
  construct := appends_look fun _ _ => rfl
  scope := appends_look fun _ _ => rfl
  skip := appends_quiet fun _ _ => rfl
  halt := appends_quiet fun _ _ => rfl
  takeId input state := ⟨[], by rintro _ ⟨⟩, fun earlier => by
    rw [Adds, Diagnostics.append_nil, Diagnostics.append_nil]
    exact ⟨rfl, rfl⟩⟩
  resynchronize start := appends_quiet fun state earlier => by
    change (if state.halted then _ else _ : State) =
      State.reporting (if state.halted then _ else _) earlier
    split <;> rfl
  report common := appends_report (Diagnostic.isError_of_isCommon common)
  reportAll {diagnostics} common := by
    refine appends_change (fun _ => diagnostics) (fun state earlier => rfl)
      fun input state diagnostic member => ?_
    exact .inl (Diagnostic.isError_of_isCommon (common diagnostic member))
  reportExpected what := by
    refine appends_change (fun state => [.errorWithFix
      (.malformed state.construct what state.cursor.peek.describe) state.cursor.peek.span
        (.emptyAt state.cursor.lastStop)]) (fun state earlier =>
          ?_) fun input state diagnostic member => ?_
    · rw [← Diagnostics.push_eq_append]
      rfl
    · rw [List.mem_singleton.1 member]
      exact .inl rfl
  noteUse kind found input state := ⟨[], by rintro _ ⟨⟩, fun earlier => by
    rw [Adds, Diagnostics.append_nil, Diagnostics.append_nil]
    exact ⟨rfl, rfl⟩⟩
  define := appends_define
  type := appends_embed _ _
  attributeOf _ := appends_embed _ _
  checkHalted := appends_checkHalted
  maxDepth all input state := all input.options.maxDepth input state
  bind := appends_bind
  attempt {_ parser} inner input state := by
    obtain ⟨new, may, adds⟩ := inner input state
    refine ⟨new, may, fun earlier => ⟨(adds earlier).1, ?_⟩⟩
    exact congrArg (fun ran => (some ran.1, ran.2)) (adds earlier).2
  naming {_ parser} construct inner input state := by
    obtain ⟨new, may, adds⟩ := inner input { state with construct }
    refine ⟨new, may, fun earlier => ⟨(adds earlier).1, ?_⟩⟩
    exact congrArg (fun ran => (ran.1, { ran.2 with construct := state.construct }))
      (adds earlier).2
  inScope := appends_inScope
  iterate := appends_iterate

theorem appends_warnDeprecated (opcode : Opcode) (message : String) (span : Span) :
    Appends (warnDeprecated opcode message span) := by
  intro input state
  simp only [warnDeprecated_run]
  cases wanted : input.options.deprecations with
  | false =>
    refine ⟨[], by rintro _ ⟨⟩, fun earlier => ?_⟩
    simp only [Adds, State.reporting, Diagnostics.append_nil, Bool.false_eq_true,
      if_false, and_self]
  | true =>
    refine ⟨[.warning (.deprecated opcode message) span], fun diagnostic member => ?_,
      fun earlier => ?_⟩
    · rw [List.mem_singleton.1 member]
      exact .inr ⟨rfl, wanted⟩
    · simp only [Adds, State.reporting, Diagnostics.push_eq_append, if_true, and_self]

theorem appends_unknownOpcode (keyword : String) (span : Span) :
    Appends (report (.error (.unknownOpcode keyword) span)) :=
  appends_report rfl

theorem appends_regionWithin (levels : Nat) (kind : RegionKind) (implicitTerminator : Bool) :
    Appends (regionWithin levels kind implicitTerminator) :=
  inherited_appends.regionWithin
    (fun regions => inherited_appends.blockStep appends_warnDeprecated appends_unknownOpcode
      regions) levels kind implicitTerminator

/-! ## Runs that add no errors -/

section Meaning

variable {parser : Parser α} {meaning : Meaning α}

/-- A run that adds no errors is described by the meaning of the parser, whatever has been reported
before. -/
theorem Means.sound_of_errors_eq (means : Means parser meaning) (appends : Appends parser)
    {input : Input} {state : State} (structural : input.adapters = .structural)
    (live : state.halted = false)
    (silent : (parser input state).2.diagnostics.errors = state.diagnostics.errors) :
    ∃ a, (parser input state).1 = some a ∧
      meaning input.source state.stage a (parser input state).2.stage := by
  obtain ⟨new, -, adds⟩ := appends input state
  obtain ⟨added, cleared⟩ := adds {}
  have none : new.filter Diagnostic.isError = [] := by
    rw [added, Diagnostics.errors_append] at silent
    exact List.append_right_eq_self.1 silent
  have clean : (parser input (state.reporting {})).2.diagnostics.Clean := by
    rw [cleared]
    refine Diagnostics.clean_append.2 ⟨by rintro _ ⟨⟩, fun diagnostic member => ?_⟩
    exact Bool.eq_false_iff.2 (List.filter_eq_nil_iff.1 none diagnostic member)
  obtain ⟨_, a, outcome, reads⟩ := (means.sound input _ structural clean).2 live
  rw [cleared] at outcome reads
  exact ⟨a, outcome, reads⟩

/-- Whatever the meaning of a parser describes is the outcome of a run that adds no errors to those
before it. -/
theorem Means.complete_errors_eq (means : Means parser meaning) (appends : Appends parser)
    (input : Input) {state : State} {a : α} {after : Stage}
    (structural : input.adapters = .structural) (live : state.halted = false)
    (never : ∀ types attributes, input.options.cancellation.isSet types attributes = false)
    (reads : meaning input.source state.stage a after) :
    ∃ final, parser input state = (some a, final) ∧ final.stage = after ∧
      final.diagnostics.errors = state.diagnostics.errors := by
  obtain ⟨final, ran, stage, clean, -⟩ := means.complete input (state.reporting {}) a after
    structural (by rintro _ ⟨⟩) live never reads
  obtain ⟨new, -, adds⟩ := appends input (state.reporting {})
  obtain ⟨added, restored⟩ := adds state.diagnostics
  rw [ran] at added restored
  refine ⟨_, restored, stage, ?_⟩
  rw [added] at clean
  have none := (Diagnostics.clean_append.1 clean).2
  refine (Diagnostics.errors_append _ _).trans ?_
  rw [List.filter_eq_nil_iff.2 fun diagnostic member =>
    Bool.eq_false_iff.1 (none diagnostic member),
    List.append_nil]

end Meaning

end Parser

end CirText
