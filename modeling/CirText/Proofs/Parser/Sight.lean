import CirText.Proofs.Parser.Place
import CirText.Proofs.Parser.Steps
import CirText.Proofs.Sublanguage.Rest

/-!
# What parsers see in the text

`Sees text before parser finds` says what a parser does from a placed stage, whether the source text
is well-formed or not: it goes on to a later stage that is placed again, everything that it reports
stands in the text, and if it gives a result, the result is related to the stage after it.
-/

namespace CirText.Parser

variable {α β σ : Type} {text : List Char} {before : Stage}

/-- Whether an input is a text that is read with the adapters by default. -/
structure Input.Plain (input : Input) (text : List Char) : Prop where
  source : input.source = text
  structural : input.adapters = .structural

/-- A parser that goes on from a placed stage to a placed stage, and the results of which are
related to the stage after it. -/
structure Sees (text : List Char) (before : Stage) (parser : Parser α) (finds : α → Stage → Prop) :
    Prop where
  /-- Every run leads on. -/
  leads : ∀ (input : Input) (state : State), input.Plain text → state.stage = before →
    state.Placed text → (parser input state).2.Placed text ∧
      before.Onward (parser input state).2.stage
  /-- What is given is found up to the stage after it. -/
  finds : ∀ (input : Input) (state : State) a, input.Plain text → state.stage = before →
    state.Placed text → (parser input state).1 = some a → finds a (parser input state).2.stage

namespace Sees

variable {parser : Parser α} {finds : α → Stage → Prop}

/-! ## Sequences and choices -/

theorem mono (h : Sees text before parser finds) {others : α → Stage → Prop}
    (implies : ∀ a after, after.Placed text → before.Onward after → finds a after →
      others a after) : Sees text before parser others where
  leads := h.leads
  finds input state a same stage placed given :=
    implies a _ (h.leads input state same stage placed).1.stage
      (h.leads input state same stage placed).2 (h.finds input state a same stage placed given)

/-- What every run of a parser leaves holds of its results. -/
theorem andTraced (h : Sees text before parser finds) {post : List Reference → α → Prop}
    (traced : Traced parser post) :
    Sees text before parser fun a after => finds a after ∧ ∃ uses, post uses a where
  leads := h.leads
  finds input state a same stage placed given := by
    obtain ⟨_, uses, _, _, holds⟩ := traced input state
    exact ⟨h.finds input state a same stage placed given, uses, holds a given⟩

/-- A parser is looked at from placed stages only. -/
theorem ofPlaced (h : before.Placed text → Sees text before parser finds) :
    Sees text before parser finds where
  leads input state same stage placed :=
    (h (stage ▸ placed.stage)).leads input state same stage placed
  finds input state a same stage placed given :=
    (h (stage ▸ placed.stage)).finds input state a same stage placed given

theorem pure {a : α} (found : finds a before) : Sees text before (Pure.pure a) finds where
  leads := by
    rintro _ state _ rfl placed
    exact ⟨placed, .refl _⟩
  finds := by
    rintro _ state _ _ rfl _ ⟨⟩
    exact found

theorem fail : Sees text before (Parser.fail : Parser α) finds where
  leads := by
    rintro _ state _ rfl placed
    exact ⟨placed, .refl _⟩
  finds := by rintro _ _ _ _ _ _ ⟨⟩

theorem bind {next : α → Parser β} {final : β → Stage → Prop}
    (first : Sees text before parser finds)
    (second : ∀ a middle, middle.Placed text → before.Onward middle → finds a middle →
      Sees text middle (next a) final) :
    Sees text before (parser >>= next) final where
  leads input state same stage placed := by
    have start := first.leads input state same stage placed
    have found := first.finds input state
    rw [bind_run]
    cases run : parser input state with
    | mk outcome middle =>
      rw [run] at start found
      cases outcome with
      | none => exact start
      | some a =>
        have rest := (second a middle.stage start.1.stage start.2
          (found a same stage placed rfl)).leads input middle same rfl start.1
        exact ⟨rest.1, start.2.trans rest.2⟩
  finds input state b same stage placed given := by
    have start := first.leads input state same stage placed
    have found := first.finds input state
    rw [bind_run] at given ⊢
    cases run : parser input state with
    | mk outcome middle =>
      rw [run] at start found given
      cases outcome with
      | none => cases given
      | some a =>
        exact (second a middle.stage start.1.stage start.2
          (found a same stage placed rfl)).finds input middle b same rfl start.1 given

theorem map {f : α → β} {final : β → Stage → Prop}
    (h : Sees text before parser fun a after => final (f a) after) :
    Sees text before (f <$> parser) final where
  leads input state same stage placed := by
    rw [map_run]
    exact h.leads input state same stage placed
  finds input state b same stage placed given := by
    rw [map_run] at given ⊢
    obtain ⟨a, isGiven, rfl⟩ := Option.map_eq_some_iff.1 given
    exact h.finds input state a same stage placed isGiven

/-- What follows a look at the state. -/
theorem look {read : State → α} {next : α → Parser β} {final : β → Stage → Prop}
    (second : ∀ a, Sees text before (next a) final) :
    Sees text before (Parser.look read >>= next) final where
  leads input state := (second (read state)).leads input state
  finds input state := (second (read state)).finds input state

/-- What follows a look at the position. -/
theorem cursor {next : Cursor → Parser β} {final : β → Stage → Prop}
    (second : Sees text before (next before.cursor) final) :
    Sees text before (Parser.cursor >>= next) final where
  leads := by
    rintro input state same rfl placed
    exact second.leads input state same rfl placed
  finds := by
    rintro input state b same rfl placed given
    exact second.finds input state b same rfl placed given

/-- What follows a look at the next token. -/
theorem peek {next : Token → Parser β} {final : β → Stage → Prop}
    (second : Sees text before (next before.cursor.peek) final) :
    Sees text before (Parser.peek >>= next) final where
  leads := by
    rintro input state same rfl placed
    exact second.leads input state same rfl placed
  finds := by
    rintro input state b same rfl placed given
    exact second.finds input state b same rfl placed given

/-- What follows a look at the current scope. -/
theorem scope {next : ScopeId → Parser β} {final : β → Stage → Prop}
    (second : Sees text before (next before.scope) final) :
    Sees text before (Parser.look (·.tracker.scope) >>= next) final where
  leads := by
    rintro input state same rfl placed
    exact second.leads input state same rfl placed
  finds := by
    rintro input state b same rfl placed given
    exact second.finds input state b same rfl placed given

/-- What follows a look at the options. -/
theorem options {next : Options → Parser β} {final : β → Stage → Prop}
    (second : ∀ options, Sees text before (next options) final) :
    Sees text before (Parser.options >>= next) final where
  leads input state := (second input.options).leads input state
  finds input state := (second input.options).finds input state

theorem ite {condition : Prop} [Decidable condition] {other : Parser α}
    (yes : condition → Sees text before parser finds)
    (no : ¬condition → Sees text before other finds) :
    Sees text before (if condition then parser else other) finds := by
  split
  · exact yes ‹_›
  · exact no ‹_›

/-- What follows a parser that is tried. -/
theorem attempt {next : Option α → Parser β} {final : β → Stage → Prop}
    (first : Sees text before parser finds)
    (second : ∀ result middle, middle.Placed text → before.Onward middle →
      (∀ a ∈ result, finds a middle) → Sees text middle (next result) final) :
    Sees text before (Parser.attempt parser >>= next) final where
  leads input state same stage placed := by
    have start := first.leads input state same stage placed
    have rest := (second _ _ start.1.stage start.2 fun a given =>
      first.finds input state a same stage placed given).leads input _ same rfl start.1
    exact ⟨rest.1, start.2.trans rest.2⟩
  finds input state b same stage placed given := by
    have start := first.leads input state same stage placed
    exact (second _ _ start.1.stage start.2 fun a given =>
      first.finds input state a same stage placed given).finds input _ b same rfl start.1 given

theorem naming {construct : String} (h : Sees text before parser finds) :
    Sees text before (Parser.naming construct parser) finds where
  leads input state same stage placed := by
    have run := h.leads input { state with construct } same stage ⟨placed.stage, placed.diagnostics⟩
    exact ⟨⟨run.1.stage, run.1.diagnostics⟩, run.2⟩
  finds input state a same stage placed given :=
    h.finds input { state with construct } a same stage ⟨placed.stage, placed.diagnostics⟩ given

/-! ## Loops -/

/-- What holds after a step of a loop: of what is accumulated if the loop goes on, and of the result
if it ends. -/
def EndsAt (again : σ → Stage → Prop) (finds : β → Stage → Prop) : Step σ β → Stage → Prop
  | .again accumulated, after => again accumulated after
  | .done result, after => finds result after

/-- A loop keeps what each of its steps does. -/
theorem iterate {step : σ → Parser (Step σ β)} {accumulated : σ} {again : σ → Stage → Prop}
    {finds : β → Stage → Prop} (start : again accumulated before)
    (steps : ∀ accumulated stage, before.Onward stage → again accumulated stage →
      Sees text stage (step accumulated) (EndsAt again finds)) :
    Sees text before (Parser.iterate step accumulated) finds := by
  have general : ∀ input accumulated (state : State), input.Plain text →
      before.Onward state.stage →
      again accumulated state.stage → state.Placed text →
        ((Parser.iterate step accumulated input state).2.Placed text ∧
          state.stage.Onward (Parser.iterate step accumulated input state).2.stage) ∧
          ∀ b, (Parser.iterate step accumulated input state).1 = some b →
            finds b (Parser.iterate step accumulated input state).2.stage := by
    intro input accumulated state same
    induction accumulated, state using iterate_induction step input with
    | failed accumulated state final run ran
    | stuck accumulated state further final run fewer ran =>
      intro onward holds placed
      have leads := (steps accumulated state.stage onward holds).leads input state same rfl placed
      rw [run] at leads
      rw [ran]
      exact ⟨leads, by rintro _ ⟨⟩⟩
    | done accumulated state result final run ran =>
      intro onward holds placed
      have once := steps accumulated state.stage onward holds
      have leads := once.leads input state same rfl placed
      have found := once.finds input state (.done result) same rfl placed (by rw [run])
      rw [run] at leads found
      rw [ran]
      refine ⟨leads, ?_⟩
      rintro _ ⟨⟩
      exact found
    | again accumulated state further next run fewer ran ih =>
      intro onward holds placed
      have once := steps accumulated state.stage onward holds
      have leads := once.leads input state same rfl placed
      have found := once.finds input state (.again further) same rfl placed (by rw [run])
      rw [run] at leads found
      rw [ran]
      obtain ⟨⟨placedLast, later⟩, finds⟩ := ih (onward.trans leads.2) found leads.1
      exact ⟨⟨placedLast, leads.2.trans later⟩, finds⟩
  constructor
  · rintro input state same rfl placed
    exact (general input accumulated state same (.refl _) start placed).1
  · rintro input state b same rfl placed given
    exact (general input accumulated state same (.refl _) start placed).2 b given

/-- A loop that collects items keeps what each of its steps does when it adds an item, or none. -/
theorem collect {step : Parser (Option α × Bool)} {holds : List α → Stage → Prop}
    (start : holds [] before)
    (steps : ∀ items stage, before.Onward stage → holds items stage →
      Sees text stage step fun found after => holds (items ++ found.1.toList) after) :
    Sees text before (Parser.collect step) holds := by
  let reversed : List α → Stage → Prop := fun items after => holds items.reverse after
  have started : reversed [] before := start
  suffices loop : Sees text before (Parser.iterate _ []) reversed from loop.map
  apply iterate started
  intro items stage onward sofar
  apply (steps _ stage onward sofar).bind
  rintro ⟨item, goesOn⟩ next _ _ found
  have both : reversed (item.toList ++ items) next := by
    unfold reversed
    rw [List.reverse_append]
    cases item <;> exact found
  cases goesOn
  · exact pure both
  · exact pure both

/-! ## Changes of the state -/

/-- A change of what is not part of the stage. -/
theorem change {update : State → State} (kept : ∀ state, (update state).stage = state.stage)
    (placed : ∀ state, state.Placed text → state.stage = before → (update state).Placed text) :
    Sees text before (Parser.change update) fun _ after => after = before where
  leads := by
    rintro _ state _ rfl known
    refine ⟨placed state known rfl, ?_⟩
    have same : (Parser.change update ⟨text, {}, .structural⟩ state).2.stage = state.stage :=
      kept state
    exact same ▸ .refl _
  finds := by
    rintro _ state _ _ rfl _ _
    exact kept state

theorem skip : Sees text before Parser.skip fun _ after => after = before.next where
  leads := by
    rintro _ state _ rfl placed
    refine ⟨⟨⟨placed.stage.cursor.next, placed.stage.tracker⟩, placed.diagnostics⟩, ⟨1, rfl⟩, ?_⟩
    exact .refl _
  finds := by
    rintro _ state _ _ rfl _ _
    rfl

theorem halt : Sees text before Parser.halt fun _ after => after = before :=
  change (fun _ => rfl) fun _ placed _ => ⟨placed.stage, placed.diagnostics⟩

theorem report {diagnostic : Diagnostic} (on : diagnostic.On text) :
    Sees text before (Parser.report diagnostic) fun _ after => after = before :=
  change (fun _ => rfl) fun _ placed _ => placed.report on

/-- What is reported to be expected stands where the next token does. -/
theorem reportExpected {what : String} :
    Sees text before (Parser.reportExpected what) fun _ after => after = before := by
  apply change
  · intro state
    rfl
  · intro state placed _
    apply placed.report
    exact Diagnostic.on_errorWithFix placed.stage.cursor.peek
      (Span.on_emptyAt placed.stage.cursor.stop) (by rintro _ _ ⟨⟩)

theorem expected {what : String} : Sees text before (Parser.expected what : Parser α) finds :=
  reportExpected.bind fun _ _ _ _ _ => fail

/-- What follows a warning of a deprecated form. -/
theorem warnDeprecated {opcode : Opcode} {message : String} {span : Span} (on : span.On text) :
    Sees text before (Parser.warnDeprecated opcode message span) fun _ after => after = before := by
  apply options
  intro options
  apply ite
  · intro _
    exact report (Diagnostic.on_warning on (by rintro _ _ ⟨⟩))
  · intro _
    exact pure rfl

theorem checkHalted : Sees text before Parser.checkHalted fun _ after => after = before where
  leads := by
    rintro input state _ rfl placed
    unfold Parser.checkHalted
    split
    · exact ⟨placed, .refl _⟩
    · split
      · have here := Span.on_emptyAt placed.stage.cursor.peek.start
        have reported := placed.report
          (@Diagnostic.on_error _ .cancelled _ here (by rintro _ _ ⟨⟩))
        exact ⟨⟨reported.stage, reported.diagnostics⟩, .refl _⟩
      · exact ⟨placed, .refl _⟩
  finds := by
    rintro input state _ _ rfl _ _
    unfold Parser.checkHalted
    split
    · rfl
    · split <;> rfl

/-! ## Tokens -/

theorem satisfying {condition : Token → Bool} {what : String}
    (real : ∀ offset, condition (.endAt offset) = false) :
    Sees text before (Parser.satisfying condition what)
      fun found after => condition found = true ∧ before.Passes found after := by
  apply peek
  apply ite
  · intro holds
    apply skip.bind
    rintro _ _ _ _ rfl
    exact pure ((Stage.passes_iff condition real).1 ⟨holds, rfl, rfl⟩)
  · intro _
    exact expected

theorem token {kind : TokenKind} {what : String} (real : kind ≠ .endOfInput) :
    Sees text before (Parser.token kind what)
      fun found after => found.kind = kind ∧ before.Passes found after := by
  have ended : ∀ offset, ((Token.endAt offset).kind == kind) = false :=
    fun _ => beq_false_of_ne real.symm
  exact (satisfying ended).mono fun found _ _ _ read => ⟨eq_of_beq read.1, read.2⟩

theorem punct {mark : Punct} : Sees text before (Parser.punct mark)
    fun found after => found.isPunct mark = true ∧ before.Passes found after :=
  satisfying fun _ => rfl

theorem word {expected : String} : Sees text before (Parser.word expected)
    fun found after => found.isWord expected = true ∧ before.Passes found after :=
  satisfying fun _ => rfl

theorem eat {mark : Punct} : Sees text before (Parser.eat mark) fun _ _ => True := by
  apply cursor
  apply ite
  · intro _
    exact skip.bind fun _ _ _ _ _ => pure trivial
  · intro _
    exact pure trivial

/-! ## Names -/

theorem noteUse {kind : NameKind} {found : Token} (on : found.span.On text) :
    Sees text before (Parser.noteUse kind found) fun used after =>
      used = (before.tracker.refer kind found.name found.span).1 ∧
        after = { before with tracker := (before.tracker.refer kind found.name found.span).2 } where
  leads := by
    rintro _ state _ rfl placed
    exact ⟨⟨⟨placed.stage.cursor, placed.stage.tracker.refer kind _ on⟩, placed.diagnostics⟩,
      ⟨0, rfl⟩, .refer _ _ _ _⟩
  finds := by
    rintro _ state _ _ rfl _ ⟨⟩
    exact ⟨rfl, rfl⟩

theorem refer {kind : NameKind} :
    Sees text before (Parser.refer kind) (before.Refers kind) := by
  apply ofPlaced
  intro placed
  apply (token (Means.nameToken_ne kind)).bind
  rintro found middle _ _ ⟨named, passes⟩
  apply (noteUse (placed.passes passes).1.span).mono
  obtain ⟨rest, rfl⟩ := passes
  rintro used after _ _ ⟨rfl, rfl⟩
  exact ⟨found, named, rest, rfl, rfl⟩

theorem span_define (tracker : Tracker) (kind : NameKind) (name : String) (span : Span) :
    (tracker.define kind name span).1.span = span := by
  unfold Tracker.define
  split <;> rfl

/-- Unless it is a symbol, a definition belongs to the current scope, whether it is recorded or
clashes with an earlier one. -/
theorem scope_define (tracker : Tracker) {kind : NameKind} (notSymbol : kind ≠ .symbol)
    (name : String) (span : Span) : (tracker.define kind name span).1.scope = tracker.scope := by
  unfold Tracker.define
  split
  · rfl
  · cases kind with
    | value => rfl
    | label => rfl
    | symbol => exact absurd rfl notSymbol

theorem define {kind : NameKind} {found : Token} (on : found.span.On text) :
    Sees text before (Parser.define kind found) fun defined after =>
      defined.span = found.span ∧ (kind ≠ .symbol → defined.scope = before.scope) ∧
        after.cursor = before.cursor where
  leads := by
    rintro _ state _ rfl placed
    have defined := placed.stage.tracker.define kind found.name on
    have here : (state.tracker.define kind found.name found.span).1.span.On text := by
      rw [span_define]
      exact on
    refine ⟨⟨⟨placed.stage.cursor, defined.1⟩, ?_⟩, ⟨0, rfl⟩,
      .define placed.stage.tracker.fits _ _ _⟩
    unfold Parser.define
    cases clash : (state.tracker.define kind found.name found.span).2.1 with
    | none =>
      simp only [clash]
      exact placed.diagnostics
    | some earlier =>
      simp only [clash]
      have duplicate : (Diagnostic.ofDuplicate
          (state.tracker.define kind found.name found.span).1 earlier).On text := by
        refine ⟨here, ?_, ?_⟩
        · rintro _ ⟨⟩
          exact here
        · rintro _ _ ⟨⟩
          exact defined.2 earlier clash
      exact (placed.report duplicate).diagnostics
  finds := by
    rintro _ state _ _ rfl _ ⟨⟩
    exact ⟨span_define _ _ _ _, fun notSymbol => scope_define _ notSymbol _ _, rfl⟩

/-- Several names are defined one after the other. -/
theorem mapM_define {kind : NameKind} (notSymbol : kind ≠ .symbol) {names : List Token}
    (on : ∀ name ∈ names, name.span.On text) :
    Sees text before (names.mapM (Parser.define kind)) fun defined after =>
      (∀ definition ∈ defined, definition.scope = before.scope ∧
        ∃ name ∈ names, definition.span = name.span) ∧ after.cursor = before.cursor := by
  let holds : Definition → Prop := fun definition =>
    definition.scope = before.scope ∧ ∃ name ∈ names, definition.span = name.span
  suffices loop : ∀ (rest : List Token) done (middle : Stage), (∀ name ∈ rest, name ∈ names) →
      (∀ definition ∈ done, holds definition) → middle.scope = before.scope →
      middle.cursor = before.cursor →
      Sees text middle (List.mapM.loop (Parser.define kind) rest done)
        fun defined after => (∀ definition ∈ defined, holds definition) ∧
          after.cursor = before.cursor from
    loop names [] before (fun _ => id) (by rintro _ ⟨⟩) rfl rfl
  intro rest
  induction rest with
  | nil =>
    intro done middle _ sofar _ here
    exact pure ⟨fun definition member => sofar definition (List.mem_reverse.1 member), here⟩
  | cons name rest ih =>
    intro done middle inside sofar scope here
    apply (define (on name (inside name List.mem_cons_self))).bind
    intro first next _ onward found
    apply ih (first :: done) next fun other member => inside other (List.mem_cons_of_mem _ member)
    · intro definition member
      rcases List.mem_cons.1 member with rfl | earlier
      · exact ⟨(found.2.1 notSymbol).trans scope, name, inside name List.mem_cons_self, found.1⟩
      · exact sofar definition earlier
    · exact onward.scope_eq.trans scope
    · exact found.2.2.trans here

end Sees

/-- The stage in a scope that has just been opened. -/
def Stage.opened (stage : Stage) : Stage :=
  { stage with tracker := stage.tracker.push }

/-- The stage after the innermost scope has been closed. -/
def Stage.closed (stage : Stage) : Stage :=
  { stage with tracker := stage.tracker.pop.1 }

/-- A scope that is opened and closed again is a new one inside the current one. -/
structure Stage.Encloses (before inside : Stage) : Prop where
  scope : inside.scope = before.size
  size : before.size < inside.size
  parent : (inside.tracker.table.scope before.size).parent = some before.scope

namespace Sees

variable {parser : Parser α} {finds : α → Stage → Prop}

/-- A parser in a scope of its own. -/
theorem inScope {final : α → Stage → Prop} (h : Sees text before.opened parser finds)
    (closes : ∀ a inside, before.opened.Onward inside → before.Encloses inside → finds a inside →
      final a inside.closed) :
    Sees text before (Parser.inScope parser) final where
  leads := by
    rintro input state same rfl placed
    have start : ({ state with tracker := state.tracker.push } : State).Placed text :=
      ⟨⟨placed.stage.cursor, placed.stage.tracker.push⟩, placed.diagnostics⟩
    have run := h.leads input { state with tracker := state.tracker.push } same rfl start
    have popped := run.1.stage.tracker.pop
    refine ⟨⟨⟨run.1.stage.cursor, popped.1⟩, ?_⟩, run.2.moved,
      (Tracker.Grown.inScope run.2.grown).1⟩
    apply (run.1.append _).diagnostics
    intro diagnostic member
    obtain ⟨verdict, judged, rfl⟩ := List.mem_map.1 member
    exact Diagnostic.on_error (popped.2 verdict judged) (by rintro _ _ ⟨⟩)
  finds := by
    rintro input state a same rfl placed given
    have start : ({ state with tracker := state.tracker.push } : State).Placed text :=
      ⟨⟨placed.stage.cursor, placed.stage.tracker.push⟩, placed.diagnostics⟩
    have run := h.leads input { state with tracker := state.tracker.push } same rfl start
    have found := h.finds input { state with tracker := state.tracker.push } a same rfl start given
    obtain ⟨_, scope, size, parent⟩ := Tracker.Grown.inScope run.2.grown
    rw [scope] at size parent
    exact closes a _ run.2 ⟨scope, size, parent⟩ found

/-! ## Types and attributes -/

theorem embed {language : Sublanguage} {adapter : Adapters → Adapter α}
    (gives : ∀ a cursor, (adapter .structural).read text before.cursor = .ok (a, cursor) →
      finds a { before with cursor })
    (errors : ∀ error, (adapter .structural).read text before.cursor = .error error →
      error.span.On text) :
    Sees text before (Parser.embed language adapter) finds where
  leads := by
    rintro input state ⟨rfl, structural⟩ rfl placed
    rw [Parser.embed, structural]
    cases outcome : (adapter .structural).read input.source state.cursor with
    | ok found =>
      obtain ⟨a, cursor⟩ := found
      obtain ⟨count, _, moved⟩ := (adapter .structural).advances outcome
      refine ⟨⟨⟨?_, placed.stage.tracker⟩, placed.diagnostics⟩, ⟨count + 1, moved⟩, .refl _⟩
      exact moved ▸ placed.stage.cursor.advance (count + 1)
    | error error =>
      have reported := placed.report
        (@Diagnostic.on_error _ (.sublanguage error) _ (errors error outcome) (by rintro _ _ ⟨⟩))
      exact ⟨⟨reported.stage, reported.diagnostics⟩, .refl _⟩
  finds := by
    rintro input state a ⟨rfl, structural⟩ rfl placed given
    rw [Parser.embed, structural] at given ⊢
    cases outcome : (adapter .structural).read input.source state.cursor with
    | ok found =>
      obtain ⟨_, cursor⟩ := found
      simp only [outcome] at given ⊢
      cases given
      exact gives a cursor outcome
    | error error =>
      simp only [outcome] at given
      cases given

/-- What a reader leaves is the text from there on. -/
theorem advanceTo_rest {cursor : Cursor} {rest : List Token} (inside : rest <:+ cursor.rest) :
    (cursor.advanceTo rest).rest = rest := by
  rw [Cursor.advanceTo, Cursor.rest_advance]
  exact (List.suffix_iff_eq_drop.1 inside).symm

/-- What a reader of a sublanguage has read is the text at its place. -/
theorem readSpan (placed : before.Placed text) {rest : List Token}
    (inside : rest <:+ before.cursor.rest) (fewer : rest.length < before.cursor.rest.length) :
    Stage.Covers text before { before with cursor := before.cursor.advanceTo rest }
        (before.cursor.spanBetween (before.cursor.advanceTo rest)) ∧
      (before.cursor.advanceTo rest).rest.length < before.rest.length := by
  have left : (before.cursor.advanceTo rest).rest.length < before.rest.length := by
    rw [advanceTo_rest inside]
    exact fewer
  have stretch : Stage.Stretch text before
      { before with cursor := before.cursor.advanceTo rest } :=
    ⟨placed, ⟨placed.cursor.advance _, placed.tracker⟩, ⟨_, rfl⟩, .refl _⟩
  exact ⟨stretch.covers left, left⟩

/-- The place where a reader of a sublanguage has failed stands in the text. -/
theorem spanAt_on {cursor : Cursor} (placed : cursor.Placed text) {rest : List Token}
    (inside : rest <:+ cursor.rest) : (cursor.spanAt rest).On text := by
  cases rest with
  | nil => exact Span.on_emptyAt (placed.size ▸ Text.boundary_size text)
  | cons token rest => exact (placed.tokens token (inside.mem List.mem_cons_self)).span

theorem type : Sees text before Parser.type fun written after =>
    (Stage.Covers text before after written.span ∧
      written.text = String.ofList (written.span.slice text)) ∧
        after.rest.length < before.rest.length := by
  apply ofPlaced
  intro placed
  have leaves := Reader.leaves_type before.cursor.rest
  apply embed
  · intro written cursor read
    rw [Adapters.read_structural_types] at read
    unfold Cursor.readType at read
    cases outcome : Reader.type before.cursor.rest with
    | error mismatch => simp [outcome] at read
    | ok rest =>
      simp only [outcome, Except.ok.injEq, Prod.mk.injEq] at read
      obtain ⟨rfl, rfl⟩ := read
      have here := readSpan placed (Reader.suffix_of_ok leaves outcome) rest.2
      exact ⟨⟨here.1, rfl⟩, here.2⟩
  · intro error read
    rw [Adapters.read_structural_types] at read
    unfold Cursor.readType at read
    cases outcome : Reader.type before.cursor.rest with
    | ok rest => simp [outcome] at read
    | error mismatch =>
      simp only [outcome, Except.error.injEq] at read
      rw [← read]
      exact spanAt_on placed.cursor (Reader.suffix_of_error leaves outcome)

theorem attributeOf {form : AttributeForm} : Sees text before (Parser.attributeOf form)
    fun value after => (Stage.Covers text before after value.span ∧
      value.text = String.ofList (value.span.slice text)) ∧
        after.rest.length < before.rest.length := by
  apply ofPlaced
  intro placed
  have leaves := Reader.leaves_ofForm form before.cursor.rest
  apply embed
  · intro written cursor read
    rw [Adapters.read_structural_attributes] at read
    unfold Cursor.readAttribute at read
    cases outcome : Reader.ofForm form before.cursor.rest with
    | error mismatch => simp [outcome] at read
    | ok rest =>
      simp only [outcome, Except.ok.injEq, Prod.mk.injEq] at read
      obtain ⟨rfl, rfl⟩ := read
      have here := readSpan placed (Reader.suffix_of_ok leaves outcome) rest.2
      exact ⟨⟨here.1, rfl⟩, here.2⟩
  · intro error read
    rw [Adapters.read_structural_attributes] at read
    unfold Cursor.readAttribute at read
    cases outcome : Reader.ofForm form before.cursor.rest with
    | ok rest => simp [outcome] at read
    | error mismatch =>
      simp only [outcome, Except.error.injEq] at read
      rw [← read]
      exact spanAt_on placed.cursor (Reader.suffix_of_error leaves outcome)

end Sees

end CirText.Parser
