import CirText.Proofs.Parser.Truncation

/-!
# What a nesting limit does to a run

A source unit is read twice, with a limit on how deep regions nest and with a greater one. Both runs
go alike up to the first region that is too deep for the smaller limit. There the shallow run
reports this and comes to an early end, from which nothing is reported any more that regions nest
too deep.

`LimitedWith` says so of two parsers that differ in the regions that they can read. It is closed
under everything parsers are built from.
-/

namespace CirText

/-- What is expected where regions nest deeper than a limit. -/
def depthText (limit : Nat) : String :=
  "at most " ++ toString limit ++ " nested regions"

/-- Whether a diagnostic says that regions nest deeper than a limit. -/
def Diagnostic.isTooDeep (limit : Nat) (diagnostic : Diagnostic) : Bool :=
  match diagnostic.kind with
  | .malformed _ expected _ | .ambiguousForm _ expected _ => expected == depthText limit
  | _ => false

/-- Whether something other than a limit is named as expected. -/
def namesNoLimit (what : String) : Bool :=
  what.toList.take 2 != ['a', 't']

theorem ne_depthText {what : String} (other : namesNoLimit what = true) (limit : Nat) :
    what ≠ depthText limit := by
  rintro rfl
  have start : (depthText limit).toList.take 2 = ['a', 't'] := by
    simp [depthText]
  rw [namesNoLimit, start] at other
  cases other

theorem namesNoLimit_quoted (text : String) : namesNoLimit ("`" ++ text ++ "`") = true := by
  simp [namesNoLimit]

namespace Parser

variable {α β σ : Type}

/-- The same input with another limit. -/
def Input.limited (input : Input) (limit : Nat) : Input :=
  { input with options := { input.options with maxDepth := limit } }

/-- The number of reports that regions nest deeper than a limit. -/
def State.excesses (limit : Nat) (state : State) : Nat :=
  state.diagnostics.items.toList.countP (·.isTooDeep limit)

/-- A run that stays halted if it was, and has not reported that regions nest too deep. -/
structure Rests (input : Input) (before after : State) : Prop where
  halted : before.halted = true → after.halted = true
  counted : after.excesses input.options.maxDepth = before.excesses input.options.maxDepth

/-- A run that has come to an early end because regions nest too deep. -/
structure Exceeds (input : Input) (before after : State) : Prop where
  halted : after.halted = true
  counted : after.excesses input.options.maxDepth = before.excesses input.options.maxDepth + 1

theorem Rests.refl (input : Input) (state : State) : Rests input state state :=
  ⟨id, rfl⟩

theorem Rests.trans {input : Input} {first middle last : State} (left : Rests input first middle)
    (right : Rests input middle last) : Rests input first last :=
  ⟨fun halted => right.halted (left.halted halted), right.counted.trans left.counted⟩

theorem Rests.exceeds {input : Input} {first middle last : State} (left : Rests input first middle)
    (right : Exceeds input middle last) : Exceeds input first last :=
  ⟨right.halted, right.counted.trans (congrArg (· + 1) left.counted)⟩

theorem Exceeds.rests {input : Input} {first middle last : State}
    (left : Exceeds input first middle) (right : Rests input middle last) :
    Exceeds input first last :=
  ⟨right.halted left.halted, right.counted.trans left.counted⟩

/-- Two parsers of which the second one reads deeper regions. Either both give the same, or the
first one exceeds its limit, and then its result is related to that of the second one. -/
structure LimitedWith (gives : Option α → Option α → Prop) (shallow deep : Parser α) : Prop where
  /-- Nothing is reported any more on how deep regions nest once the run is halted. -/
  halts : ∀ input state, state.halted = true → Rests input state (shallow input state).2
  /-- The two runs from one state. -/
  runs : ∀ (input : Input) limit state,
    shallow input state = deep (input.limited limit) state ∧
        Rests input state (shallow input state).2 ∨
      gives (shallow input state).1 (deep (input.limited limit) state).1 ∧
        Exceeds input state (shallow input state).2

/-- Two parsers of which the first one fails where it exceeds its limit. -/
abbrev Limited (shallow deep : Parser α) : Prop :=
  LimitedWith (fun cut _ => cut = none) shallow deep

namespace LimitedWith

variable {gives : Option α → Option α → Prop} {shallow deep : Parser α}

theorem mono {others : Option α → Option α → Prop} (h : LimitedWith gives shallow deep)
    (implies : ∀ cut full, gives cut full → others cut full) : LimitedWith others shallow deep where
  halts := h.halts
  runs input limit state := (h.runs input limit state).imp id (And.imp_left (implies _ _))

/-- A parser that does not look at the limit. -/
theorem quiet {parser : Parser α}
    (rests : ∀ input state, Rests input state (parser input state).2)
    (same : ∀ (input : Input) limit state, parser input state =
      parser (input.limited limit) state) :
    LimitedWith gives parser parser where
  halts input state _ := rests input state
  runs input limit state := .inl ⟨same input limit state, rests input state⟩

theorem pure {a : α} : LimitedWith gives (Pure.pure a) (Pure.pure a) :=
  quiet (fun _ _ => .refl _ _) fun _ _ _ => rfl

theorem fail : LimitedWith gives (Parser.fail : Parser α) Parser.fail :=
  quiet (fun _ _ => .refl _ _) fun _ _ _ => rfl

theorem halts_bind {others : Option β → Option β → Prop} {next further : α → Parser β}
    (first : LimitedWith gives shallow deep)
    (second : ∀ a, LimitedWith others (next a) (further a)) (input : Input) (state : State)
    (halted : state.halted = true) : Rests input state ((shallow >>= next) input state).2 := by
  have start := first.halts input state halted
  rw [bind_run]
  cases run : shallow input state with
  | mk outcome middle =>
    rw [run] at start
    cases outcome with
    | none => exact start
    | some a => exact start.trans ((second a).halts input middle (start.halted halted))

/-- Up to the point at which the first part exceeds the limit both runs go alike, and so they do in
the second part if the first one does not exceed it. -/
theorem bindOf {others : Option β → Option β → Prop} {next further : α → Parser β}
    (first : LimitedWith gives shallow deep)
    (second : ∀ a, LimitedWith others (next a) (further a))
    (fails : ∀ cut full, gives cut full → cut = none ∧ ∀ full, others none full) :
    LimitedWith others (shallow >>= next) (deep >>= further) where
  halts := halts_bind first second
  runs input limit state := by
    rcases first.runs input limit state with ⟨same, rests⟩ | ⟨given, exceeds⟩
    · rw [bind_run, bind_run, ← same]
      cases run : shallow input state with
      | mk outcome middle =>
        rw [run] at rests
        cases outcome with
        | none => exact .inl ⟨rfl, rests⟩
        | some a =>
          rcases (second a).runs input limit middle with ⟨alike, later⟩ | ⟨given, later⟩
          · exact .inl ⟨alike, rests.trans later⟩
          · exact .inr ⟨given, rests.exceeds later⟩
    · obtain ⟨failed, related⟩ := fails _ _ given
      rw [bind_run]
      cases run : shallow input state with
      | mk outcome cut =>
        rw [run] at failed exceeds
        change outcome = none at failed
        subst failed
        exact .inr ⟨related _, exceeds⟩

theorem bindWith {others : Option β → Option β → Prop} {next further : α → Parser β}
    (first : Limited shallow deep) (second : ∀ a, LimitedWith others (next a) (further a))
    (fails : ∀ full, others none full) :
    LimitedWith others (shallow >>= next) (deep >>= further) :=
  bindOf first second fun _ _ failed => ⟨failed, fails⟩

/-- A first part that never exceeds the limit. -/
theorem bindSteady {others : Option β → Option β → Prop} {next further : α → Parser β}
    (first : LimitedWith (fun _ _ => False) shallow deep)
    (second : ∀ a, LimitedWith others (next a) (further a)) :
    LimitedWith others (shallow >>= next) (deep >>= further) :=
  bindOf first second fun _ _ never => never.elim

theorem bind {next further : α → Parser β} (first : Limited shallow deep)
    (second : ∀ a, Limited (next a) (further a)) : Limited (shallow >>= next) (deep >>= further) :=
  bindWith first second fun _ => rfl

theorem map {f : α → β} (h : Limited shallow deep) : Limited (f <$> shallow) (f <$> deep) :=
  h.bind fun _ => pure

theorem mapWith {others : Option β → Option β → Prop} {f : α → β}
    (h : LimitedWith gives shallow deep)
    (implies : ∀ cut full, gives cut full → others (cut.map f) (full.map f)) :
    LimitedWith others (f <$> shallow) (f <$> deep) where
  halts input state halted := by
    rw [map_run]
    exact h.halts input state halted
  runs input limit state := by
    rw [map_run, map_run]
    rcases h.runs input limit state with ⟨same, rests⟩ | ⟨given, exceeds⟩
    · rw [← same]
      exact .inl ⟨rfl, rests⟩
    · exact .inr ⟨implies _ _ given, exceeds⟩

/-- A part that exceeds the limit, after which parsing goes on although nothing is read any more. -/
theorem recover {others : Option β → Option β → Prop} {next further : Option α → Parser β}
    {given : Option β} (first : Limited shallow deep)
    (second : ∀ result, LimitedWith others (next result) (further result))
    (ends : ∀ input state, state.halted = true → (next none input state).1 = given)
    (related : ∀ full, others given full) :
    LimitedWith others (Parser.attempt shallow >>= next) (Parser.attempt deep >>= further) where
  halts input state halted :=
    have start := first.halts input state halted
    start.trans ((second _).halts input _ (start.halted halted))
  runs input limit state := by
    rw [attempt_bind_run, attempt_bind_run]
    rcases first.runs input limit state with ⟨same, rests⟩ | ⟨failed, exceeds⟩
    · rw [← same]
      rcases (second (shallow input state).1).runs input limit (shallow input state).2 with
        ⟨alike, later⟩ | ⟨related, later⟩
      · exact .inl ⟨alike, rests.trans later⟩
      · exact .inr ⟨related, rests.exceeds later⟩
    · rw [failed, ends input _ exceeds.halted]
      exact .inr ⟨related _, exceeds.rests ((second none).halts input _ exceeds.halted)⟩

/-- What follows a part that is read in any case. -/
theorem attempt {parser : Parser α} (h : LimitedWith (fun _ _ => False) parser parser)
    {others : Option (Option α) → Option (Option α) → Prop} :
    LimitedWith others (Parser.attempt parser) (Parser.attempt parser) where
  halts := h.halts
  runs input limit state := by
    rcases h.runs input limit state with ⟨same, rests⟩ | ⟨never, _⟩
    · refine .inl ⟨?_, rests⟩
      rw [Parser.attempt, Parser.attempt, ← same]
    · exact never.elim

/-- A last part that gives something in any case. -/
theorem thenClose {others : Option β → Option β → Prop} {next : α → Parser β} {f : α → β}
    (first : LimitedWith gives shallow deep)
    (second : ∀ a, LimitedWith (fun _ _ => False) (next a) (next a))
    (always : ∀ a input state, (next a input state).1 = some (f a))
    (implies : ∀ cut full, gives cut full → others (cut.map f) (full.map f)) :
    LimitedWith others (shallow >>= next) (deep >>= next) where
  halts := halts_bind first second
  runs input limit state := by
    have result : ∀ (parser : Parser α) (input : Input),
        ((parser >>= next) input state).1 = (parser input state).1.map f := by
      intro parser input
      rw [bind_run]
      cases parser input state with
      | mk outcome middle =>
        cases outcome with
        | none => rfl
        | some a => exact always a input middle
    rcases first.runs input limit state with ⟨same, rests⟩ | ⟨given, exceeds⟩
    · rw [bind_run, bind_run, ← same]
      cases run : shallow input state with
      | mk outcome middle =>
        rw [run] at rests
        cases outcome with
        | none => exact .inl ⟨rfl, rests⟩
        | some a =>
          rcases (second a).runs input limit middle with ⟨alike, later⟩ | ⟨never, _⟩
          · exact .inl ⟨alike, rests.trans later⟩
          · exact never.elim
    · rw [result, result]
      refine .inr ⟨implies _ _ given, ?_⟩
      rw [bind_run]
      cases run : shallow input state with
      | mk outcome middle =>
        rw [run] at exceeds
        cases outcome with
        | none => exact exceeds
        | some a => exact exceeds.rests ((second a).halts input middle exceeds.halted)

theorem look {read : State → α} {others : Option β → Option β → Prop} {next further : α → Parser β}
    (second : ∀ a, LimitedWith others (next a) (further a)) :
    LimitedWith others (Parser.look read >>= next) (Parser.look read >>= further) where
  halts input state halted := (second (read state)).halts input state halted
  runs input limit state := (second (read state)).runs input limit state

theorem ite {condition : Prop} [Decidable condition] {other further : Parser α}
    (yes : LimitedWith gives shallow deep) (no : LimitedWith gives other further) :
    LimitedWith gives (if condition then shallow else other)
      (if condition then deep else further) := by
  split
  · exact yes
  · exact no

theorem naming {construct : String} (h : Limited shallow deep) :
    Limited (Parser.naming construct shallow) (Parser.naming construct deep) where
  halts input state halted :=
    have inside := h.halts input { state with construct } halted
    ⟨inside.halted, inside.counted⟩
  runs input limit state := by
    rcases h.runs input limit { state with construct } with ⟨same, rests⟩ | ⟨failed, exceeds⟩
    · refine .inl ⟨?_, ⟨rests.halted, rests.counted⟩⟩
      rw [Parser.naming, Parser.naming, ← same]
    · exact .inr ⟨failed, exceeds.halted, exceeds.counted⟩

/-- No verdict on a name is about how deep regions nest. -/
theorem countP_ofUnresolved (limit : Nat) (verdicts : List Unresolved) :
    (verdicts.map Diagnostic.ofUnresolved).countP (·.isTooDeep limit) = 0 := by
  apply List.countP_eq_zero.2
  intro diagnostic member
  obtain ⟨verdict, _, rfl⟩ := List.mem_map.1 member
  exact Bool.false_ne_true

theorem inScope (h : Limited shallow deep) :
    Limited (Parser.inScope shallow) (Parser.inScope deep) := by
  have closing : ∀ (parser : Parser α) (input : Input) (limit : Nat) (state : State),
      (Parser.inScope parser input state).2.excesses limit =
        (parser input { state with tracker := state.tracker.push }).2.excesses limit := by
    intro parser input limit state
    simp only [State.excesses, Parser.inScope, Diagnostics.append, Array.toList_appendList,
      List.countP_append, countP_ofUnresolved, Nat.add_zero]
  constructor
  · intro input state halted
    have inside := h.halts input { state with tracker := state.tracker.push } halted
    exact ⟨inside.halted, (closing _ _ _ _).trans inside.counted⟩
  · intro input limit state
    rcases h.runs input limit { state with tracker := state.tracker.push } with
      ⟨same, rests⟩ | ⟨failed, exceeds⟩
    · refine .inl ⟨?_, ⟨rests.halted, (closing _ _ _ _).trans rests.counted⟩⟩
      rw [Parser.inScope, Parser.inScope, ← same]
    · exact .inr ⟨failed, exceeds.halted, (closing _ _ _ _).trans exceeds.counted⟩

/-! ## Loops -/

/-- A loop goes alike in both runs up to the step that exceeds the limit. -/
theorem iterateWith {step further : σ → Parser (Step σ β)} {stops : σ → Option β}
    {gives : Option β → Option β → Prop} {accumulated : σ}
    (steps : ∀ accumulated, LimitedWith (fun cut _ => Ends step cut (stops accumulated))
      (step accumulated) (further accumulated))
    (related : ∀ accumulated input state,
      gives (stops accumulated) (Parser.iterate further accumulated input state).1) :
    LimitedWith gives (Parser.iterate step accumulated) (Parser.iterate further accumulated) where
  halts input state halted := by
    let holds : State → Prop := fun later => later.halted = true ∧ Rests input state later
    have keeps : ∀ accumulated middle, holds middle → holds (step accumulated input middle).2 :=
      fun accumulated middle ⟨isHalted, rests⟩ =>
        have next := (steps accumulated).halts input middle isHalted
        ⟨next.halted isHalted, rests.trans next⟩
    exact (iterate_keeps keeps (keeps accumulated state ⟨halted, .refl _ _⟩)).2
  runs input limit state := by
    induction accumulated, state using iterate_induction step input with
    | failed accumulated state final run ran | done accumulated state result final run ran =>
      rcases (steps accumulated).runs input limit state with ⟨same, rests⟩ | ⟨ends, exceeds⟩
      · rw [run] at same rests
        rw [ran, iterate_run, ← same]
        exact .inl ⟨rfl, rests⟩
      · rw [iterate_ends ends exceeds.halted]
        exact .inr ⟨related accumulated (input.limited limit) state, exceeds⟩
    | stuck accumulated state onward final run fewer ran =>
      rcases (steps accumulated).runs input limit state with ⟨same, rests⟩ | ⟨ends, exceeds⟩
      · rw [run] at same rests
        rw [ran, iterate_run, ← same]
        exact .inl ⟨(if_neg fewer).symm, rests⟩
      · rw [iterate_ends ends exceeds.halted]
        exact .inr ⟨related accumulated (input.limited limit) state, exceeds⟩
    | again accumulated state onward next run fewer ran ih =>
      rcases (steps accumulated).runs input limit state with ⟨same, rests⟩ | ⟨ends, exceeds⟩
      · have unrolled : Parser.iterate further accumulated (input.limited limit) state =
            Parser.iterate further onward (input.limited limit) next := by
          rw [iterate_run, ← same, run]
          exact if_pos fewer
        rw [run] at rests
        rw [ran, unrolled]
        rcases ih with ⟨alike, later⟩ | ⟨given, later⟩
        · exact .inl ⟨alike, rests.trans later⟩
        · exact .inr ⟨given, rests.exceeds later⟩
      · rw [iterate_ends ends exceeds.halted]
        exact .inr ⟨related accumulated (input.limited limit) state, exceeds⟩

/-- A loop that fails when one of its steps exceeds the limit. -/
theorem iterate {step further : σ → Parser (Step σ β)} {accumulated : σ}
    (steps : ∀ accumulated, LimitedWith (fun cut _ => Ends step cut none) (step accumulated)
      (further accumulated)) :
    Limited (Parser.iterate step accumulated) (Parser.iterate further accumulated) :=
  iterateWith steps fun _ _ _ => rfl

/-- A loop whose steps all fail when they exceed the limit. -/
theorem loop {step further : σ → Parser (Step σ β)} {accumulated : σ}
    (steps : ∀ accumulated, Limited (step accumulated) (further accumulated)) :
    Limited (Parser.iterate step accumulated) (Parser.iterate further accumulated) := by
  apply iterate
  intro accumulated
  apply (steps accumulated).mono
  rintro cut full rfl
  exact .fails

theorem collect {step further : Parser (Option α × Bool)} (h : Limited step further) :
    Limited (Parser.collect step) (Parser.collect further) := by
  apply map
  apply loop
  intro items
  apply h.bind
  rintro ⟨item, goesOn⟩
  exact pure

/-! ## Tokens, names and reports -/

/-- A change of anything but the diagnostics that does not undo an early end. -/
theorem change {gives : Option Unit → Option Unit → Prop} {update : State → State}
    (halted : ∀ state, state.halted = true → (update state).halted = true)
    (diagnostics : ∀ state, (update state).diagnostics = state.diagnostics) :
    LimitedWith gives (Parser.change update) (Parser.change update) :=
  quiet (fun _ state => ⟨halted state, by
    simp only [State.excesses, Parser.change, diagnostics state]⟩) fun _ _ _ => rfl

theorem rests_push {input : Input} {before after : State} {diagnostic : Diagnostic}
    (diagnostics : after.diagnostics = before.diagnostics.push diagnostic)
    (halted : after.halted = before.halted)
    (other : ∀ limit, diagnostic.isTooDeep limit = false) : Rests input before after :=
  ⟨fun isHalted => halted.trans isHalted, by
    simp [State.excesses, diagnostics, Diagnostics.push, other]⟩

theorem report {gives : Option Unit → Option Unit → Prop} {diagnostic : Diagnostic}
    (other : ∀ limit, diagnostic.isTooDeep limit = false) :
    LimitedWith gives (Parser.report diagnostic) (Parser.report diagnostic) :=
  quiet (fun _ _ => rests_push rfl rfl other) fun _ _ _ => rfl

theorem isTooDeep_malformed {construct what found : String} {span fix : Span}
    (other : namesNoLimit what = true) (limit : Nat) :
    (Diagnostic.errorWithFix (.malformed construct what found) span fix).isTooDeep limit = false :=
  beq_eq_false_iff_ne.2 (ne_depthText other limit)

variable {unitGives : Option Unit → Option Unit → Prop}

theorem skip : LimitedWith unitGives Parser.skip Parser.skip :=
  change (fun _ => id) fun _ => rfl

theorem reportExpected {what : String} (other : namesNoLimit what = true) :
    LimitedWith unitGives (Parser.reportExpected what) (Parser.reportExpected what) :=
  quiet (fun _ _ => rests_push rfl rfl (isTooDeep_malformed other)) fun _ _ _ => rfl

theorem expected {what : String} (other : namesNoLimit what = true) :
    LimitedWith gives (Parser.expected what : Parser α) (Parser.expected what) :=
  bindSteady (reportExpected other) fun _ => fail

theorem satisfying {gives : Option Token → Option Token → Prop} {condition : Token → Bool}
    {what : String} (other : namesNoLimit what = true) :
    LimitedWith gives (Parser.satisfying condition what) (Parser.satisfying condition what) :=
  look fun _ => ite (bindSteady skip fun _ => pure) (expected other)

theorem token {gives : Option Token → Option Token → Prop} {kind : TokenKind} {what : String}
    (other : namesNoLimit what = true) :
    LimitedWith gives (Parser.token kind what) (Parser.token kind what) :=
  satisfying other

theorem punct {gives : Option Token → Option Token → Prop} (mark : Punct) :
    LimitedWith gives (Parser.punct mark) (Parser.punct mark) :=
  satisfying (namesNoLimit_quoted _)

theorem word {gives : Option Token → Option Token → Prop} (text : String) :
    LimitedWith gives (Parser.word text) (Parser.word text) :=
  satisfying (namesNoLimit_quoted _)

theorem eat {gives : Option Bool → Option Bool → Prop} (mark : Punct) :
    LimitedWith gives (Parser.eat mark) (Parser.eat mark) :=
  look fun _ => ite (bindSteady skip fun _ => pure) pure

theorem noteUse {gives : Option Reference → Option Reference → Prop} (kind : NameKind)
    (found : Token) : LimitedWith gives (Parser.noteUse kind found) (Parser.noteUse kind found) :=
  quiet (fun _ _ => ⟨id, rfl⟩) fun _ _ _ => rfl

theorem refer {gives : Option Reference → Option Reference → Prop} (kind : NameKind) :
    LimitedWith gives (Parser.refer kind) (Parser.refer kind) := by
  have other : namesNoLimit (missingName kind) = true := by
    cases kind <;> simp [namesNoLimit, missingName]
  exact bindSteady (token other) fun found => noteUse kind found

theorem define {gives : Option Definition → Option Definition → Prop} (kind : NameKind)
    (found : Token) : LimitedWith gives (Parser.define kind found) (Parser.define kind found) := by
  apply quiet
  · intro input state
    cases clash : (state.tracker.define kind found.name found.span).2.1 with
    | none =>
      refine ⟨id, ?_⟩
      simp [Parser.define, State.excesses, clash]
    | some earlier =>
      let duplicate :=
        Diagnostic.ofDuplicate (state.tracker.define kind found.name found.span).1 earlier
      have pushed : (Parser.define kind found input state).2.diagnostics =
          state.diagnostics.push duplicate := by
        simp only [Parser.define, clash]
        rfl
      exact rests_push pushed rfl fun _ => rfl
  · exact fun _ _ _ => rfl

/-! ## Embedded languages and warnings -/

theorem embed {language : Sublanguage} {adapter : Adapters → Adapter α} :
    LimitedWith gives (Parser.embed language adapter) (Parser.embed language adapter) := by
  apply quiet
  · intro input state
    unfold Parser.embed
    split
    · exact ⟨id, rfl⟩
    · exact rests_push rfl rfl fun _ => rfl
  · exact fun _ _ _ => rfl

theorem attributeOf {gives : Option AttributeText → Option AttributeText → Prop}
    (form : AttributeForm) :
    LimitedWith gives (Parser.attributeOf form) (Parser.attributeOf form) :=
  embed

theorem warnDeprecated (opcode : Opcode) (message : String) (span : Span) :
    LimitedWith unitGives (Parser.warnDeprecated opcode message span)
      (Parser.warnDeprecated opcode message span) := by
  apply quiet
  · intro input state
    rw [warnDeprecated_run]
    split
    · exact rests_push rfl rfl fun _ => rfl
    · exact .refl _ _
  · intro input limit state
    rw [warnDeprecated_run, warnDeprecated_run]
    rfl

/-- Noticing a cancellation is not about how deep regions nest. -/
theorem rests_stopped (input : Input) (state : State) : Rests input state state.stopped :=
  ⟨fun _ => rfl, (@rests_push input state { state.stopped with halted := state.halted } _ rfl rfl
    fun _ => rfl).counted⟩

/-- A part that is skipped once parsing has come to an early end. -/
theorem checkingHalted (h : Limited shallow deep) :
    Limited (unlessHalted shallow) (unlessHalted deep) where
  halts input state halted := by
    rw [unlessHalted_run, if_pos halted]
    exact .refl _ _
  runs input limit state := by
    rw [unlessHalted_run, unlessHalted_run]
    split
    · exact .inl ⟨rfl, .refl _ _⟩
    · change (if input.stops state then (none, state.stopped) else shallow input state) =
          (if input.stops state then (none, state.stopped)
            else deep (input.limited limit) state) ∧ _ ∨ _
      split
      · exact .inl ⟨rfl, rests_stopped input state⟩
      · exact h.runs input limit state

end LimitedWith

end Parser

end CirText
