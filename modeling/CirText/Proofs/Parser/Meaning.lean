import CirText.Proofs.Parser.Trail

/-!
# What parsers read when nothing is wrong

A run that reports no error is simple: no part of it fails, nothing is skipped, and how it goes on
depends only on the position, the scopes and the number for the next operation. Such runs are
described by a relation between the stage at which a parser starts, what it gives and the stage at
which it ends. `Means` says that a relation describes exactly the runs of a parser without errors:
every such run is related, and everything related is the outcome of a run.
-/

namespace CirText

/-! ## Diagnostics without errors -/

/-- Whether no diagnostic is an error. -/
def Diagnostics.Clean (diagnostics : Diagnostics) : Prop :=
  ∀ diagnostic ∈ diagnostics.items.toList, diagnostic.isError = false

theorem Diagnostics.clean_push {diagnostics : Diagnostics} {diagnostic : Diagnostic} :
    (diagnostics.push diagnostic).Clean ↔ diagnostics.Clean ∧ diagnostic.isError = false := by
  simp only [Clean, push, Array.toList_push, List.forall_mem_append, List.forall_mem_singleton]

theorem Diagnostics.clean_append {diagnostics : Diagnostics} {more : List Diagnostic} :
    (diagnostics.append more).Clean ↔
      diagnostics.Clean ∧ ∀ diagnostic ∈ more, diagnostic.isError = false := by
  simp only [Clean, append, Array.toList_appendList, List.forall_mem_append]

/-- The errors among the diagnostics. -/
def Diagnostics.errors (diagnostics : Diagnostics) : List Diagnostic :=
  diagnostics.items.toList.filter Diagnostic.isError

theorem Diagnostics.errors_append (diagnostics : Diagnostics) (more : List Diagnostic) :
    (diagnostics.append more).errors = diagnostics.errors ++ more.filter Diagnostic.isError := by
  simp only [errors, append, Array.toList_appendList, List.filter_append]

namespace Parser

variable {α β σ : Type}

/-! ## Stages -/

/-- What decides how parsing goes on as long as nothing is wrong. -/
structure Stage where
  /-- The position in the tokens. -/
  cursor : Cursor
  /-- The scopes. -/
  tracker : Tracker
  /-- The number for the next operation. -/
  nextId : Nat

/-- The stage of a state. -/
def State.stage (state : State) : Stage :=
  ⟨state.cursor, state.tracker, state.nextId⟩

/-- The tokens still to be read. -/
def Stage.rest (stage : Stage) : List Token :=
  stage.cursor.rest

/-- The stage after the next token. -/
def Stage.next (stage : Stage) : Stage :=
  { stage with cursor := stage.cursor.next }

@[simp]
theorem stage_cursor (state : State) : state.stage.cursor = state.cursor :=
  rfl

@[simp]
theorem stage_tracker (state : State) : state.stage.tracker = state.tracker :=
  rfl

@[simp]
theorem stage_nextId (state : State) : state.stage.nextId = state.nextId :=
  rfl

theorem Stage.rest_next (stage : Stage) : stage.next.rest = stage.rest.drop 1 :=
  stage.cursor.rest_next

/-- Whether a stage is reached from another one by reading tokens. -/
def Stage.Leads (before after : Stage) : Prop :=
  ∃ tokens, before.rest = tokens ++ after.rest

theorem Stage.Leads.refl (stage : Stage) : stage.Leads stage :=
  ⟨[], rfl⟩

theorem Stage.Leads.trans {first middle last : Stage} (left : first.Leads middle)
    (right : middle.Leads last) : first.Leads last := by
  obtain ⟨tokens, left⟩ := left
  obtain ⟨more, right⟩ := right
  exact ⟨tokens ++ more, by rw [left, right, List.append_assoc]⟩

theorem Stage.Leads.length_le {before after : Stage} (leads : before.Leads after) :
    after.rest.length ≤ before.rest.length := by
  obtain ⟨tokens, same⟩ := leads
  rw [same, List.length_append]
  exact Nat.le_add_left _ _

theorem Stage.Leads.suffix {before after : Stage} (leads : before.Leads after) :
    after.rest <:+ before.rest := by
  obtain ⟨tokens, same⟩ := leads
  exact ⟨tokens, same.symm⟩

theorem Stage.leads_next (stage : Stage) : stage.Leads stage.next :=
  ⟨stage.rest.take 1, by rw [Stage.rest_next, List.take_append_drop]⟩

/-! ## Meanings -/

/-- A relation between a source text, the stage before, what is read, and the stage after. -/
abbrev Meaning (α : Type) :=
  List Char → Stage → α → Stage → Prop

/-- Whether a relation describes the runs of a parser that report no error, with the adapters by
default. -/
structure Means (parser : Parser α) (meaning : Meaning α) : Prop where
  /-- A run after which there is no error gives something, and there was no error before it. -/
  sound : ∀ input state, input.adapters = .structural →
    (parser input state).2.diagnostics.Clean → state.diagnostics.Clean ∧ (state.halted = false →
      (parser input state).2.halted = false ∧ ∃ a, (parser input state).1 = some a ∧
        meaning input.source state.stage a (parser input state).2.stage)
  /-- Whatever is related is the outcome of a run, unless it is cancelled. -/
  complete : ∀ input state a after, input.adapters = .structural →
    state.diagnostics.Clean → state.halted = false →
    (∀ types attributes, input.options.cancellation.isSet types attributes = false) →
    meaning input.source state.stage a after →
    ∃ final, parser input state = (some a, final) ∧ final.stage = after ∧
      final.diagnostics.Clean ∧ final.halted = false
  /-- Reading goes forward. -/
  leads : ∀ source before a after, meaning source before a after → before.Leads after

namespace Means

variable {parser : Parser α} {meaning : Meaning α}

theorem congr {other : Meaning α} (h : Means parser meaning)
    (same : ∀ source before a after,
      meaning source before a after ↔ other source before a after) : Means parser other := by
  have equal : meaning = other := by
    funext source before a after
    exact propext (same source before a after)
  exact equal ▸ h

/-! ## Sequences and choices -/

theorem pure (a : α) : Means (Pure.pure a) fun _ before b after => b = a ∧ after = before where
  sound _ _ _ clean := ⟨clean, fun live => ⟨live, a, rfl, rfl, rfl⟩⟩
  complete := by
    rintro _ state _ _ _ clean live _ ⟨rfl, rfl⟩
    exact ⟨state, rfl, rfl, clean, live⟩
  leads := by
    rintro _ _ _ after ⟨_, rfl⟩
    exact .refl after

theorem bind {next : α → Parser β} {then_ : α → Meaning β} (first : Means parser meaning)
    (second : ∀ a, Means (next a) (then_ a)) :
    Means (parser >>= next) fun source before b after =>
      ∃ a middle, meaning source before a middle ∧ then_ a source middle b after where
  sound input state structural clean := by
    rw [bind_run] at clean ⊢
    cases run : parser input state with
    | mk outcome middle =>
      have ran := first.sound input state structural
      rw [run] at clean ran
      cases outcome with
      | none =>
        obtain ⟨before, given⟩ := ran clean
        refine ⟨before, fun live => ?_⟩
        obtain ⟨_, a, none_eq, _⟩ := given live
        cases none_eq
      | some a =>
        obtain ⟨between, continues⟩ := (second a).sound input middle structural clean
        obtain ⟨before, given⟩ := ran between
        refine ⟨before, fun live => ?_⟩
        obtain ⟨stillLive, b, some_eq, related⟩ := given live
        cases some_eq
        obtain ⟨final, c, outcome, goesOn⟩ := continues stillLive
        exact ⟨final, c, outcome, a, middle.stage, related, goesOn⟩
  complete := by
    rintro input state b after structural clean live never ⟨a, middle, related, goesOn⟩
    obtain ⟨between, run, rfl, clean, live⟩ :=
      first.complete input state a middle structural clean live never related
    rw [bind_run, run]
    exact (second a).complete input between b after structural clean live never goesOn
  leads := by
    rintro source before b after ⟨a, middle, related, goesOn⟩
    exact (first.leads _ _ _ _ related).trans ((second a).leads _ _ _ _ goesOn)

theorem map {f : α → β} (h : Means parser meaning) :
    Means (f <$> parser) fun source before b after =>
      ∃ a, meaning source before a after ∧ b = f a := by
  refine (h.bind fun a => pure (f a)).congr fun source before b after => ?_
  constructor
  · rintro ⟨a, _, related, rfl, rfl⟩
    exact ⟨a, related, rfl⟩
  · rintro ⟨a, related, rfl⟩
    exact ⟨a, after, related, rfl, rfl⟩

/-- Looking at the position. -/
theorem cursor {next : Cursor → Parser β} {m : Cursor → Meaning β}
    (h : ∀ here, Means (next here) (m here)) :
    Means (Parser.cursor >>= next) fun source before => m before.cursor source before where
  sound input state := (h state.cursor).sound input state
  complete input state := (h state.cursor).complete input state
  leads source before := (h before.cursor).leads source before

/-- Looking at the next token. -/
theorem peek {next : Token → Parser β} {m : Token → Meaning β}
    (h : ∀ token, Means (next token) (m token)) :
    Means (Parser.peek >>= next) fun source before => m before.cursor.peek source before where
  sound input state := (h state.cursor.peek).sound input state
  complete input state := (h state.cursor.peek).complete input state
  leads source before := (h before.cursor.peek).leads source before

/-- Looking at the current scope. -/
theorem scope {next : ScopeId → Parser β} {m : ScopeId → Meaning β}
    (h : ∀ id, Means (next id) (m id)) :
    Means (Parser.look (·.tracker.scope) >>= next) fun source before =>
      m before.tracker.scope source before where
  sound input state := (h state.tracker.scope).sound input state
  complete input state := (h state.tracker.scope).complete input state
  leads source before := (h before.tracker.scope).leads source before

theorem ite {condition : Prop} [Decidable condition] {other : Parser α} {second : Meaning α}
    (yes : condition → Means parser meaning) (no : ¬condition → Means other second) :
    Means (if condition then parser else other)
      (if condition then meaning else second) := by
  split
  · exact yes ‹_›
  · exact no ‹_›

theorem attempt (h : Means parser meaning) :
    Means (Parser.attempt parser) fun source before found after =>
      ∃ a, found = some a ∧ meaning source before a after where
  sound input state structural clean := by
    obtain ⟨before, given⟩ := h.sound input state structural clean
    refine ⟨before, fun live => ?_⟩
    obtain ⟨stillLive, a, outcome, related⟩ := given live
    exact ⟨stillLive, some a, congrArg some outcome, a, rfl, related⟩
  complete := by
    rintro input state _ after structural clean live never ⟨a, rfl, related⟩
    obtain ⟨final, run, rest⟩ := h.complete input state a after structural clean live never related
    exact ⟨final, by rw [Parser.attempt, run], rest⟩
  leads := by
    rintro source before _ after ⟨a, _, related⟩
    exact h.leads _ _ _ _ related

theorem naming {construct : String} (h : Means parser meaning) :
    Means (Parser.naming construct parser) meaning where
  sound input state structural clean := h.sound input { state with construct } structural clean
  complete input state a after structural clean live never related := by
    obtain ⟨final, run, rfl, stillClean, stillLive⟩ :=
      h.complete input { state with construct } a after structural clean live never related
    refine ⟨{ final with construct := state.construct }, ?_, rfl, stillClean, stillLive⟩
    rw [Parser.naming, run]
  leads := h.leads

/-! ## What goes wrong -/

/-- Errors are never taken back. -/
theorem clean_of_traced (traced : Traced parser fun _ _ => True) (input : Input)
    (state : State) (clean : (parser input state).2.diagnostics.Clean) :
    state.diagnostics.Clean := by
  obtain ⟨_, _, _, trail, _⟩ := traced input state
  intro diagnostic member
  apply clean
  rw [trail.reports]
  exact List.mem_append_left _ member

/-- A part that fails leaves an error behind, unless parsing has come to an early end. -/
theorem not_clean_of_none (h : Means parser meaning) {input : Input} {state : State}
    (structural : input.adapters = .structural) (live : state.halted = false)
    (failed : (parser input state).1 = none) :
    ¬(parser input state).2.diagnostics.Clean := by
  intro clean
  obtain ⟨_, given⟩ := h.sound input state structural clean
  obtain ⟨_, a, outcome, _⟩ := given live
  rw [failed] at outcome
  cases outcome

/-- What comes after a part that might fail, but does not. -/
theorem attempt_bind {next : Option α → Parser β} {then_ : α → Meaning β}
    (h : Means parser meaning) (given : ∀ a, Means (next (some a)) (then_ a))
    (keeps : ∀ input state, (next none input state).2.diagnostics.Clean → state.diagnostics.Clean) :
    Means (Parser.attempt parser >>= next) fun source before b after =>
      ∃ a middle, meaning source before a middle ∧ then_ a source middle b after where
  sound input state structural clean := by
    rw [bind_run] at clean ⊢
    rw [Parser.attempt] at clean ⊢
    have ran := h.sound input state structural
    cases run : parser input state with
    | mk outcome middle =>
      rw [run] at clean ran
      cases outcome with
      | none =>
        obtain ⟨before, given⟩ := ran (keeps input middle clean)
        refine ⟨before, fun live => ?_⟩
        obtain ⟨_, _, ⟨⟩, _⟩ := given live
      | some a =>
        obtain ⟨between, continues⟩ := (given a).sound input middle structural clean
        obtain ⟨before, given⟩ := ran between
        refine ⟨before, fun live => ?_⟩
        obtain ⟨stillLive, _, some_eq, related⟩ := given live
        cases some_eq
        obtain ⟨final, b, outcome, goesOn⟩ := continues stillLive
        exact ⟨final, b, outcome, a, middle.stage, related, goesOn⟩
  complete := by
    rintro input state b after structural clean live never ⟨a, middle, related, goesOn⟩
    obtain ⟨between, run, rfl, clean, live⟩ :=
      h.complete input state a middle structural clean live never related
    rw [bind_run, Parser.attempt, run]
    exact (given a).complete input between b after structural clean live never goesOn
  leads := by
    rintro source before b after ⟨a, middle, related, goesOn⟩
    exact (h.leads _ _ _ _ related).trans ((given a).leads _ _ _ _ goesOn)

/-- A parser that always leaves an error behind has no run without errors. -/
theorem wrong (h : ∀ input state, ¬(parser input state).2.diagnostics.Clean) :
    Means parser fun _ _ _ _ => False where
  sound input state _ clean := absurd clean (h input state)
  complete := by
    rintro _ _ _ _ _ _ _ _ ⟨⟩
  leads := by
    rintro _ _ _ _ ⟨⟩

theorem not_clean_error {diagnostics : Diagnostics} {diagnostic : Diagnostic}
    (error : diagnostic.isError = true) : ¬(diagnostics.push diagnostic).Clean := by
  rw [Diagnostics.clean_push, error]
  rintro ⟨_, ⟨⟩⟩

theorem expected (what : String) : Means (Parser.expected what : Parser α) fun _ _ _ _ => False :=
  wrong fun _ _ => not_clean_error rfl

theorem reportExpected (what : String) :
    Means (Parser.reportExpected what) fun _ _ _ _ => False :=
  wrong fun _ _ => not_clean_error rfl

theorem report {diagnostic : Diagnostic} (error : diagnostic.isError = true) :
    Means (Parser.report diagnostic) fun _ _ _ _ => False :=
  wrong fun _ _ => not_clean_error error

/-- What comes after an error is of no interest. -/
theorem wrong_bind {next : α → Parser β}
    (h : ∀ input state, ¬(parser input state).2.diagnostics.Clean)
    (keeps : ∀ a input state, (next a input state).2.diagnostics.Clean → state.diagnostics.Clean) :
    Means (parser >>= next) fun _ _ _ _ => False := by
  refine wrong fun input state clean => h input state ?_
  rw [bind_run] at clean
  cases run : parser input state with
  | mk outcome middle =>
    rw [run] at clean
    cases outcome with
    | none => exact clean
    | some a => exact keeps a input middle clean

theorem halted_run (next : Bool → Parser α) (input : Input) (state : State) :
    (look (·.halted) >>= next) input state = next state.halted input state :=
  rfl

/-- Looking whether parsing has come to an early end, which it has not. -/
theorem halted {next : Bool → Parser α} (h : Means (next false) meaning)
    (keeps : ∀ input state, (next true input state).2.diagnostics.Clean → state.diagnostics.Clean) :
    Means (look (·.halted) >>= next) meaning where
  sound input state structural clean := by
    rw [halted_run] at clean ⊢
    cases halted : state.halted with
    | true =>
      rw [halted] at clean
      exact ⟨keeps input state clean, by rintro ⟨⟩⟩
    | false =>
      rw [halted] at clean
      obtain ⟨before, given⟩ := h.sound input state structural clean
      exact ⟨before, fun _ => given halted⟩
  complete input state a after structural clean live never related := by
    rw [halted_run, live]
    exact h.complete input state a after structural clean live never related
  leads := h.leads

/-- Asking whether parsing is to end early, which it is not. -/
theorem checkHalted {next : Bool → Parser α} (h : Means (next false) meaning)
    (keeps : ∀ input state, (next true input state).2.diagnostics.Clean → state.diagnostics.Clean) :
    Means (Parser.checkHalted >>= next) meaning where
  sound input state structural clean := by
    rw [bind_run] at clean ⊢
    unfold Parser.checkHalted at clean ⊢
    cases halted : state.halted with
    | true =>
      rw [halted, if_pos rfl] at clean
      exact ⟨keeps input state clean, by rintro ⟨⟩⟩
    | false =>
      rw [halted, if_neg Bool.false_ne_true] at clean
      rw [if_neg Bool.false_ne_true]
      cases cancelled : input.options.cancellation.isSet (countReadings .type state.readings)
        (countReadings .attribute state.readings) with
      | true =>
        rw [cancelled, if_pos rfl] at clean
        exact absurd (keeps input _ clean) (not_clean_error rfl)
      | false =>
        rw [cancelled, if_neg Bool.false_ne_true] at clean
        rw [if_neg Bool.false_ne_true]
        obtain ⟨before, given⟩ := h.sound input state structural clean
        exact ⟨before, fun _ => given halted⟩
  complete input state a after structural clean live never related := by
    rw [bind_run, Parser.checkHalted, live, if_neg Bool.false_ne_true, never,
      if_neg Bool.false_ne_true]
    exact h.complete input state a after structural clean live never related
  leads := h.leads

end Means

/-! ## Tokens and names -/

/-- Whether a stage comes right after a token. -/
def Stage.Passes (before : Stage) (token : Token) (after : Stage) : Prop :=
  before.rest = token :: after.rest ∧ after = before.next

/-- Whether a name is defined without clashing with an earlier one. -/
def Stage.Defines (before : Stage) (kind : NameKind) (found : Token) (definition : Definition)
    (after : Stage) : Prop :=
  before.tracker.clash? kind found.name = none ∧
    definition = ⟨kind, found.name, found.span, before.tracker.home kind⟩ ∧
    after = { before with
      tracker := { before.tracker with table := before.tracker.table.insert definition } }

/-- Whether a name is used. -/
def Stage.Refers (before : Stage) (kind : NameKind) (reference : Reference) (after : Stage) :
    Prop :=
  ∃ found, found.kind = nameToken kind ∧ before.rest = found :: after.rest ∧
    reference = (before.tracker.refer kind found.name found.span).1 ∧
    after = { before.next with tracker := (before.tracker.refer kind found.name found.span).2 }

theorem Stage.Passes.leads {before after : Stage} {token : Token}
    (passes : before.Passes token after) : before.Leads after :=
  ⟨[token], passes.1⟩

theorem Stage.passes_iff {before after : Stage} {token : Token} (condition : Token → Bool)
    (real : ∀ offset, condition (.endAt offset) = false) :
    (condition before.cursor.peek = true ∧ token = before.cursor.peek ∧ after = before.next) ↔
      condition token = true ∧ before.Passes token after := by
  constructor
  · rintro ⟨holds, rfl, rfl⟩
    refine ⟨holds, ?_, rfl⟩
    rw [Stage.rest_next]
    cases rest : before.rest with
    | nil =>
      have ended : before.cursor.peek = .endAt before.cursor.size := by
        rw [Cursor.peek, show before.cursor.rest = [] from rest]
        rfl
      rw [ended, real] at holds
      cases holds
    | cons first others =>
      rw [Cursor.peek_of_cons rest]
      rfl
  · rintro ⟨holds, rest, rfl⟩
    have first : before.cursor.peek = token := Cursor.peek_of_cons rest
    exact ⟨first ▸ holds, first.symm, rfl⟩

namespace Means

variable {parser : Parser α} {meaning : Meaning α}

/-- A change of the position or of the number for the next operation. -/
theorem change {update : State → State} {move : Stage → Stage}
    (stage : ∀ state, state.halted = false → (update state).stage = move state.stage)
    (diagnostics : ∀ state, (update state).diagnostics = state.diagnostics)
    (halted : ∀ state, (update state).halted = state.halted)
    (leads : ∀ before : Stage, before.Leads (move before)) :
    Means (Parser.change update) fun _ before _ after => after = move before where
  sound input state structural clean := by
    change (update state).diagnostics.Clean at clean
    rw [diagnostics] at clean
    refine ⟨clean, fun live => ⟨?_, (), rfl, ?_⟩⟩
    · change (update state).halted = false
      rw [halted, live]
    · exact stage state live
  complete := by
    rintro input state a _ _ clean live _ rfl
    refine ⟨update state, rfl, stage state live, ?_, ?_⟩
    · rw [diagnostics]
      exact clean
    · rw [halted, live]
  leads := by
    rintro _ before _ _ rfl
    exact leads before

theorem skip : Means Parser.skip fun _ before _ after => after = before.next :=
  change (fun _ _ => rfl) (fun _ => rfl) (fun _ => rfl) Stage.leads_next

theorem satisfying {condition : Token → Bool} (what : String)
    (real : ∀ offset, condition (.endAt offset) = false) :
    Means (Parser.satisfying condition what) fun _ before token after =>
      condition token = true ∧ before.Passes token after := by
  refine (peek fun token => ite (fun _ => skip.bind fun _ => pure token) fun _ =>
    expected what).congr fun source before token after => ?_
  rw [← Stage.passes_iff condition real]
  constructor
  · intro related
    split at related
    · rename_i holds
      obtain ⟨_, _, rfl, rfl, rfl⟩ := related
      exact ⟨holds, rfl, rfl⟩
    · cases related
  · rintro ⟨holds, rfl, rfl⟩
    rw [if_pos holds]
    exact ⟨(), before.next, rfl, rfl, rfl⟩

theorem token {kind : TokenKind} (what : String) (real : kind ≠ .endOfInput) :
    Means (Parser.token kind what) fun _ before token after =>
      token.kind = kind ∧ before.Passes token after :=
  (satisfying what fun _ => by simpa [Token.endAt] using Ne.symm real).congr fun _ _ _ _ => by
    rw [beq_iff_eq]

theorem punct (mark : Punct) : Means (Parser.punct mark) fun _ before token after =>
    token.isPunct mark = true ∧ before.Passes token after :=
  satisfying _ fun _ => rfl

theorem word (text : String) : Means (Parser.word text) fun _ before token after =>
    token.isWord text = true ∧ before.Passes token after :=
  satisfying _ fun _ => rfl

/-- What comes after an optional mark. -/
theorem eat {mark : Punct} {next : Bool → Parser β} {then_ : Bool → Meaning β}
    (h : ∀ eaten, Means (next eaten) (then_ eaten)) :
    Means (Parser.eat mark >>= next) fun source before b after =>
      if before.cursor.atPunct mark then then_ true source before.next b after
      else then_ false source before b after := by
  refine ((cursor fun here => ite (fun _ => skip.bind fun _ => pure true)
    fun _ => pure false).bind h).congr fun source before b after => ?_
  constructor
  · rintro ⟨eaten, middle, ate, related⟩
    split at ate
    · rename_i here
      obtain ⟨_, _, rfl, rfl, rfl⟩ := ate
      rw [if_pos here]
      exact related
    · rename_i absent
      obtain ⟨rfl, rfl⟩ := ate
      rw [if_neg absent]
      exact related
  · intro related
    split at related
    · rename_i here
      refine ⟨true, before.next, ?_, related⟩
      rw [if_pos here]
      exact ⟨(), before.next, rfl, rfl, rfl⟩
    · rename_i absent
      refine ⟨false, before, ?_, related⟩
      rw [if_neg absent]
      exact ⟨rfl, rfl⟩

theorem noteUse (kind : NameKind) (found : Token) :
    Means (Parser.noteUse kind found) fun _ before reference after =>
      reference = (before.tracker.refer kind found.name found.span).1 ∧
        after = { before with tracker := (before.tracker.refer kind found.name found.span).2 } where
  sound _ _ _ clean := ⟨clean, fun live => ⟨live, _, rfl, rfl, rfl⟩⟩
  complete := by
    rintro _ state _ _ _ clean live _ ⟨rfl, rfl⟩
    exact ⟨_, rfl, rfl, clean, live⟩
  leads := by
    rintro _ before _ _ ⟨_, rfl⟩
    exact ⟨[], rfl⟩

theorem nameToken_ne (kind : NameKind) : nameToken kind ≠ .endOfInput := by
  cases kind <;> rintro ⟨⟩

theorem refer (kind : NameKind) :
    Means (Parser.refer kind) fun _ before reference after =>
      before.Refers kind reference after := by
  refine ((token (missingName kind) (nameToken_ne kind)).bind fun found =>
    noteUse kind found).congr fun source before reference after => ?_
  constructor
  · rintro ⟨found, _, ⟨isName, rest, rfl⟩, rfl, rfl⟩
    exact ⟨found, isName, rest, rfl, rfl⟩
  · rintro ⟨found, isName, rest, rfl, rfl⟩
    exact ⟨found, before.next, ⟨isName, rest, rfl⟩, rfl, rfl⟩

theorem define (kind : NameKind) (found : Token) :
    Means (Parser.define kind found) fun _ before definition after =>
      before.Defines kind found definition after where
  sound input state structural clean := by
    unfold Parser.define Tracker.define at clean ⊢
    cases clash : state.tracker.clash? kind found.name with
    | none =>
      simp only [clash] at clean ⊢
      exact ⟨clean, fun live => ⟨live, _, rfl, clash, rfl, rfl⟩⟩
    | some earlier =>
      simp only [clash] at clean
      exact absurd clean (not_clean_error rfl)
  complete := by
    rintro input state _ _ _ clean live _ ⟨clash, rfl, rfl⟩
    refine ⟨{ state with tracker := _ }, ?_, rfl, clean, live⟩
    rw [stage_tracker] at clash
    simp [Parser.define, Tracker.define, clash]
  leads := by
    rintro _ before _ _ ⟨_, _, rfl⟩
    exact ⟨[], rfl⟩

/-- A parser in a scope of its own, whose labels are all defined there. -/
theorem inScope (h : Means parser meaning) :
    Means (Parser.inScope parser) fun source before a after => ∃ inside : Stage,
      meaning source { before with tracker := before.tracker.push } a inside ∧
        inside.tracker.pop.2 = [] ∧ after = { inside with tracker := inside.tracker.pop.1 } where
  sound input state structural clean := by
    obtain ⟨inside, unresolved⟩ := Diagnostics.clean_append.1 clean
    obtain ⟨before, given⟩ :=
      h.sound input { state with tracker := state.tracker.push } structural inside
    refine ⟨before, fun live => ?_⟩
    obtain ⟨stillLive, a, outcome, related⟩ := given live
    refine ⟨stillLive, a, outcome, _, related, ?_, rfl⟩
    apply List.eq_nil_iff_forall_not_mem.2
    intro verdict member
    cases unresolved _ (List.mem_map_of_mem member)
  complete := by
    rintro input state a _ structural clean live never ⟨inside, related, resolved, rfl⟩
    obtain ⟨final, run, rfl, stillClean, stillLive⟩ :=
      h.complete input { state with tracker := state.tracker.push } a inside structural clean
      live never related
    rw [stage_tracker] at resolved
    refine ⟨{ final with
      tracker := final.tracker.pop.1
      diagnostics := final.diagnostics.append [] }, ?_, rfl, ?_, stillLive⟩
    · simp [Parser.inScope, run, resolved]
    · exact Diagnostics.clean_append.2 ⟨stillClean, by simp⟩
  leads := by
    rintro source before a _ ⟨inside, related, _, rfl⟩
    obtain ⟨tokens, same⟩ := h.leads _ _ _ _ related
    exact ⟨tokens, same⟩

/-! ## Types, attributes and warnings -/

theorem embed {language : Sublanguage} {adapter : Adapters → Adapter α} :
    Means (Parser.embed language adapter) fun source before a after =>
      ∃ cursor, (adapter .structural).read source before.cursor = .ok (a, cursor) ∧
        after = { before with cursor } where
  sound input state structural clean := by
    unfold Parser.embed at clean ⊢
    rw [structural] at clean ⊢
    cases outcome : (adapter .structural).read input.source state.cursor with
    | ok found =>
      obtain ⟨a, cursor⟩ := found
      simp only [outcome] at clean ⊢
      exact ⟨clean, fun live => ⟨live, a, rfl, cursor, outcome, rfl⟩⟩
    | error error =>
      simp only [outcome] at clean
      exact absurd clean (not_clean_error rfl)
  complete := by
    rintro input state a _ structural clean live _ ⟨cursor, outcome, rfl⟩
    refine ⟨{ state with
      cursor, readings := ⟨language, state.cursor.position⟩ :: state.readings }, ?_,
      rfl, clean, live⟩
    rw [stage_cursor] at outcome
    simp [Parser.embed, structural, outcome]
  leads := by
    rintro source before a _ ⟨cursor, outcome, rfl⟩
    obtain ⟨count, _, moved⟩ := (adapter .structural).advances outcome
    refine ⟨before.rest.take (count + 1), ?_⟩
    change before.rest = before.rest.take (count + 1) ++ cursor.rest
    rw [moved, Cursor.rest_advance]
    exact (List.take_append_drop (count + 1) before.rest).symm

theorem type : Means Parser.type fun source before written after =>
    ∃ cursor, before.cursor.readType source = .ok (written, cursor) ∧
      after = { before with cursor } :=
  embed

theorem attributeOf (form : AttributeForm) :
    Means (Parser.attributeOf form) fun source before value after =>
      ∃ cursor, before.cursor.readAttribute source form = .ok (value, cursor) ∧
        after = { before with cursor } :=
  embed

theorem warnDeprecated (opcode : Opcode) (message : String) (span : Span) :
    Means (Parser.warnDeprecated opcode message span) fun _ before _ after => after = before where
  sound input state structural clean := by
    rw [warnDeprecated_run] at clean ⊢
    cases warns : input.options.deprecations with
    | true =>
      simp only [warns, if_true] at clean ⊢
      exact ⟨(Diagnostics.clean_push.1 clean).1, fun live => ⟨live, (), trivial, rfl⟩⟩
    | false =>
      simp only [warns, Bool.false_eq_true, if_false] at clean ⊢
      exact ⟨clean, fun live => ⟨live, (), trivial, trivial⟩⟩
  complete := by
    rintro input state a _ _ clean live _ rfl
    refine ⟨_, warnDeprecated_run opcode message span input state, ?_, ?_, ?_⟩
    · split <;> rfl
    · split
      · exact Diagnostics.clean_push.2 ⟨clean, rfl⟩
      · exact clean
    · split <;> exact live
  leads := by
    rintro _ _ _ after rfl
    exact .refl after

/-! ## Loops -/

/-- The runs of a loop. -/
inductive Loop (step : σ → Meaning (Step σ β)) (source : List Char) :
    σ → Stage → β → Stage → Prop where
  /-- The last step. -/
  | done {accumulated : σ} {before after : Stage} {result : β}
      (last : step accumulated source before (.done result) after) :
      Loop step source accumulated before result after
  /-- A step after which the loop goes on. -/
  | again {accumulated next : σ} {before middle after : Stage} {result : β}
      (first : step accumulated source before (.again next) middle)
      (rest : Loop step source next middle result after) :
      Loop step source accumulated before result after

theorem iterate {step : σ → Parser (Step σ β)} {meaning : σ → Meaning (Step σ β)}
    (steps : ∀ accumulated, Means (step accumulated) (meaning accumulated))
    (progress : ∀ {accumulated source before next after},
      meaning accumulated source before (.again next) after →
        after.rest.length < before.rest.length) (accumulated : σ) :
    Means (Parser.iterate step accumulated) fun source => Loop meaning source accumulated where
  sound input state structural := by
    induction accumulated, state using iterate_induction step input with
    | failed accumulated state final run ran =>
      intro clean
      rw [ran] at clean ⊢
      have ran := (steps accumulated).sound input state structural
      rw [run] at ran
      obtain ⟨before, given⟩ := ran clean
      refine ⟨before, fun live => ?_⟩
      obtain ⟨_, _, none_eq, _⟩ := given live
      cases none_eq
    | done accumulated state result final run ran =>
      intro clean
      rw [ran] at clean ⊢
      have ran := (steps accumulated).sound input state structural
      rw [run] at ran
      obtain ⟨before, given⟩ := ran clean
      refine ⟨before, fun live => ?_⟩
      obtain ⟨stillLive, _, some_eq, last⟩ := given live
      cases some_eq
      exact ⟨stillLive, result, rfl, .done last⟩
    | stuck accumulated state further final run stuck ran =>
      intro clean
      rw [ran] at clean ⊢
      have ran := (steps accumulated).sound input state structural
      rw [run] at ran
      obtain ⟨before, given⟩ := ran clean
      refine ⟨before, fun live => ?_⟩
      obtain ⟨_, _, some_eq, first⟩ := given live
      cases some_eq
      exact absurd (progress first) stuck
    | again accumulated state further next run fewer ran ih =>
      intro clean
      rw [ran] at clean ⊢
      have ran := (steps accumulated).sound input state structural
      rw [run] at ran
      obtain ⟨between, continues⟩ := ih clean
      obtain ⟨before, given⟩ := ran between
      refine ⟨before, fun live => ?_⟩
      obtain ⟨stillLive, _, some_eq, first⟩ := given live
      cases some_eq
      obtain ⟨final, b, outcome, rest⟩ := continues stillLive
      exact ⟨final, b, outcome, .again first rest⟩
  complete input state result after structural clean live never runs := by
    generalize start : state.stage = before at runs
    induction runs generalizing state with
    | @done accumulated before after result last =>
      subst start
      obtain ⟨final, run, rest⟩ :=
        (steps accumulated).complete input state _ after structural clean live never last
      exact ⟨final, by rw [iterate_run, run], rest⟩
    | @again accumulated next before middle after result first rest ih =>
      subst start
      obtain ⟨between, run, rfl, clean, live⟩ :=
        (steps accumulated).complete input state _ middle structural clean live never first
      obtain ⟨final, runs, goesOn⟩ := ih between clean live rfl
      refine ⟨final, ?_, goesOn⟩
      rw [iterate_run, run]
      exact (if_pos (progress first)).trans runs
  leads := by
    intro source before result after runs
    induction runs with
    | done last => exact (steps _).leads _ _ _ _ last
    | again first rest ih => exact ((steps _).leads _ _ _ _ first).trans ih

/-- The runs of a loop that collects items. -/
inductive Collects (step : Meaning (Option α × Bool)) (source : List Char) :
    Stage → List α → Stage → Prop where
  /-- The last step. -/
  | done {before after : Stage} {found : Option α}
      (last : step source before (found, false) after) :
      Collects step source before found.toList after
  /-- A step after which the loop goes on. -/
  | again {before middle after : Stage} {found : Option α} {items : List α}
      (first : step source before (found, true) middle)
      (rest : Collects step source middle items after) :
      Collects step source before (found.toList ++ items) after

/-- One step of the loop behind a loop that collects items, after the given ones, the latest
first. -/
def Collecting (step : Meaning (Option α × Bool)) (items : List α) :
    Meaning (Step (List α) (List α)) := fun source before outcome after =>
  ∃ found goesOn, step source before (found, goesOn) after ∧
    outcome = if goesOn then .again (found.toList ++ items) else .done (found.toList ++ items)

section Collects

variable {step : Meaning (Option α × Bool)} {source : List Char} {before after : Stage}

theorem Collects.of_loop {earlier reversed : List α}
    (runs : Loop (Collecting step) source earlier before reversed after) :
    ∃ items, Collects step source before items after ∧ reversed = items.reverse ++ earlier := by
  induction runs with
  | done last =>
    obtain ⟨found, _ | _, related, same⟩ := last
    · cases same
      exact ⟨found.toList, .done related, by cases found <;> rfl⟩
    · cases same
  | again first rest ih =>
    obtain ⟨found, _ | _, related, same⟩ := first
    · cases same
    · cases same
      obtain ⟨items, runs, rfl⟩ := ih
      exact ⟨found.toList ++ items, .again related runs, by cases found <;> simp⟩

theorem Collects.loop {items : List α} (runs : Collects step source before items after)
    (earlier : List α) :
    Loop (Collecting step) source earlier before (items.reverse ++ earlier) after := by
  induction runs generalizing earlier with
  | @done before after found last => exact .done ⟨found, false, last, by cases found <;> rfl⟩
  | @again before middle after found items first rest ih =>
    refine .again ⟨found, true, first, rfl⟩ ?_
    have rest := ih (found.toList ++ earlier)
    cases found with
    | none => exact rest
    | some a => simpa using rest

end Collects

theorem collect {step : Parser (Option α × Bool)} {meaning : Meaning (Option α × Bool)}
    (steps : Means step meaning)
    (progress : ∀ {source before found after}, meaning source before (found, true) after →
      after.rest.length < before.rest.length) :
    Means (Parser.collect step) fun source => Collects meaning source := by
  have oneStep : ∀ items : List α, Means (do
      let outcome ← step
      let items := outcome.1.toList ++ items
      Pure.pure (if outcome.2 then Step.again items else .done items))
        (Collecting meaning items) := by
    intro items
    refine (steps.bind fun outcome => pure _).congr fun source before outcome after => ?_
    constructor
    · rintro ⟨⟨found, goesOn⟩, middle, related, rfl, rfl⟩
      exact ⟨found, goesOn, related, rfl⟩
    · rintro ⟨found, goesOn, related, rfl⟩
      exact ⟨(found, goesOn), after, related, rfl, rfl⟩
  have moves : ∀ {items source before next after},
      Collecting meaning items source before (.again next) after →
        after.rest.length < before.rest.length := by
    rintro items source before next after ⟨found, _ | _, related, same⟩
    · cases same
    · exact progress related
  refine ((iterate oneStep moves []).map).congr fun source before items after => ?_
  constructor
  · rintro ⟨reversed, runs, rfl⟩
    obtain ⟨items, collects, rfl⟩ := Collects.of_loop runs
    rw [List.append_nil, List.reverse_reverse]
    exact collects
  · intro runs
    refine ⟨items.reverse, ?_, items.reverse_reverse.symm⟩
    have loops := runs.loop []
    rwa [List.append_nil] at loops

end Means

end Parser

end CirText
