import CirText.Proofs.Operation.Relocation
import CirText.Proofs.Operation.Parting
import CirText.Proofs.Operation.Silent
import CirText.Proofs.Parser.Recovery

/-!
# Detours

Of two source texts that are the same but for junk, which one of them has between two tokens, what
is read in the one is read in the other as well: before the junk the texts are the same up to where
they part, and behind it they go on in the same way, but at different offsets. What contains the
place of the junk is the same but for its places.
-/

namespace CirText

open CirText.Parser

theorem Parser.iterate_next {σ β : Type} {step : σ → Parser (Step σ β)} {accumulated further : σ}
    {input : Input} {state next : State}
    (ran : step accumulated input state = (some (.again further), next))
    (fewer : next.cursor.rest.length < state.cursor.rest.length) :
    iterate step accumulated input state = iterate step further input next := by
  rw [iterate_run, ran]
  exact if_pos fewer

/-- Two source texts that are the same but for junk in the second one, at which no operation
starts. -/
structure Detour where
  /-- The texts up to where they part. -/
  ahead : Fork
  /-- The tokens of the first text. -/
  tokens : List Token
  /-- How the second text is read. -/
  options : Options
  /-- Where the second text is read from. -/
  first : Cursor
  /-- An opening brace that the texts share right before the junk, if they part in front of it. -/
  opening : List Token
  /-- The first token of the junk. -/
  refused : Token
  /-- The tokens of the junk behind it. -/
  junk : List Token
  /-- The tokens behind the junk. -/
  left : List Token
  /-- The offset behind the place of the junk in the first text. -/
  origin : Nat
  /-- The offset behind the junk in the second text. -/
  target : Nat
  behind : ahead.behind = opening ++ left
  beyond : ahead.beyond = opening ++ refused :: (junk ++ left.map (.move origin target))
  opens : opening = [] ∨ ∃ brace, brace.isPunct .leftBrace = true ∧ opening = [brace]
  refuses : Parser.refuses refused = true
  isJunk : CirText.isJunk 0 junk = true
  ordered : Lexer.Ordered 0 tokens
  ends : ahead.behind <:+ tokens
  braces : ∀ token ∈ tokens, token.isPunct .rightBrace = true → token.span.stop =
    token.span.start + 1
  within : ∀ token ∈ left, origin ≤ token.span.start
  slices : ∀ span : Span, origin ≤ span.start →
    (span.move origin target).slice ahead.other = span.slice ahead.source
  never : ∀ types attributes, options.cancellation.isSet types attributes = false

namespace Detour

variable (detour : Detour)

/-- The second text and how it is read. -/
def input : Input :=
  ⟨detour.ahead.other, detour.options, .structural⟩

/-- The texts from behind the junk on. -/
def past : Relocation where
  source := detour.ahead.source
  other := detour.ahead.other
  origin := detour.origin
  target := detour.target
  slices := detour.slices

/-- Whether a state of the second text stands where a stage of the first one does, in front of the
junk. -/
structure Ahead (taken : List Token) (stage : Stage) (state : State) : Prop where
  abreast : detour.ahead.Abreast taken stage state.stage
  live : state.Live detour.first

/-- Whether a state of the second text stands where a stage of the first one does, behind the
junk. -/
structure Past (stage : Stage) (state : State) : Prop where
  follows : detour.past.Follows stage state.stage
  live : state.Live detour.first

/-- Whether a diagnostic reports the first token of the junk. -/
structure Reports (diagnostic : Diagnostic) : Prop where
  span : diagnostic.span = detour.refused.span
  unknown : detour.refused.kind = .keyword →
    diagnostic = .error (.unknownOpcode detour.refused.text) detour.refused.span

/-- Whether an opening brace comes before the junk in what the texts share. -/
def Comes (stage : Stage) : Prop :=
  ∃ taken, stage.rest = taken ++ detour.ahead.behind ∧
    ∃ brace ∈ taken ++ detour.opening, brace.isPunct .leftBrace = true

variable {α : Type} {detour}

/-- Whether a parser, started in front of the junk where the first text is at a stage, reports the
junk and nothing else, gives something with a property and ends where the first text is at another
stage. -/
def Runs (detour : Detour) (parser : Parser α) (before after : Stage) (same : α → Prop) : Prop :=
  ∀ {taken : List Token} {state : State}, detour.Ahead taken before state → ∃ b final diagnostic,
    parser detour.input state = (some b, final) ∧ same b ∧ detour.Past after final ∧
      detour.Reports diagnostic ∧ final.diagnostics = state.diagnostics.push diagnostic

/-- Whether what a parser reads between two stages has the junk inside a region, and is something
with a property in the second text. -/
structure Crosses (detour : Detour) (parser : Parser α) (before after : Stage) (same : α → Prop) :
    Prop where
  comes : detour.Comes before
  runs : detour.Runs parser before after same

theorem Comes.leads {before after : Stage} (comes : detour.Comes after)
    (leads : before.Leads after) :
    detour.Comes before := by
  obtain ⟨taken, rest, brace, member, isBrace⟩ := comes
  obtain ⟨took, same⟩ := leads
  refine ⟨took ++ taken, by rw [same, rest, List.append_assoc], brace, ?_, isBrace⟩
  rw [List.append_assoc]
  exact List.mem_append_right took member

/-- Nothing is decided where the texts part if an opening brace comes before the junk. -/
theorem Comes.settled {stage : Stage} (comes : detour.Comes stage) {taken : List Token}
    (rest : stage.rest = taken ++ detour.ahead.behind) (parted : taken = []) :
    detour.ahead.Settled := by
  obtain ⟨shared, same, brace, member, isBrace⟩ := comes
  obtain rfl : shared = taken := List.append_cancel_right (same.symm.trans rest)
  subst parted
  rcases detour.opens with none_ | ⟨opening, isOpening, only⟩
  · rw [none_] at member
    cases member
  · refine Fork.settled_of_brace ?_ ?_
    · rw [detour.behind, only]
      exact isOpening
    · rw [detour.beyond, only]
      exact isOpening

/-- A block starts in both texts or in none if an opening brace comes before the junk. -/
theorem Comes.startsBlock_eq {before : Stage} (comes : detour.Comes before) {taken : List Token}
    {twin : Stage} (abreast : detour.ahead.Abreast taken before twin) :
    Cursor.startsBlock twin.rest = Cursor.startsBlock before.rest := by
  obtain ⟨shared, same, brace, member, isBrace⟩ := comes
  obtain rfl := abreast.left_unique same
  rw [abreast.here, abreast.there, detour.behind, detour.beyond, ← List.append_assoc,
    ← List.append_assoc]
  refine Fork.startsBlock_append _ _ ⟨brace, member, ?_⟩
  rw [isBrace, Bool.true_or]

/-! ## Reading on either side -/

variable {parser : Parser α} {meaning : Meaning α} {calm : α → Prop} {before after : Stage} {a : α}
  {state : State}

/-- In front of the junk the second text has more tokens left. -/
theorem Ahead.length_rest {taken : List Token} {stage : Stage}
    (here : detour.Ahead taken stage state) :
    state.cursor.rest.length = stage.rest.length + (detour.junk.length + 1) := by
  have there : state.cursor.rest = taken ++ detour.ahead.beyond := here.abreast.there
  rw [there, here.abreast.here, detour.beyond, detour.behind]
  simp only [List.length_append, List.length_cons, List.length_map]
  omega

theorem Ahead.atEnd_eq {taken : List Token} {stage : Stage}
    (here : detour.Ahead taken stage state) :
    state.cursor.atEnd = false := by
  refine List.isEmpty_eq_false_iff.2 fun none_ => ?_
  have more := here.length_rest
  rw [none_, List.length_nil] at more
  omega

theorem Past.length_rest {stage : Stage} (here : detour.Past stage state) :
    state.cursor.rest.length = stage.rest.length :=
  here.follows.length_rest

theorem Past.atEnd_eq {stage : Stage} (here : detour.Past stage state) :
    state.cursor.atEnd = stage.cursor.atEnd :=
  here.follows.atEnd_eq

/-- What is read in front of the junk is read in both texts. -/
theorem Ahead.reads {tame : Prop} {taken left : List Token} (here : detour.Ahead taken before state)
    (silent : Silent detour.options detour.first parser meaning calm)
    (persists : detour.ahead.Persists meaning tame)
    (reads : meaning detour.ahead.source before a after)
    (rest : after.rest = left ++ detour.ahead.behind)
    (isTame : left = [] → tame) (isCalm : calm a) :
    ∃ final, parser detour.input state = (some a, final) ∧ detour.Ahead left after final ∧
      final.diagnostics = state.diagnostics := by
  obtain ⟨last, again, done⟩ := persists reads here.abreast rest isTame
  have ran : Reads detour.first parser detour.input state a last :=
    silent.reads rfl detour.never here.live again isCalm
  obtain ⟨final, run, rfl, reported, live⟩ := ran
  exact ⟨final, run, ⟨done, live⟩, reported⟩

/-- What is read behind the junk of the second text is what is parsed there. -/
theorem Past.run {b : α} {last : Stage} (here : detour.Past before state)
    (silent : Silent detour.options detour.first parser meaning calm)
    (again : meaning detour.ahead.other state.stage b last) (done : detour.past.Follows after last)
    (isCalm : calm b) :
    ∃ final, parser detour.input state = (some b, final) ∧ detour.Past after final ∧
      final.diagnostics = state.diagnostics := by
  have ran : Reads detour.first parser detour.input state b last :=
    silent.reads rfl detour.never here.live again isCalm
  obtain ⟨final, run, rfl, reported, live⟩ := ran
  exact ⟨final, run, ⟨done, live⟩, reported⟩

/-- What is read behind the junk is read in both texts, the same but for its places. -/
theorem Past.reads {same : α → α → Prop} (here : detour.Past before state)
    (silent : Silent detour.options detour.first parser meaning calm)
    (carries : detour.past.Carries meaning same)
    (reads : meaning detour.ahead.source before a after) (isCalm : ∀ b, same a b → calm b) :
    ∃ b final, parser detour.input state = (some b, final) ∧ same a b ∧ detour.Past after final ∧
      final.diagnostics = state.diagnostics := by
  obtain ⟨b, last, again, isSame, done⟩ := carries reads here.follows
  obtain ⟨final, run, past, reported⟩ := here.run silent again done (isCalm b isSame)
  exact ⟨b, final, run, isSame, past, reported⟩

/-! ## Composition -/

namespace Runs

variable {β σ : Type} {middle : Stage} {left : List Token} {property : α → Prop} {same : β → Prop}

/-- Something is made of what has the junk inside it. -/
theorem map (runs : detour.Runs parser before after property) (f : α → β)
    (made : ∀ b, property b → same (f b)) :
    detour.Runs (f <$> parser) before after same := by
  intro taken state here
  obtain ⟨b, final, diagnostic, run, holds, done, reported⟩ := runs here
  refine ⟨f b, final, diagnostic, ?_, made b holds, done, reported⟩
  rw [map_run, run]
  rfl

/-- Something is read behind what has the junk inside it. -/
theorem bind {next : α → Parser β} (runs : detour.Runs parser before middle property)
    (past : ∀ {b : α} {state : State}, property b → detour.Past middle state →
      ∃ c final, next b detour.input state = (some c, final) ∧ same c ∧ detour.Past after final ∧
        final.diagnostics = state.diagnostics) :
    detour.Runs (parser >>= next) before after same := by
  intro taken state here
  obtain ⟨b, between, diagnostic, run, holds, midway, reports, reported⟩ := runs here
  obtain ⟨c, final, runNext, made, done, kept⟩ := past holds midway
  refine ⟨c, final, diagnostic, ?_, made, done, reports, kept.trans reported⟩
  rw [bind_run, run]
  exact runNext

/-- Something is read in front of what has the junk inside it. -/
theorem behind {next : α → Parser β}
    (ahead : ∀ {taken : List Token} {state : State}, detour.Ahead taken before state →
      ∃ final, parser detour.input state = (some a, final) ∧ detour.Ahead left middle final ∧
        final.diagnostics = state.diagnostics)
    (runs : detour.Runs (next a) middle after same) :
    detour.Runs (parser >>= next) before after same := by
  intro taken state here
  obtain ⟨between, run, midway, kept⟩ := ahead here
  obtain ⟨c, final, diagnostic, runNext, made, done, reports, reported⟩ := runs midway
  refine ⟨c, final, diagnostic, ?_, made, done, reports, reported.trans (by rw [kept])⟩
  rw [bind_run, run]
  exact runNext

/-- A loop goes on behind the step that has the junk inside it. -/
theorem iterate {step : σ → Parser (Step σ β)} {begun : σ} {goesOn : σ → Prop}
    (runs : detour.Runs (step begun) before middle fun result => ∃ onward, result = .again onward ∧
      goesOn onward)
    (fewer : middle.rest.length < before.rest.length)
    (past : ∀ {onward : σ} {state : State}, goesOn onward → detour.Past middle state →
      ∃ b final, Parser.iterate step onward detour.input state = (some b, final) ∧ same b ∧
        detour.Past after final ∧
        final.diagnostics = state.diagnostics) :
    detour.Runs (Parser.iterate step begun) before after same := by
  intro taken state here
  obtain ⟨_, between, diagnostic, run, ⟨onward, rfl, holds⟩, midway, reports, reported⟩ := runs here
  obtain ⟨b, final, rests, made, done, kept⟩ := past holds midway
  refine ⟨b, final, diagnostic, ?_, made, done, reports, kept.trans reported⟩
  rw [iterate_next run, rests]
  rw [midway.length_rest, here.length_rest]
  exact Nat.lt_add_right _ fewer

/-- A loop comes to the junk after a step in front of it. -/
theorem iterate_behind {step : σ → Parser (Step σ β)} {begun onward : σ}
    (ahead : ∀ {taken : List Token} {state : State}, detour.Ahead taken before state →
      ∃ final, step begun detour.input state = (some (.again onward), final) ∧ detour.Ahead
        left middle final ∧ final.diagnostics = state.diagnostics)
    (fewer : middle.rest.length < before.rest.length)
    (runs : detour.Runs (Parser.iterate step onward) middle after same) :
    detour.Runs (Parser.iterate step begun) before after same := by
  intro taken state here
  obtain ⟨between, run, midway, kept⟩ := ahead here
  obtain ⟨b, final, diagnostic, rests, made, done, reports, reported⟩ := runs midway
  refine ⟨b, final, diagnostic, ?_, made, done, reports, reported.trans (by rw [kept])⟩
  rw [iterate_next run, rests]
  rw [midway.length_rest, here.length_rest]
  exact Nat.add_lt_add_right fewer _

end Runs

namespace Crosses

variable {same : α → Prop}

/-- What a condition chooses in the first text it chooses in the second one as well. -/
theorem ite {guard : Guard} {chosen other : Parser α}
    (crosses : detour.Crosses (if guard.holds before.cursor then chosen else other)
      before after same) : detour.Crosses (cursor >>= fun here => if guard.holds
      here then chosen else other) before after same := by
  refine ⟨crosses.comes, fun {taken state} here => ?_⟩
  have asks : guard.holds state.cursor = guard.holds before.cursor :=
    here.abreast.holds_eq guard fun parted => crosses.comes.settled here.abreast.here parted guard
  rw [← asks] at crosses
  exact crosses.runs here

/-- What crosses the junk does so in a scope of its own as well, if nothing in the scope is left to
be resolved. -/
theorem inScope {inside : Stage}
    (crosses : detour.Crosses parser { before with tracker := before.tracker.push } inside same)
    (resolved : inside.tracker.pop.2 = []) :
    detour.Crosses (Parser.inScope parser) before { inside with tracker := inside.tracker.pop.1 }
      same := by
  refine ⟨crosses.comes, fun {taken state} here => ?_⟩
  have pushed : detour.Ahead taken { before with tracker := before.tracker.push }
      { state with tracker := state.tracker.push } :=
    ⟨here.abreast.withTracker (congrArg Tracker.push here.abreast.tracker), here.live.live,
      here.live.reached⟩
  obtain ⟨b, final, diagnostic, run, holds, done, reports, reported⟩ := crosses.runs pushed
  have resolvedAgain : final.tracker.pop.2 = [] := done.follows.similar.resolved resolved
  refine ⟨b, { final with tracker := final.tracker.pop.1 }, diagnostic, ?_, holds, ?_,
    reports, reported⟩
  · rw [Parser.inScope, run]
    dsimp only
    rw [resolvedAgain]
    exact congrArg
      (fun diagnostics =>
        (some b, ({ final with tracker := final.tracker.pop.1, diagnostics } : State)))
      (Diagnostics.append_nil final.diagnostics)
  · exact ⟨done.follows.withTracker done.follows.similar.pop, done.live.live, done.live.reached⟩

end Crosses

/-! ## At the junk -/

/-- Behind the junk the second text goes on as the first one does. -/
theorem Past.of_junk {stage : Stage} (rest : stage.rest = detour.left)
    (twin : state.cursor.rest =
      detour.refused :: (detour.junk ++ detour.left.map (.move detour.origin detour.target)))
    (live : state.Live detour.first) (tracker : state.tracker = stage.tracker)
    (nextId : state.nextId = stage.nextId) :
    detour.Past stage (state.afterJunk detour.junk) := by
  have behind : (state.cursor.next.advance detour.junk.length).rest =
      detour.left.map (.move detour.origin detour.target) := by
    rw [Cursor.rest_advance, Cursor.rest_next, twin]
    simp
  refine ⟨⟨?_, ?_, ⟨congrArg Tracker.unplaced tracker, nextId⟩⟩,
    live.live, live.reached.trans ⟨detour.junk.length + 1, rfl⟩⟩
  · rw [rest]
    exact behind
  · rw [rest]
    exact detour.within

/-- The junk is reported. -/
theorem reports_refusal {state : State} (next : state.cursor.peek = detour.refused) :
    detour.Reports state.refusal := by
  refine ⟨by rw [span_refusal, next], fun isKeyword => ?_⟩
  rw [State.refusal, next, isKeyword]
  rfl

end Detour

end CirText
