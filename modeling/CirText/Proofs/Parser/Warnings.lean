import CirText.Proofs.Parser.Inherited
import CirText.Proofs.Parser.Reads

/-!
# Warnings in a run without errors

In a run that reports no error nothing is dropped that has been read. `Warns` says which warnings of
deprecated forms are given in such a run. Only three grammars give any; what parsers of other parts
read is known from their meaning, and they are mute. Whatever a parser does, it only goes forward in
the tokens.
-/

namespace CirText

/-- Whether a cursor is reached from another one by going forward. -/
def Cursor.Reaches (before after : Cursor) : Prop :=
  ∃ count, after = before.advance count

theorem Cursor.Reaches.refl (cursor : Cursor) : cursor.Reaches cursor :=
  ⟨0, rfl⟩

theorem Cursor.Reaches.trans {first middle last : Cursor} (left : first.Reaches middle)
    (right : middle.Reaches last) : first.Reaches last := by
  obtain ⟨count, rfl⟩ := left
  obtain ⟨more, rfl⟩ := right
  exact ⟨count + more, first.advance_add count more⟩

theorem Cursor.Reaches.length_le {before after : Cursor} (reaches : before.Reaches after) :
    after.rest.length ≤ before.rest.length := by
  obtain ⟨count, rfl⟩ := reaches
  rw [Cursor.rest_advance, List.length_drop]
  exact Nat.sub_le _ _

theorem Cursor.Reaches.position_add_length {before after : Cursor}
    (reaches : before.Reaches after) :
    after.position + after.rest.length = before.position + before.rest.length := by
  obtain ⟨count, rfl⟩ := reaches
  exact before.position_add_length_advance count

theorem Cursor.Reaches.position_le {before after : Cursor} (reaches : before.Reaches after) :
    before.position ≤ after.position := by
  have fewer := reaches.length_le
  have kept := reaches.position_add_length
  omega

theorem Cursor.Reaches.next (cursor : Cursor) : cursor.Reaches cursor.next :=
  ⟨1, rfl⟩

namespace Parser

variable {α β σ : Type}

/-- The warnings of deprecated forms in a state. -/
def State.deprecations (state : State) : List Diagnostic :=
  state.diagnostics.items.toList.filter Diagnostic.isDeprecated

/-! ## Parsers that give no warnings -/

/-- Whether a parser never warns of a deprecated form. -/
def Mute (parser : Parser α) : Prop :=
  ∀ input state, (parser input state).2.deprecations = state.deprecations

theorem deprecations_push {diagnostic : Diagnostic} (other : diagnostic.isDeprecated = false)
    (state : State) :
    State.deprecations { state with diagnostics := state.diagnostics.push diagnostic } =
      state.deprecations := by
  simp [State.deprecations, Diagnostics.push, other]

theorem deprecations_append {more : List Diagnostic}
    (others : ∀ diagnostic ∈ more, diagnostic.isDeprecated = false) (state : State) :
    State.deprecations { state with diagnostics := state.diagnostics.append more } =
      state.deprecations := by
  have none_ : more.filter Diagnostic.isDeprecated = [] :=
    List.filter_eq_nil_iff.2 fun diagnostic member => by simp [others diagnostic member]
  simp [State.deprecations, Diagnostics.append, none_]

theorem mute_checkHalted : Mute checkHalted := by
  intro input state
  unfold checkHalted
  split
  · rfl
  · split
    · exact deprecations_push rfl state
    · rfl

theorem mute_define (kind : NameKind) (found : Token) : Mute (define kind found) := by
  intro input state
  unfold define Tracker.define
  cases clash : state.tracker.clash? kind found.name with
  | none => rfl
  | some earlier => exact deprecations_push rfl state

theorem mute_embed (language : Sublanguage) (adapter : Adapters → Adapter α) :
    Mute (embed language adapter) := by
  intro input state
  unfold embed
  cases (adapter input.adapters).read input.source state.cursor with
  | ok found => rfl
  | error error => exact deprecations_push rfl state

theorem mute_inScope {parser : Parser α} (inner : Mute parser) : Mute (inScope parser) := by
  intro input state
  have ran := inner input { state with tracker := state.tracker.push }
  refine Eq.trans (deprecations_append ?_ _) ran
  intro diagnostic member
  obtain ⟨verdict, _, rfl⟩ := List.mem_map.1 member
  rfl

/-- Giving no warnings is inherited. -/
theorem inherited_mute : Inherited Mute where
  pure a _ _ := rfl
  fail _ _ := rfl
  cursor _ _ := rfl
  halted _ _ := rfl
  construct _ _ := rfl
  scope _ _ := rfl
  skip _ _ := rfl
  halt _ _ := rfl
  takeId _ _ := rfl
  resynchronize start _ state := by
    change (if state.halted then _ else _ : State).deprecations = _
    split <;> rfl
  report common _ state := deprecations_push (Diagnostic.isDeprecated_of_isCommon common) state
  reportAll common _ state := deprecations_append (fun diagnostic member =>
    Diagnostic.isDeprecated_of_isCommon (common diagnostic member)) state
  reportExpected what _ state := deprecations_push rfl state
  noteUse kind found _ _ := rfl
  define := mute_define
  type := mute_embed _ _
  attributeOf _ := mute_embed _ _
  checkHalted := mute_checkHalted
  maxDepth all input state := all input.options.maxDepth input state
  bind := leads_bind (fun before after => after.deprecations = before.deprecations)
    fun left right => right.trans left
  attempt inner := inner
  naming construct inner input state := inner input { state with construct }
  inScope := mute_inScope
  iterate := leads_iterate (fun before after => after.deprecations = before.deprecations)
    fun left right => right.trans left

/-! ## Going forward -/

/-- Whether a parser only goes forward. -/
def Forward (parser : Parser α) : Prop :=
  ∀ (input : Input) (state : State), state.cursor.Reaches (parser input state).2.cursor

theorem forward_of_eq {parser : Parser α}
    (same : ∀ input state, (parser input state).2.cursor = state.cursor) : Forward parser :=
  fun input state => ⟨0, same input state⟩

theorem forward_resynchronize (start : Cursor) : Forward (resynchronize start) := by
  intro input state
  unfold resynchronize change
  dsimp only
  split
  · exact .refl _
  · split
    · exact (Cursor.Reaches.next _).trans ⟨_, rfl⟩
    · exact ⟨_, rfl⟩

theorem forward_embed (language : Sublanguage) (adapter : Adapters → Adapter α) :
    Forward (embed language adapter) := by
  intro input state
  unfold embed
  cases found : (adapter input.adapters).read input.source state.cursor with
  | ok given =>
    obtain ⟨count, _, moved⟩ := (adapter input.adapters).advances found
    exact ⟨count + 1, moved⟩
  | error error => exact .refl _

theorem forward_checkHalted : Forward checkHalted := by
  refine forward_of_eq fun input state => ?_
  unfold checkHalted
  split
  · rfl
  · split <;> rfl

/-- Going forward is inherited. -/
theorem inherited_forward : Inherited Forward where
  pure _ := forward_of_eq fun _ _ => rfl
  fail := forward_of_eq fun _ _ => rfl
  cursor := forward_of_eq fun _ _ => rfl
  halted := forward_of_eq fun _ _ => rfl
  construct := forward_of_eq fun _ _ => rfl
  scope := forward_of_eq fun _ _ => rfl
  skip _ _ := .next _
  halt := forward_of_eq fun _ _ => rfl
  takeId := forward_of_eq fun _ _ => rfl
  resynchronize := forward_resynchronize
  report _ := forward_of_eq fun _ _ => rfl
  reportAll _ := forward_of_eq fun _ _ => rfl
  reportExpected _ := forward_of_eq fun _ _ => rfl
  noteUse _ _ := forward_of_eq fun _ _ => rfl
  define _ _ := forward_of_eq fun _ _ => rfl
  type := forward_embed _ _
  attributeOf _ := forward_embed _ _
  checkHalted := forward_checkHalted
  maxDepth all input state := all input.options.maxDepth input state
  bind := leads_bind (fun before after => before.cursor.Reaches after.cursor)
    fun left right => left.trans right
  attempt inner := inner
  naming construct inner input state := inner input { state with construct }
  inScope inner input state := inner input { state with tracker := state.tracker.push }
  iterate := leads_iterate (fun before after => before.cursor.Reaches after.cursor)
    fun left right => left.trans right

/-- Where something is read by a parser that only goes forward, the cursor has gone forward. -/
theorem Means.reaches {parser : Parser α} {meaning : Meaning α} (means : Means parser meaning)
    (forward : Forward parser) {source : List Char} {before after : Stage} {a : α}
    (reads : meaning source before a after) : before.cursor.Reaches after.cursor := by
  let state : State :=
    { cursor := before.cursor, tracker := before.tracker, nextId := before.nextId }
  obtain ⟨final, run, rfl, _⟩ :=
    means.complete ⟨source, {}, .structural⟩ state a after rfl (by rintro _ ⟨⟨⟩⟩) rfl
      (fun _ _ => rfl) reads
  have reaches := forward ⟨source, {}, .structural⟩ state
  rw [run] at reaches
  exact reaches

/-! ## Warnings that are owed -/

/-- Whether warnings are the ones that are owed, in some order. None that is owed is missing. -/
def Settles (new : List Diagnostic) (owed : List (Option Diagnostic)) : Prop :=
  (new.map some).Perm owed

theorem Settles.nil : Settles [] [] :=
  .refl _

theorem Settles.append {new more : List Diagnostic} {owed others : List (Option Diagnostic)}
    (left : Settles new owed) (right : Settles more others) :
    Settles (new ++ more) (owed ++ others) := by
  rw [Settles, List.map_append]
  exact List.Perm.append left right

theorem Settles.congr {new : List Diagnostic} {owed others : List (Option Diagnostic)}
    (settles : Settles new owed) (same : owed.Perm others) : Settles new others :=
  settles.trans same

/-! ## Parsers that warn -/

/-- Whether warnings of deprecated forms are switched on, with the adapters by default. -/
structure Input.Watches (input : Input) : Prop where
  deprecations : input.options.deprecations = true
  structural : input.adapters = .structural

/-- Whether the warnings that a parser gives in a run without errors, what it reads and the stages
before and after are related. The run is one from the given cursor on. -/
def Warns (first : Cursor) (parser : Parser α) (post : List Diagnostic → Meaning α) : Prop :=
  ∀ (input : Input) (state : State), input.Watches →
    (parser input state).2.diagnostics.Clean → state.diagnostics.Clean ∧
      (state.halted = false → first.Reaches state.cursor → (parser input state).2.halted = false ∧
        state.cursor.Reaches (parser input state).2.cursor ∧
          ∃ a new, (parser input state).1 = some a ∧
            (parser input state).2.deprecations = state.deprecations ++ new ∧
            post new input.source state.stage a (parser input state).2.stage)

namespace Warns

variable {first : Cursor} {parser : Parser α} {post : List Diagnostic → Meaning α}

/-- Where a parser that warns starts and ends has been reached. -/
theorem reached (h : Warns first parser post) : Warns first parser fun new source before a after =>
    post new source before a after ∧ first.Reaches before.cursor ∧
      before.cursor.Reaches after.cursor := by
  intro input state warns clean
  obtain ⟨before, given⟩ := h input state warns clean
  refine ⟨before, fun live here => ?_⟩
  obtain ⟨stillLive, onward, a, new, outcome, added, holds⟩ := given live here
  exact ⟨stillLive, onward, a, new, outcome, added, holds, here, onward⟩

theorem mono {weaker : List Diagnostic → Meaning α} (h : Warns first parser post)
    (implies : ∀ new source before a after, post new source before a after →
      weaker new source before a after) :
    Warns first parser weaker := by
  intro input state warns clean
  obtain ⟨before, given⟩ := h input state warns clean
  refine ⟨before, fun live here => ?_⟩
  obtain ⟨stillLive, onward, a, new, outcome, added, holds⟩ := given live here
  exact ⟨stillLive, onward, a, new, outcome, added, implies _ _ _ _ _ holds⟩

/-- A mute parser does what it means and gives no warnings. -/
theorem ofMeans {meaning : Meaning α} (means : Means parser meaning) (mute : Mute parser)
    (advances : Forward parser) :
    Warns first parser fun new source before a after => new = [] ∧
      meaning source before a after := by
  intro input state warns clean
  obtain ⟨before, given⟩ := means.sound input state warns.structural clean
  refine ⟨before, fun live here => ?_⟩
  obtain ⟨stillLive, a, outcome, related⟩ := given live
  refine ⟨stillLive, advances input state, a, [], outcome, ?_, rfl, related⟩
  rw [mute, List.append_nil]

/-- A mute parser gives no warnings. -/
theorem silent {meaning : Meaning α} (means : Means parser meaning) (mute : Mute parser)
    (advances : Forward parser) : Warns first parser fun new _ _ _ _ => new = [] :=
  (ofMeans means mute advances).mono fun _ _ _ _ _ related => related.1

/-- What a parser warns of, together with what it means. -/
theorem withMeaning {meaning : Meaning α} (h : Warns first parser post)
    (means : Means parser meaning) :
    Warns first parser fun new source before a after =>
      post new source before a after ∧ meaning source before a after := by
  intro input state warns clean
  obtain ⟨before, given⟩ := h input state warns clean
  refine ⟨before, fun live here => ?_⟩
  obtain ⟨stillLive, onward, a, new, outcome, added, holds⟩ := given live here
  obtain ⟨_, b, same, related⟩ := (means.sound input state warns.structural clean).2 live
  rw [outcome] at same
  cases same
  exact ⟨stillLive, onward, a, new, outcome, added, holds, related⟩

/-! ### Sequences and choices -/

theorem pure (a : α) :
    Warns first (Pure.pure a) fun new _ before b after => new = [] ∧ b = a ∧ after = before :=
  ofMeans (.pure a) (inherited_mute.pure a) (inherited_forward.pure a)

theorem bind {next : α → Parser β} {posts : α → List Diagnostic → Meaning β}
    (start : Warns first parser post)
    (second : ∀ a, Warns first (next a) (posts a)) :
    Warns first (parser >>= next) fun new source before b after => ∃ a middle early late,
      new = early ++ late ∧ post early source before a middle ∧
        posts a late source middle b after := by
  intro input state warns clean
  rw [bind_run] at clean ⊢
  have ran := start input state warns
  cases run : parser input state with
  | mk outcome middle =>
    rw [run] at clean ran
    cases outcome with
    | none =>
      obtain ⟨before, given⟩ := ran clean
      refine ⟨before, fun live here => ?_⟩
      obtain ⟨_, _, _, _, ⟨⟩, _⟩ := given live here
    | some a =>
      obtain ⟨between, continues⟩ := second a input middle warns clean
      obtain ⟨before, given⟩ := ran between
      refine ⟨before, fun live here => ?_⟩
      obtain ⟨middleLive, onward, _, early, ⟨⟩, added, holds⟩ := given live here
      obtain ⟨lastLive, further, b, late, outcome, more, goesOn⟩ :=
        continues middleLive (here.trans onward)
      refine ⟨lastLive, onward.trans further, b, early ++ late, outcome, ?_, a,
        middle.stage, early, late,
        rfl, holds, goesOn⟩
      change (next a input middle).2.deprecations = _
      rw [more, added, List.append_assoc]

theorem map {f : α → β} (h : Warns first parser post) :
    Warns first (f <$> parser) fun new source before b after =>
      ∃ a, post new source before a after ∧ b = f a := by
  refine (h.bind fun a => pure (f a)).mono ?_
  rintro _ source before b after ⟨a, _, new, _, rfl, holds, rfl, rfl, rfl⟩
  exact ⟨a, (List.append_nil new).symm ▸ holds, rfl⟩

/-- Looking at the position. -/
theorem cursor {next : Cursor → Parser β} {posts : Cursor → List Diagnostic → Meaning β}
    (h : ∀ here, Warns first (next here) (posts here)) :
    Warns first (Parser.cursor >>= next) fun new source before =>
      posts before.cursor new source before :=
  fun input state => h state.cursor input state

/-- Looking at the state, when what is owed does not depend on what is seen. -/
theorem look {read : State → α} {next : α → Parser β} {post : List Diagnostic → Meaning β}
    (h : ∀ seen, Warns first (next seen) post) : Warns first (Parser.look read >>= next) post :=
  fun input state => h (read state) input state

theorem ite {condition : Prop} [Decidable condition] {other : Parser α}
    (yes : condition → Warns first parser post) (no : ¬condition → Warns first other post) :
    Warns first (if condition then parser else other) post := by
  split
  · exact yes ‹_›
  · exact no ‹_›

theorem naming {construct : String} (h : Warns first parser post) :
    Warns first (Parser.naming construct parser) post :=
  fun input state => h input { state with construct }

/-- A parser whose runs all report an error warns of whatever one likes. -/
theorem wrong (h : Means parser fun _ _ _ _ => False) : Warns first parser post := by
  intro input state warns clean
  obtain ⟨before, given⟩ := h.sound input state warns.structural clean
  refine ⟨before, fun live here => ?_⟩
  obtain ⟨_, _, _, ⟨⟩⟩ := given live

/-- What comes after a part that might fail, but does not. -/
theorem attempt_bind {next : Option α → Parser β} {posts : α → List Diagnostic → Meaning β}
    (start : Warns first parser post) (given : ∀ a, Warns first (next (some a)) (posts a))
    (keeps : ∀ input state, (next none input state).2.diagnostics.Clean → state.diagnostics.Clean) :
    Warns first (Parser.attempt parser >>= next) fun new source before b after =>
      ∃ a middle early late, new = early ++ late ∧ post early source before a middle ∧
        posts a late source middle b after := by
  intro input state warns clean
  rw [attempt_bind_run] at clean ⊢
  have ran := start input state warns
  cases run : parser input state with
  | mk outcome middle =>
    rw [run] at clean ran
    cases outcome with
    | none =>
      obtain ⟨before, holds⟩ := ran (keeps input middle clean)
      refine ⟨before, fun live here => ?_⟩
      obtain ⟨_, _, _, _, ⟨⟩, _⟩ := holds live here
    | some a =>
      obtain ⟨between, continues⟩ := given a input middle warns clean
      obtain ⟨before, holds⟩ := ran between
      refine ⟨before, fun live here => ?_⟩
      obtain ⟨middleLive, onward, _, early, ⟨⟩, added, holds⟩ := holds live here
      obtain ⟨lastLive, further, b, late, outcome, more, goesOn⟩ :=
        continues middleLive (here.trans onward)
      refine ⟨lastLive, onward.trans further, b, early ++ late, outcome, ?_, a,
        middle.stage, early, late,
        rfl, holds, goesOn⟩
      change (next (some a) input middle).2.deprecations = _
      rw [more, added, List.append_assoc]

/-- Consuming an optional mark warns of nothing. -/
theorem eat (mark : Punct) :
    Warns first (Parser.eat mark) fun new _ before _ after =>
      new = [] ∧ after.rest.length ≤ before.rest.length := by
  have means := Means.cursor fun here => Means.ite
    (fun _ : here.atPunct mark = true => Means.skip.bind fun _ => Means.pure true) fun _ =>
      Means.pure false
  refine (ofMeans means (inherited_mute.eat mark) (inherited_forward.eat mark)).reached.mono ?_
  rintro new source before eaten after ⟨⟨rfl, _⟩, _, onward⟩
  exact ⟨rfl, onward.length_le⟩

/-! ### Early ends -/

/-- Looking whether parsing has come to an early end, which it has not. -/
theorem halted {next : Bool → Parser α} (h : Warns first (next false) post)
    (keeps : ∀ input state, (next true input state).2.diagnostics.Clean → state.diagnostics.Clean) :
    Warns first (Parser.look (·.halted) >>= next) post := by
  intro input state warns clean
  rw [Means.halted_run] at clean ⊢
  cases halted : state.halted with
  | true =>
    rw [halted] at clean
    exact ⟨keeps input state clean, by rintro ⟨⟩⟩
  | false =>
    rw [halted] at clean
    obtain ⟨before, given⟩ := h input state warns clean
    exact ⟨before, fun _ => given halted⟩

/-- Asking whether parsing is to end early, which it is not. -/
theorem checkHalted {next : Bool → Parser α} (h : Warns first (next false) post)
    (keeps : ∀ input state, (next true input state).2.diagnostics.Clean → state.diagnostics.Clean) :
    Warns first (Parser.checkHalted >>= next) post := by
  intro input state warns clean
  rw [bind_run] at clean ⊢
  unfold Parser.checkHalted at clean ⊢
  cases halted : state.halted with
  | true =>
    rw [halted, if_pos rfl] at clean
    exact ⟨keeps input state clean, by rintro ⟨⟩⟩
  | false =>
    rw [halted, if_neg Bool.false_ne_true] at clean
    rw [if_neg Bool.false_ne_true]
    cases cancelled : input.options.cancellation.isSet (countReadings .type state.readings)
      (countReadings .attribute state.readings) with
    | true =>
      rw [cancelled, if_pos rfl] at clean
      exact absurd (keeps input _ clean) (Means.not_clean_error rfl)
    | false =>
      rw [cancelled, if_neg Bool.false_ne_true] at clean
      rw [if_neg Bool.false_ne_true]
      obtain ⟨before, given⟩ := h input state warns clean
      exact ⟨before, fun _ => given halted⟩

/-! ### Scopes and warnings -/

/-- A parser in a scope of its own, when what it warns of does not depend on scopes. -/
theorem inScope {post : List Diagnostic → α → Cursor → Prop}
    (h : Warns first parser fun new _ _ a after => post new a after.cursor) :
    Warns first (Parser.inScope parser) fun new _ _ a after => post new a after.cursor := by
  intro input state warns clean
  obtain ⟨inside, unresolved⟩ := Diagnostics.clean_append.1 clean
  obtain ⟨before, given⟩ := h input { state with tracker := state.tracker.push } warns inside
  refine ⟨before, fun live here => ?_⟩
  obtain ⟨stillLive, onward, a, new, outcome, added, holds⟩ := given live here
  refine ⟨stillLive, onward, a, new, outcome, ?_, holds⟩
  refine Eq.trans (deprecations_append ?_ _) added
  intro diagnostic member
  obtain ⟨verdict, _, rfl⟩ := List.mem_map.1 member
  rfl

theorem warnDeprecated (opcode : Opcode) (message : String) (span : Span) :
    Warns first (Parser.warnDeprecated opcode message span) fun new _ before _ after =>
      new = [.warning (.deprecated opcode message) span] ∧ after = before := by
  intro input state warns clean
  rw [warnDeprecated_run, warns.deprecations, if_pos rfl] at clean ⊢
  refine ⟨(Diagnostics.clean_push.1 clean).1, fun live here =>
    ⟨live, .refl _, (), _, rfl, ?_, rfl, rfl⟩⟩
  simp [State.deprecations, Diagnostics.push, Diagnostic.isDeprecated, Diagnostic.warning]

/-! ### Loops -/

/-- What a loop has to warn of so far and in the end. -/
def Owes (owed : σ → List (Option Diagnostic)) (total : β → List (Option Diagnostic))
    (accumulated : σ) (new : List Diagnostic) : Step σ β → Prop
  | .again next => (owed next).Perm (owed accumulated ++ new.map some)
  | .done result => (total result).Perm (owed accumulated ++ new.map some)

theorem iterate {step : σ → Parser (Step σ β)} {owed : σ → List (Option Diagnostic)}
    {total : β → List (Option Diagnostic)}
    (steps : ∀ accumulated, Warns first (step accumulated) fun new _ before outcome after =>
      Owes owed total accumulated new outcome ∧
        ∀ next, outcome = .again next → after.rest.length < before.rest.length) (accumulated : σ) :
    Warns first (Parser.iterate step accumulated) fun new _ _ result _ =>
      (total result).Perm (owed accumulated ++ new.map some) := by
  intro input state warns
  induction accumulated, state using iterate_induction step input with
  | failed accumulated state final run ran =>
    intro clean
    rw [ran] at clean ⊢
    have ran := steps accumulated input state warns
    rw [run] at ran
    obtain ⟨before, given⟩ := ran clean
    refine ⟨before, fun live here => ?_⟩
    obtain ⟨_, _, _, _, ⟨⟩, _⟩ := given live here
  | done accumulated state result final run ran =>
    intro clean
    rw [ran] at clean ⊢
    have ran := steps accumulated input state warns
    rw [run] at ran
    obtain ⟨before, given⟩ := ran clean
    refine ⟨before, fun live here => ?_⟩
    obtain ⟨stillLive, onward, _, new, ⟨⟩, added, owes, _⟩ := given live here
    exact ⟨stillLive, onward, result, new, rfl, added, owes⟩
  | stuck accumulated state further final run stuck ran =>
    intro clean
    rw [ran] at clean ⊢
    have ran := steps accumulated input state warns
    rw [run] at ran
    obtain ⟨before, given⟩ := ran clean
    refine ⟨before, fun live here => ?_⟩
    obtain ⟨_, _, _, _, ⟨⟩, _, _, progress⟩ := given live here
    exact absurd (progress further rfl) stuck
  | again accumulated state further middle run fewer ran ih =>
    intro clean
    rw [ran] at clean ⊢
    have ran := steps accumulated input state warns
    rw [run] at ran
    obtain ⟨between, continues⟩ := ih clean
    obtain ⟨before, given⟩ := ran between
    refine ⟨before, fun live here => ?_⟩
    obtain ⟨stillLive, onward, _, early, ⟨⟩, added, owes, _⟩ := given live here
    obtain ⟨lastLive, later, result, late, outcome, more, all⟩ :=
      continues stillLive (here.trans onward)
    refine ⟨lastLive, onward.trans later, result, early ++ late, outcome, ?_, ?_⟩
    · rw [more, added, List.append_assoc]
    · change (total result).Perm (owed accumulated ++ (early ++ late).map some)
      rw [List.map_append, ← List.append_assoc]
      exact all.trans (owes.append_right _)

/-- A loop that collects items warns of what is owed for them. -/
theorem collect {step : Parser (Option α × Bool)} {owed : α → List (Option Diagnostic)}
    (steps : Warns first step fun new _ before found after =>
      Settles new (found.1.toList.flatMap owed) ∧
        (found.2 = true → after.rest.length < before.rest.length)) :
    Warns first (Parser.collect step) fun new _ _ items _ => Settles new (items.flatMap owed) := by
  let total : List α → List (Option Diagnostic) := fun items => items.reverse.flatMap owed
  have oneStep : ∀ items : List α, Warns first (do
      let outcome ← step
      let items := outcome.1.toList ++ items
      Pure.pure (if outcome.2 then Step.again items else .done items))
      fun new _ before outcome after =>
        Owes total total items new outcome ∧
          ∀ next, outcome = .again next → after.rest.length < before.rest.length := by
    intro items
    refine (steps.bind fun outcome => pure _).mono ?_
    rintro _ source before _ after ⟨⟨found, goesOn⟩, _, new, _, rfl, ⟨given, progress⟩,
      rfl, rfl, rfl⟩
    have all : (total (found.toList ++ items)).Perm (total items ++ (new ++ []).map some) := by
      have reversed : total (found.toList ++ items) = total items ++ found.toList.flatMap owed := by
        cases found <;> simp [total, List.flatMap_append]
      rw [reversed, List.append_nil]
      exact given.symm.append_left _
    cases goesOn with
    | true => exact ⟨all, fun _ _ => progress rfl⟩
    | false => exact ⟨all, by rintro _ ⟨⟩⟩
  refine (map (iterate oneStep [])).mono ?_
  rintro new source before _ after ⟨reversed, all, rfl⟩
  exact all.symm

end Warns

end Parser

end CirText
