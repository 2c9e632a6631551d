import CirText.Proofs.Headers
import CirText.Proofs.Parser.Detour
import CirText.Proofs.Reread.Regions

/-!
# Grammars across a detour

If the junk stands in a region of a value, what comes before the region in the value is read in
front of the junk and what comes behind it is read behind the junk. The value is the same but for
its places.
-/

namespace CirText

open CirText.Parser

variable {R X : Type}

/-! ## Values that are the same -/

namespace Grammar

/-- Values that are the same but for their places have the same regions. -/
theorem map_regionsOf_of_same {f : R → X} {α : Type} {grammar : Grammar R α} {allowed : Bool}
    (tidy : grammar.recommendsLast allowed = true) {a b : α} (same : grammar.Same f a b) :
    (grammar.regionsOf a).map f = (grammar.regionsOf b).map f := by
  have plain : ∀ {α : Type} {grammar : Grammar R α} {a b : α}, grammar.isPlain = true →
      (grammar.regionsOf a).map f = (grammar.regionsOf b).map f := by
    intro α grammar a b isPlain
    rw [regionsOf_plain isPlain, regionsOf_plain isPlain]
  induction grammar generalizing allowed with
  | blank | punct | word | lexeme | oneOf | name | definition | type | attributeOf | namedAttribute
  | trailingAttribute | modifierRun => exact plain rfl
  | separated item | listed item | listedWithEllipsis item | repeated next item | spanned inner
  | binder what inner => exact plain tidy
  | recommended opcode warning inner => exact @plain _ inner _ _ (Bool.and_eq_true_iff.1 tidy).2
  | seq first second ihFirst ihSecond =>
    obtain ⟨tidyFirst, tidySecond⟩ := Bool.and_eq_true_iff.1 tidy
    rw [regionsOf_seq, regionsOf_seq, List.map_append, List.map_append, ihFirst tidyFirst same.1,
      ihSecond tidySecond same.2]
  | view as inner ih =>
    obtain ⟨x, y, same, rfl, rfl⟩ := same
    rw [regionsOf_view, regionsOf_view, ih tidy same]
  | optional present inner ih =>
    cases same with
    | none => rfl
    | some same => exact ih tidy same
  | choice isFirst first second ihFirst ihSecond =>
    obtain ⟨tidyFirst, tidySecond⟩ := Bool.and_eq_true_iff.1 tidy
    cases same with
    | inl same => exact ihFirst tidyFirst same
    | inr same => exact ihSecond tidySecond same
  | bracketed separator item ih =>
    rw [regionsOf_bracketed, regionsOf_bracketed, List.map_flatMap, List.map_flatMap,
      List.flatMap_def, List.flatMap_def, map_eq_of_forall₂ same fun _ _ same => ih tidy same]
  | inScope inner ih => exact ih tidy same
  | region kind implicitTerminator => exact congrArg (fun x => [x]) same

/-- Nothing is written in a deprecated form in the regions of what is the same but for its
places. -/
theorem calm_of_same {options : Options} {α : Type} {grammar : Grammar (Region Operation) α}
    {allowed : Bool} (tidy : grammar.recommendsLast allowed = true) {a b : α}
    (same : grammar.Same Region.outline a b)
    (calm : ∀ inner ∈ grammar.regionsOf a, inner.Calm options) :
    ∀ inner ∈ grammar.regionsOf b, inner.Calm options := by
  intro inner member
  have listed : inner.outline ∈ (grammar.regionsOf a).map Region.outline := by
    rw [map_regionsOf_of_same tidy same]
    exact List.mem_map_of_mem member
  obtain ⟨twin, isTwin, outline⟩ := List.mem_map.1 listed
  exact Region.calm_of_outline outline (calm twin isTwin)

/-- What is read is the same as itself. -/
theorem same_self {region : RegionKind → Bool → Meaning R} {source : List Char}
    {before after : Stage} (f : R → X)
    {α : Type} {grammar : Grammar R α} (stable : grammar.Stable) {a : α}
    (reads : grammar.Reads region source before a after) : grammar.Same f a a := by
  have all : ∀ {α : Type} {item : Grammar R α} {items : List α}, (∀ a ∈ items, item.Same f a a) →
      List.Forall₂ (item.Same f) items items := fun each => List.forall₂_same.2 each
  induction grammar generalizing before after with
  | blank | punct | word => exact trivial
  | lexeme | oneOf | name | definition | type | attributeOf | namedAttribute | trailingAttribute
  | region => rfl
  | seq first second ihFirst ihSecond =>
    obtain ⟨middle, readsFirst, readsSecond⟩ := reads
    exact ⟨ihFirst stable.1 readsFirst, ihSecond stable.2 readsSecond⟩
  | view as inner ih =>
    obtain ⟨x, reads, rfl⟩ := reads
    exact ⟨x, x, ih stable reads, rfl, rfl⟩
  | optional present inner ih =>
    rw [Reads] at reads
    split at reads
    · obtain ⟨x, reads, rfl⟩ := reads
      exact .some (ih stable reads)
    · obtain ⟨rfl, rfl⟩ := reads
      exact .none
  | choice isFirst first second ihFirst ihSecond =>
    rw [Reads] at reads
    split at reads
    · obtain ⟨x, reads, rfl⟩ := reads
      exact .inl (ihFirst stable.1 reads)
    · obtain ⟨y, reads, rfl⟩ := reads
      exact .inr (ihSecond stable.2 reads)
  | separated item ih =>
    have each := List.forall_mem_cons.1 (separatedReads_forall (fun reads => ih stable reads) reads)
    exact ⟨each.1, all each.2⟩
  | listed item ih => exact all (listedReads_forall (fun reads => ih stable reads) reads)
  | listedWithEllipsis item ih =>
    exact ⟨all (listedWithEllipsisReads_forall (fun reads => ih stable reads) reads), rfl⟩
  | bracketed separator item ih =>
    obtain ⟨_, _, _, reads⟩ := reads
    exact all (bracketedReads_forall (fun reads => ih stable reads) reads)
  | repeated next item ih => exact all (repeatedReads_forall (fun reads => ih stable reads) reads)
  | modifierRun table =>
    obtain ⟨unplaced, stable⟩ := stable
    exact ⟨table.list a, (stable.collect_list a).symm, rfl⟩
  | spanned inner ih => exact ih stable reads.1
  | binder what inner ih =>
    obtain ⟨_, _, _, _, reads, _⟩ := reads
    exact ⟨rfl, ih stable reads⟩
  | inScope inner ih =>
    obtain ⟨_, reads, _⟩ := reads
    exact ih stable reads
  | recommended opcode warning inner ih => exact ih stable reads

end Grammar

/-! ## Lists -/

namespace Parser

variable {α : Type} {input : Input} {state next : State}

/-- A step through a list in brackets. -/
def bracketedStep (separator : Separator) (item : Parser α) : Parser (Option α × Bool) := do
  if ← eat .rightBracket then
    Pure.pure (none, false)
  else if (← cursor).atEnd then
    expected "`]`"
  else
    let found ← item
    if separator = .comma then
      let _ ← eat .comma
    Pure.pure (some found, true)

theorem bracketed_eq (separator : Separator) (item : Parser α) :
    bracketed separator item = (do
      let _ ← punct .leftBracket
      List.reverse <$> iterate (collecting (bracketedStep separator item)) []) :=
  rfl

/-- The state behind a separator that may be left out. -/
def State.pastSeparator (state : State) : Separator → State
  | .comma =>
    if state.cursor.atPunct .comma then { state with cursor := state.cursor.next } else state
  | .blank => state

theorem stage_pastSeparator (state : State) (separator : Separator) :
    (state.pastSeparator separator).stage = state.stage.pastSeparator separator := by
  cases separator with
  | blank => rfl
  | comma =>
    rw [State.pastSeparator, Stage.pastSeparator, Stage.pastComma, stage_cursor]
    split <;> rfl

theorem diagnostics_pastSeparator (state : State) (separator : Separator) :
    (state.pastSeparator separator).diagnostics = state.diagnostics := by
  cases separator with
  | blank => rfl
  | comma =>
    rw [State.pastSeparator]
    split <;> rfl

theorem State.Live.pastSeparator {first : Cursor} (live : state.Live first)
    (separator : Separator) :
    (state.pastSeparator separator).Live first := by
  cases separator with
  | blank => exact live
  | comma =>
    rw [State.pastSeparator]
    split
    · exact ⟨live.live, live.reached.trans (.next _)⟩
    · exact live

/-- Another item of a list in brackets. -/
theorem bracketedStep_item {separator : Separator} {item : Parser α} {a : α} {items : List α}
    (inside : state.cursor.atPunct .rightBracket = false) (more : state.cursor.atEnd = false)
    (ran : item input state = (some a, next)) :
    collecting (bracketedStep separator item) items input state =
      (some (.again (a :: items)), next.pastSeparator separator) := by
  have step : bracketedStep separator item input state =
      (some (some a, true), next.pastSeparator separator) := by
    have eaten : eat .rightBracket input state = (some false, state) := by
      change (if state.cursor.atPunct .rightBracket then _ else _ : Parser Bool) input state = _
      rw [inside]
      rfl
    rw [bracketedStep, bind_run, eaten]
    change (if state.cursor.atEnd then _ else _ : Parser (Option α × Bool)) input state = _
    rw [more]
    simp only [Bool.false_eq_true, if_false]
    rw [bind_run, ran]
    cases separator with
    | blank => rfl
    | comma =>
      change (eat .comma >>= fun _ => Pure.pure (some a, true) : Parser (Option α × Bool))
        input next = _
      have comma : eat .comma input next =
          (some (next.cursor.atPunct .comma), next.pastSeparator .comma) := by
        change (if next.cursor.atPunct .comma then _ else _ : Parser Bool) input next = _
        rw [State.pastSeparator]
        cases next.cursor.atPunct .comma <;> rfl
      rw [bind_run, comma]
      rfl
  rw [collecting, bind_run, step]
  rfl

/-- The end of a list in brackets. -/
theorem bracketedStep_end {separator : Separator} {item : Parser α} {items : List α}
    (ends : state.cursor.atPunct .rightBracket = true) :
    collecting (bracketedStep separator item) items input state =
      (some (.done items), { state with cursor := state.cursor.next }) := by
  have eaten : eat .rightBracket input state =
      (some true, { state with cursor := state.cursor.next }) := by
    change (if state.cursor.atPunct .rightBracket then _ else _ : Parser Bool) input state = _
    rw [ends]
    rfl
  rw [collecting, bind_run, bracketedStep, bind_run, eaten]
  rfl

end Parser

/-! ## Crossing -/

namespace Detour

variable {detour : Detour} {parser : RegionKind → Bool → Parser (Region Operation)}
  {region : RegionKind → Bool → Meaning (Region Operation)} {hit : Region Operation → Prop}

/-- Whether regions are the same on both sides of the junk, and cross it if they are hit by it. -/
structure Regions (detour : Detour) (parser : RegionKind → Bool → Parser (Region Operation))
    (region : RegionKind → Bool → Meaning (Region Operation)) (hit : Region Operation → Prop) :
    Prop where
  regular : Regular detour.first parser region
  ahead : ∀ kind implicitTerminator, detour.ahead.Persists (region kind implicitTerminator) True
  past : ∀ kind implicitTerminator,
    detour.past.Carries (region kind implicitTerminator) fun inner again => inner.outline =
    again.outline
  crosses : ∀ {kind : RegionKind} {implicitTerminator : Bool} {before after : Stage} {inner :
    Region Operation}, region kind implicitTerminator detour.ahead.source before inner after →
    before.rest <:+ detour.tokens →
      hit inner → inner.Calm detour.options →
        detour.Crosses (parser kind implicitTerminator) before after fun again => inner.outline =
        again.outline

/-- Behind the junk both texts have the same separator or none. -/
theorem Past.pastSeparator {stage : Stage} {state : State} (here : detour.Past stage state)
    (separator : Separator) :
    detour.Past (stage.pastSeparator separator) (state.pastSeparator separator) := by
  refine ⟨?_, here.live.pastSeparator separator⟩
  rw [stage_pastSeparator]
  exact here.follows.pastSeparator separator

/-- In front of the junk both texts have the same separator or none. -/
theorem Ahead.pastSeparator {stage : Stage} {state : State} {taken left : List Token}
    (here : detour.Ahead taken stage state) (separator : Separator)
    (rest : (stage.pastSeparator separator).rest = left ++ detour.ahead.behind) :
    detour.Ahead left (stage.pastSeparator separator) (state.pastSeparator separator) := by
  refine ⟨?_, here.live.pastSeparator separator⟩
  rw [stage_pastSeparator]
  exact Fork.Persists.pastSeparator here.abreast rest

variable (regions : detour.Regions parser region hit) {α : Type} {before after : Stage} {a : α}

include regions

theorem persists_ahead (grammar : Grammar (Region Operation) α) (steady : grammar.steady = true)
    (anchored : grammar.anchored = true) :
    detour.ahead.Persists (grammar.Reads region) (detour.ahead.Settled ∨
      grammar.tame true = true) :=
  Fork.reads_persists regions.regular.means regions.ahead (fun _ => rfl) grammar steady anchored

/-- Items of a list in brackets behind the junk. -/
theorem bracketed_past {item : Grammar (Region Operation) α} (start : Cursor)
    (separator : Separator) (steady : item.steady = true) (consumes : item.consumes = true)
    (stable : item.Stable) (tidy : item.recommendsLast false = true) {items : List α}
    (reads : BracketedReads separator (item.Reads region) detour.ahead.source before items after)
    (calm : ∀ inner ∈ items.flatMap item.regionsOf, inner.Calm detour.options) (earlier : List α)
    {state : State} (here : detour.Past before state) :
    ∃ found final, iterate (collecting (bracketedStep separator (item.parse start parser)))
      earlier detour.input state = (some (found.reverse ++ earlier), final) ∧
      List.Forall₂ (item.Same Region.outline) items found ∧ detour.Past after final ∧
        final.diagnostics = state.diagnostics := by
  induction reads generalizing earlier state with
  | @nil stage ends =>
    refine ⟨[], { state with cursor := state.cursor.next }, ?_, .nil,
      ⟨here.follows.next, here.live.live, here.live.reached.trans (.next _)⟩, rfl⟩
    rw [iterate_run, bracketedStep_end ((here.follows.atPunct_eq .rightBracket).trans ends)]
    rfl
  | @cons before middle after a items inside more first rest ih =>
    rw [List.flatMap_cons, List.forall_mem_append] at calm
    obtain ⟨b, between, run, same, midway, unchanged⟩ := here.reads
      (.grammar regions.regular start item steady tidy)
      (Relocation.carries_grammar regions.past item stable) first
      fun b same => ⟨Grammar.calm_of_same tidy same calm.1, fun _ =>
        Grammar.missing?_eq_none tidy b⟩
    have beyond := midway.pastSeparator separator
    obtain ⟨found, final, runs, others, done, unchangedRest⟩ := ih calm.2 (b :: earlier) beyond
    refine ⟨b :: found, final, ?_, .cons same others, done,
      unchangedRest.trans ((diagnostics_pastSeparator between separator).trans unchanged)⟩
    have fewer : middle.rest.length < before.rest.length :=
      (Grammar.parse_means start regions.regular.means item steady).2 consumes _ _ _ _ first
    rw [iterate_next (bracketedStep_item ((here.follows.atPunct_eq .rightBracket).trans inside)
      (here.atEnd_eq.trans more) run), runs, List.reverse_cons, List.append_assoc]
    · rfl
    · rw [beyond.length_rest, here.length_rest]
      exact Nat.lt_of_le_of_lt (middle.leads_pastSeparator separator).length_le fewer

/-- A list in brackets with an item that crosses the junk crosses it. -/
theorem bracketed_crosses {item : Grammar (Region Operation) α} (start : Cursor)
    (separator : Separator) (steady : item.steady = true) (consumes : item.consumes = true)
    (anchored : item.anchored = true)
    (stable : item.Stable) (tidy : item.recommendsLast false = true)
    (each : ∀ {before after : Stage} {a : α}, item.Reads region detour.ahead.source before a after →
      before.rest <:+ detour.tokens → (∃ inner ∈ item.regionsOf a, hit inner) →
        (∀ inner ∈ item.regionsOf a, inner.Calm detour.options) →
        detour.Crosses (item.parse start parser) before after (item.Same Region.outline a)) {items :
        List α}
    (reads : BracketedReads separator (item.Reads region) detour.ahead.source before items after)
    (within : before.rest <:+ detour.tokens)
    (isHit : ∃ inner ∈ items.flatMap item.regionsOf, hit inner)
    (calm : ∀ inner ∈ items.flatMap item.regionsOf, inner.Calm detour.options) (earlier : List α) :
    detour.Crosses (iterate (collecting (bracketedStep separator (item.parse start parser)))
      earlier) before after fun result => ∃ found, result = found.reverse ++ earlier ∧
        List.Forall₂ (item.Same Region.outline) items found := by
  obtain ⟨means, progresses⟩ := Grammar.parse_means start regions.regular.means item steady
  induction reads generalizing earlier with
  | nil =>
    obtain ⟨_, ⟨⟩, _⟩ := isHit
  | @cons before middle after a items inside more first rest ih =>
    have fewer : middle.rest.length < before.rest.length := progresses consumes _ _ _ _ first
    have toPast := middle.leads_pastSeparator separator
    have shorter := Nat.lt_of_le_of_lt toPast.length_le fewer
    simp only [List.flatMap_cons, List.mem_append] at isHit
    rw [List.flatMap_cons, List.forall_mem_append] at calm
    by_cases inFirst : ∃ inner ∈ item.regionsOf a, hit inner
    · have crosses := each first within inFirst calm.1
      have step : detour.Runs
          (collecting (bracketedStep separator (item.parse start parser)) earlier) before
          (middle.pastSeparator separator) fun result =>
            ∃ onward, result = .again onward ∧ ∃ b, onward = b :: earlier ∧
              item.Same Region.outline a b := by
        intro taken state here
        obtain ⟨b, between, diagnostic, run, same, midway, reports, reported⟩ := crosses.runs here
        exact ⟨_, _, diagnostic,
          bracketedStep_item ((here.abreast.atPunct_eq .rightBracket (by decide)).trans inside)
          here.atEnd_eq run,
          ⟨_, rfl, b, rfl, same⟩, midway.pastSeparator separator, reports,
          (diagnostics_pastSeparator between separator).trans reported⟩
      refine ⟨crosses.comes, step.iterate shorter fun {_ state} goesOn beyond => ?_⟩
      obtain ⟨b, rfl, same⟩ := goesOn
      obtain ⟨found, final, run, others, done, kept⟩ :=
        bracketed_past regions start separator steady consumes stable tidy rest calm.2
        (b :: earlier) beyond
      refine ⟨_, final, run, ⟨b :: found, ?_, .cons same others⟩, done, kept⟩
      rw [List.reverse_cons, List.append_assoc]
      rfl
    · have later : ∃ inner ∈ items.flatMap item.regionsOf, hit inner := by
        obtain ⟨inner, member | member, isHit⟩ := isHit
        · exact absurd ⟨inner, member, isHit⟩ inFirst
        · exact ⟨inner, member, isHit⟩
      have toMiddle := means.leads _ _ _ _ first
      have crosses := ih ((toMiddle.trans toPast).suffix.trans within) later calm.2 (a :: earlier)
      have comesMiddle := crosses.comes.leads toPast
      obtain ⟨left, restMiddle, _⟩ := id comesMiddle
      obtain ⟨onward, restPast, _⟩ := id crosses.comes
      have step : ∀ {taken : List Token} {state : State}, detour.Ahead taken before state →
          ∃ final, collecting (bracketedStep separator (item.parse start parser)) earlier
          detour.input state = (some (.again (a :: earlier)), final) ∧
            detour.Ahead onward (middle.pastSeparator separator) final ∧ final.diagnostics =
            state.diagnostics := by
        intro taken state here
        obtain ⟨between, run, midway, unchanged⟩ :=
          here.reads (.grammar regions.regular start item steady tidy)
          (persists_ahead regions item steady anchored) first restMiddle
          (fun parted => .inl (comesMiddle.settled restMiddle parted))
          ⟨calm.1, fun _ => Grammar.missing?_eq_none tidy a⟩
        exact ⟨_,
          bracketedStep_item ((here.abreast.atPunct_eq .rightBracket (by decide)).trans inside)
          here.atEnd_eq run,
          midway.pastSeparator separator restPast,
          (diagnostics_pastSeparator between separator).trans unchanged⟩
      refine ⟨comesMiddle.leads toMiddle,
        Runs.iterate_behind step shorter fun {taken state} beyond => ?_⟩
      obtain ⟨_, final, diagnostic, runs, ⟨found, rfl, same⟩, done, reported⟩ := crosses.runs beyond
      refine ⟨_, final, diagnostic, runs,
        ⟨a :: found, ?_, .cons (Grammar.same_self _ stable first) same⟩, done,
        reported⟩
      rw [List.reverse_cons, List.append_assoc]
      rfl

/-- A part that crosses the junk, in front of one that is read behind it. -/
theorem crosses_seq_past {β : Type} {first : Grammar (Region Operation) α}
    {second : Grammar (Region Operation) β} {middle : Stage} {b : β} (start : Cursor)
    (crosses : detour.Crosses (first.parse start parser) before middle
      (first.Same Region.outline a))
    (steady : second.steady = true) (stable : second.Stable) {allowed : Bool}
    (tidy : second.recommendsLast allowed = true)
    (reads : second.Reads region detour.ahead.source middle b after)
    (calm : ∀ inner ∈ second.regionsOf b, inner.Calm detour.options)
    (complete : detour.options.deprecations = true → ∀ c, second.Same Region.outline b c →
      second.missing? c = none) :
    detour.Crosses ((first.seq second).parse start parser) before after
      ((first.seq second).Same Region.outline (a, b)) := by
  obtain ⟨comes, runs⟩ := crosses
  refine ⟨comes, ?_⟩
  rw [Grammar.parse]
  refine runs.bind fun {found state} same midway => ?_
  obtain ⟨others, final, run, sameSecond, done, unchanged⟩ := midway.reads
    (.grammar regions.regular start second steady tidy)
    (Relocation.carries_grammar regions.past second stable) reads
    fun others same => ⟨Grammar.calm_of_same tidy same calm, fun wanted =>
      complete wanted others same⟩
  refine ⟨(found, others), final, ?_, ⟨same, sameSecond⟩, done, unchanged⟩
  rw [bind_run, run]
  rfl

/-- A part that is read in front of the junk, in front of one that crosses it. -/
theorem crosses_seq_ahead {β : Type} {first : Grammar (Region Operation) α}
    {second : Grammar (Region Operation) β} {middle : Stage} {b : β} (start : Cursor)
    (crosses : detour.Crosses (second.parse start parser) middle after
      (second.Same Region.outline b))
    (steady : first.steady = true) (anchored : first.anchored = true) (stable : first.Stable)
    (tidy : first.recommendsLast false = true)
    (reads : first.Reads region detour.ahead.source before a middle)
    (calm : ∀ inner ∈ first.regionsOf a, inner.Calm detour.options) :
    detour.Crosses ((first.seq second).parse start parser) before after
      ((first.seq second).Same Region.outline (a, b)) := by
  obtain ⟨comes, runs⟩ := crosses
  have toMiddle := (Grammar.parse_means start regions.regular.means _ steady).1.leads _ _ _ _ reads
  refine ⟨comes.leads toMiddle, ?_⟩
  obtain ⟨left, rest, _⟩ := id comes
  rw [Grammar.parse]
  refine Runs.behind
    (fun here => here.reads (.grammar regions.regular start first steady tidy)
    (persists_ahead regions first steady anchored) reads rest
    (fun parted => .inl (comes.settled rest parted)) ⟨calm, fun _ =>
      Grammar.missing?_eq_none tidy _⟩) ?_
  exact runs.map (fun found => (a, found)) fun found same =>
    ⟨Grammar.same_self _ stable reads, same⟩

/-- What holds the junk in one of its regions crosses it. -/
theorem crosses_grammar (start : Cursor) (grammar : Grammar (Region Operation) α)
    (steady : grammar.steady = true)
    (anchored : grammar.anchored = true) (stable : grammar.Stable) {allowed : Bool}
    (tidy : grammar.recommendsLast allowed = true)
    (reads : grammar.Reads region detour.ahead.source before a after)
    (within : before.rest <:+ detour.tokens)
    (isHit : ∃ inner ∈ grammar.regionsOf a, hit inner)
    (calm : ∀ inner ∈ grammar.regionsOf a, inner.Calm detour.options)
    (complete : detour.options.deprecations = true → ∀ b, grammar.Same Region.outline a b →
      grammar.missing? b = none) :
    detour.Crosses (grammar.parse start parser) before after (grammar.Same Region.outline a) := by
  have plain : ∀ {α : Type} {grammar : Grammar (Region Operation) α} {a : α},
      grammar.isPlain = true → ¬∃ inner ∈ grammar.regionsOf a, hit inner := by
    rintro α grammar a isPlain ⟨inner, member, _⟩
    rw [Grammar.regionsOf_plain isPlain] at member
    cases member
  induction grammar generalizing before after allowed with
  | blank | punct | word | lexeme | oneOf | name | definition | type | attributeOf | namedAttribute
  | trailingAttribute | modifierRun => exact absurd isHit (plain rfl)
  | separated item | listed item | listedWithEllipsis item | repeated next item | spanned inner
  | binder what inner => exact absurd isHit (plain tidy)
  | recommended opcode warning inner =>
    exact absurd isHit (@plain _ inner _ (Bool.and_eq_true_iff.1 tidy).2)
  | seq first second ihFirst ihSecond =>
    obtain ⟨middle, readsFirst, readsSecond⟩ := reads
    obtain ⟨steadyFirst, steadySecond⟩ := Bool.and_eq_true_iff.1 steady
    obtain ⟨anchoredFirst, anchoredSecond⟩ := Bool.and_eq_true_iff.1 anchored
    obtain ⟨tidyFirst, tidySecond⟩ := Bool.and_eq_true_iff.1 tidy
    simp only [Grammar.regionsOf_seq, List.mem_append] at isHit calm
    have complete : detour.options.deprecations = true →
        ∀ b, second.Same Region.outline a.2 b → second.missing? b = none :=
      fun wanted b same => complete wanted (a.1, b) ⟨Grammar.same_self _ stable.1 readsFirst, same⟩
    have calmFirst : ∀ inner ∈ first.regionsOf a.1, inner.Calm detour.options :=
      fun inner member => calm inner (.inl member)
    have calmSecond : ∀ inner ∈ second.regionsOf a.2, inner.Calm detour.options :=
      fun inner member => calm inner (.inr member)
    obtain ⟨inner, inFirst | inSecond, isHit⟩ := isHit
    · have crosses := ihFirst steadyFirst anchoredFirst stable.1 tidyFirst readsFirst within
        ⟨inner, inFirst, isHit⟩ calmFirst fun _ b _ => Grammar.missing?_eq_none tidyFirst b
      exact crosses_seq_past regions start crosses steadySecond stable.2 tidySecond readsSecond
        calmSecond complete
    · have means := (Grammar.parse_means start regions.regular.means first steadyFirst).1
      have toMiddle := means.leads _ _ _ _ readsFirst
      have crosses := ihSecond steadySecond anchoredSecond stable.2 tidySecond readsSecond
        (toMiddle.suffix.trans within) ⟨inner, inSecond, isHit⟩ calmSecond complete
      exact crosses_seq_ahead regions start crosses steadyFirst anchoredFirst stable.1 tidyFirst
        readsFirst calmFirst
  | view as inner ih =>
    obtain ⟨x, reads, rfl⟩ := reads
    rw [Grammar.regionsOf_view] at isHit calm
    have complete : detour.options.deprecations = true →
        ∀ y, inner.Same Region.outline x y → inner.missing? y = none := by
      intro wanted y same
      have complete := complete wanted (as.build y) ⟨x, y, same, rfl, rfl⟩
      rwa [Grammar.missing?, as.read_build] at complete
    obtain ⟨comes, runs⟩ := ih steady anchored stable tidy reads within isHit calm complete
    refine ⟨comes, ?_⟩
    rw [Grammar.parse]
    exact runs.map as.build fun b same => ⟨x, b, same, rfl, rfl⟩
  | optional present inner ih =>
    rw [Grammar.Reads] at reads
    split at reads
    · rename_i given
      obtain ⟨x, reads, rfl⟩ := reads
      obtain ⟨comes, runs⟩ := ih steady anchored stable tidy reads within isHit calm
        fun wanted b same => complete wanted (some b) (.some same)
      rw [Grammar.parse]
      refine .ite ⟨comes, ?_⟩
      rw [if_pos given]
      exact runs.map some fun b same => .some same
    · obtain ⟨rfl, rfl⟩ := reads
      obtain ⟨_, member, _⟩ := isHit
      cases member
  | choice isFirst first second ihFirst ihSecond =>
    obtain ⟨steadyFirst, steadySecond⟩ := Bool.and_eq_true_iff.1 steady
    obtain ⟨anchoredFirst, anchoredSecond⟩ := Bool.and_eq_true_iff.1 anchored
    obtain ⟨tidyFirst, tidySecond⟩ := Bool.and_eq_true_iff.1 tidy
    rw [Grammar.Reads] at reads
    split at reads
    · rename_i chosen
      obtain ⟨x, reads, rfl⟩ := reads
      obtain ⟨comes, runs⟩ :=
        ihFirst steadyFirst anchoredFirst stable.1 tidyFirst reads within isHit calm
        fun wanted b same => complete wanted (.inl b) (.inl same)
      rw [Grammar.parse]
      refine .ite ⟨comes, ?_⟩
      rw [if_pos chosen]
      exact runs.map Sum.inl fun b same => .inl same
    · rename_i chosen
      obtain ⟨y, reads, rfl⟩ := reads
      obtain ⟨comes, runs⟩ :=
        ihSecond steadySecond anchoredSecond stable.2 tidySecond reads within isHit calm
        fun wanted b same => complete wanted (.inr b) (.inr same)
      rw [Grammar.parse]
      refine .ite ⟨comes, ?_⟩
      rw [if_neg chosen]
      exact runs.map Sum.inr fun b same => .inr same
  | bracketed separator item ih =>
    obtain ⟨opening, middle, ⟨isOpening, passes⟩, reads⟩ := reads
    obtain ⟨consumes, steady⟩ := Bool.and_eq_true_iff.1 steady
    rw [Grammar.regionsOf_bracketed] at isHit calm
    obtain ⟨comes, runs⟩ :=
      bracketed_crosses regions start separator steady consumes anchored stable tidy
      (fun reads within isHit calm =>
        ih steady anchored stable tidy reads within isHit calm fun _ b _ =>
          Grammar.missing?_eq_none tidy b)
      reads (passes.leads.suffix.trans within) isHit calm []
    obtain ⟨left, rest, _⟩ := id comes
    refine ⟨comes.leads passes.leads, ?_⟩
    rw [Grammar.parse, bracketed_eq]
    refine Runs.behind
      (fun here => here.reads (.punct .leftBracket) .satisfying ⟨isOpening, passes⟩ rest
      (fun _ => trivial) trivial) (runs.map List.reverse ?_)
    rintro _ ⟨found, rfl, same⟩
    rw [List.append_nil, List.reverse_reverse]
    exact same
  | inScope inner ih =>
    obtain ⟨inside, reads, resolved, rfl⟩ := reads
    rw [Grammar.parse]
    exact (ih steady anchored stable tidy reads within isHit calm complete).inScope resolved
  | region kind implicitTerminator =>
    refine regions.crosses reads within ?_ ?_
    · obtain ⟨inner, member, isHit⟩ := isHit
      obtain rfl := List.mem_singleton.1 member
      exact isHit
    · exact calm a (List.mem_singleton.2 rfl)

end Detour

end CirText
