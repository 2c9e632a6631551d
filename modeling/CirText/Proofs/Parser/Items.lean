import CirText.Proofs.Parser.Reads
import CirText.Proofs.Parser.Survey
import CirText.Proofs.Scope.Nesting

/-!
# What is read of a source unit

The items that are read are as they should be and stand one after the other, and so the module that
`parse` gives is as it should be, whatever the source text is. All diagnostics stand in the text.
-/

namespace CirText

namespace Parser

variable {text : List Char} {levels : Nat} {first now later before : Stage}
  {region : RegionKind → Bool → Parser (Region Operation)}

/-! ## Items -/

/-- What is known of the items of a source unit that have been read so far. -/
structure KnowsItems (text : List Char) (levels : Nat) (first : Stage) (items : List Operation)
    (now : Stage) : Prop where
  stretch : Stage.Stretch text first now
  throughout : ∀ item ∈ items, ∀ table, now.tracker.table.GrowsTo table →
    item.Throughout (Operation.Sound text table) levels first.scope
  stops : ∀ item ∈ items, item.span.stop ≤ now.here
  ordered : items.Pairwise fun left right => left.span.Before right.span
  scopes : Ascends first.size now.size ((items.flatMap Operation.allRegions).map (·.scope))

namespace KnowsItems

variable {items : List Operation}

theorem nil (placed : now.Placed text) : KnowsItems text levels now [] now where
  stretch := .refl placed
  throughout := by rintro _ ⟨⟩
  stops := by rintro _ ⟨⟩
  ordered := .nil
  scopes := .nil

theorem onward (known : KnowsItems text levels first items now)
    (stretch : Stage.Stretch text now later) : KnowsItems text levels first items later where
  stretch := known.stretch.trans stretch
  throughout item member table grows :=
    known.throughout item member table (stretch.onward.grown.table.trans grows)
  stops item member := Nat.le_trans (known.stops item member) (stretch.onward.here_le stretch.start)
  ordered := known.ordered
  scopes := known.scopes.widen (Nat.le_refl _) stretch.onward.size_le

theorem concat (known : KnowsItems text levels first items now) {op : Operation}
    (has : now.Has text levels op later) (stretch : Stage.Stretch text now later) :
    KnowsItems text levels first (items ++ [op]) later where
  stretch := known.stretch.trans stretch
  throughout item member table grows := by
    rcases List.mem_append.1 member with old | new
    · exact (known.onward stretch).throughout item old table grows
    · rw [List.mem_singleton.1 new, ← known.stretch.onward.scope_eq]
      exact has.throughout table grows
  stops item member := by
    rcases List.mem_append.1 member with old | new
    · exact (known.onward stretch).stops item old
    · rw [List.mem_singleton.1 new]
      exact Nat.le_trans has.covers.stop stretch.stop.lastStop_le_here
  ordered := by
    refine List.pairwise_append.2 ⟨known.ordered, List.pairwise_singleton _ op, ?_⟩
    intro item old last new
    rw [List.mem_singleton.1 new]
    exact Nat.le_trans (known.stops item old) has.covers.start
  scopes := by
    rw [List.flatMap_append, List.map_append, List.flatMap_singleton]
    exact known.scopes.append has.scopes known.stretch.onward.size_le stretch.onward.size_le

end KnowsItems

namespace Sees

theorem declaration (regions : OfRegions text levels region) (traced : Traced.Regions region) :
    Sees text before (Parser.declaration region) (Stage.Has text levels before) := by
  apply peek
  exact ite (fun _ => operation regions traced) fun _ => expected

theorem items (regions : OfRegions text levels region) (traced : Traced.Regions region)
    {braced : Bool} :
    Sees text before (Parser.items region braced) (KnowsItems text levels before) := by
  apply ofPlaced
  intro placed
  rw [items_eq_collect]
  apply collect (.nil placed)
  intro items stage onward known
  have ends : KnowsItems text levels before (items ++ []) stage := by
    rw [List.append_nil]
    exact known
  apply checkHalted.bind
  rintro halted _ _ _ rfl
  apply cursor
  apply ite
  · exact fun _ => pure ends
  · intro _
    apply (declaration regions traced).attempt
    intro op middle placedMiddle toMiddle found
    have stretch : Stage.Stretch text _ middle := ⟨known.stretch.stop, placedMiddle, toMiddle⟩
    cases op with
    | some op => exact pure (known.concat (found op rfl) stretch)
    | none =>
      apply (resynchronize _).bind
      intro _ last placedLast toLast _
      apply look
      intro stopped
      exact pure (ends.onward (stretch.trans ⟨placedMiddle, placedLast, toLast⟩))

/-! ## Modules with braces -/

/-- The end of a header, when its name and its attributes have been read. -/
theorem headerEnd (stretch : Stage.Stretch text first before)
    (shorter : before.rest.length < first.rest.length) {name : Option Lexeme}
    {attributes : Option AttributeText}
    (named : ∀ found ∈ name, Stage.Keeps text first before found.extent)
    (attributed : ∀ found ∈ attributes, Stage.Keeps text first before found.extent) :
    Sees text before (do
      let now ← Parser.cursor
      Pure.pure { name, attributes, span := first.cursor.spanBetween now : ModuleHeader })
      fun header _ => header.Placed text := by
  have span := stretch.onward.spanBetween_eq stretch.start shorter
  have within : ∀ {extent}, Stage.Keeps text first before extent →
      Extent.Within text (first.cursor.spanBetween before.cursor) extent := by
    intro extent keeps
    rw [span]
    exact ⟨⟨keeps.covers.on, keeps.covers.start, keeps.covers.stop⟩, keeps.text⟩
  apply cursor
  exact pure ⟨stretch.onward.spanBetween_on stretch.start, fun found given =>
    within (named found given),
    fun found given => within (attributed found given)⟩

theorem restOfHeader (stretch : Stage.Stretch text first before)
    (shorter : before.rest.length < first.rest.length) {name : Option Lexeme}
    (named : ∀ found ∈ name, Stage.Keeps text first before found.extent) :
    Sees text before (Parser.restOfHeader first.cursor name) fun header _ =>
      header.Placed text := by
  apply cursor
  apply ite
  · intro _
    apply skip.bind
    rintro _ _ placedNext toNext rfl
    apply attributeOf.attempt
    intro attributes last placedLast toLast found
    have rest : Stage.Stretch text before last := ⟨stretch.stop, placedLast, toNext.trans toLast⟩
    refine headerEnd (stretch.trans rest) (Nat.lt_of_le_of_lt rest.onward.length_le shorter) ?_ ?_
    · exact fun found given => (named found given).widen (.refl stretch.start) rest
    · intro value given
      have keeps : Stage.Keeps text before.next last value.extent :=
        ⟨(found value given).1.1, by rintro _ ⟨⟩; exact (found value given).1.2⟩
      exact keeps.widen (stretch.trans ⟨stretch.stop, placedNext, toNext⟩) (.refl placedLast)
  · intro _
    exact headerEnd stretch shorter named (by rintro _ ⟨⟩)

theorem unitHeader (stretch : Stage.Stretch text first before)
    (shorter : before.rest.length < first.rest.length) :
    Sees text before (Parser.unitHeader first.cursor) fun header _ => header.Placed text := by
  rw [unitHeader_eq]
  apply cursor
  apply ite
  · intro isSymbol
    have passes : before.Passes before.cursor.peek before.next :=
      ((Stage.passes_iff (fun token => token.kind == .symbol) fun _ => rfl).1
        ⟨isSymbol, rfl, rfl⟩).2
    apply skip.bind
    rintro _ _ placedNext toNext rfl
    have rest : Stage.Stretch text before before.next := ⟨stretch.stop, placedNext, toNext⟩
    refine restOfHeader (stretch.trans rest) (Nat.lt_of_le_of_lt toNext.length_le shorter) ?_
    rintro _ ⟨⟩
    exact (keeps_token stretch.stop passes).widen stretch (.refl placedNext)
  · exact fun _ => restOfHeader stretch shorter (by rintro _ ⟨⟩)

theorem moduleEnd {opening : Token} (on : opening.span.On text) :
    Sees text before (Parser.moduleEnd opening) fun _ _ => True := by
  apply ofPlaced
  intro placed
  apply cursor
  apply ite
  · intro _
    apply skip.bind
    rintro _ _ _ _ rfl
    apply cursor
    apply ite
    · exact fun _ => reportExpected.mono fun _ _ _ _ _ => trivial
    · exact fun _ => pure trivial
  · intro _
    have ends : (Span.emptyAt before.cursor.size).On text :=
      Span.on_emptyAt (placed.cursor.size ▸ Text.boundary_size text)
    exact (report (Diagnostic.on_errorWithFix on ends (by rintro _ _ ⟨⟩))).mono
      fun _ _ _ _ _ => trivial

theorem closeModule {α : Type} {result : α} {brace : Token} (on : brace.span.On text) :
    Sees text before (Parser.closeModule result brace) fun given _ => given = result := by
  apply look
  intro halted
  apply ite
  · exact fun _ => (moduleEnd on).bind fun _ _ _ _ _ => pure rfl
  · exact fun _ => pure rfl

/-- What a source unit is found to be. -/
def FindsUnit (text : List Char) (levels : Nat) (first : Stage)
    (found : Option ModuleHeader × List Operation) (now : Stage) : Prop :=
  (∀ header ∈ found.1, header.Placed text) ∧
    ∃ start, first.Onward start ∧ KnowsItems text levels start found.2 now

theorem sourceUnit (regions : OfRegions text levels region) (traced : Traced.Regions region) :
    Sees text before (Parser.sourceUnit region) (FindsUnit text levels before) := by
  apply ofPlaced
  intro placed
  apply cursor
  apply ite
  · intro isModule
    have passes : before.Passes before.cursor.peek before.next :=
      ((Stage.passes_iff (fun token => token.isWord "module") fun _ => rfl).1
        ⟨isModule, rfl, rfl⟩).2
    apply skip.bind
    rintro _ _ placedNext toNext rfl
    apply (unitHeader ⟨placed, placedNext, toNext⟩ (Grammar.progresses_passes passes)).bind
    intro header middle placedMiddle toMiddle found
    have headed : ∀ other ∈ some header, other.Placed text := by
      rintro _ ⟨⟩
      exact found
    apply punct.attempt
    rintro opening start placedStart toStart brace
    have onward := (toNext.trans toMiddle).trans toStart
    cases opening with
    | none =>
      apply (items regions traced).bind
      intro ops last _ _ known
      exact pure ⟨headed, start, onward, known⟩
    | some opening =>
      apply (items regions traced).bind
      intro ops last _ _ known
      have on := (placedMiddle.passes (brace opening rfl).2).1.span
      apply (closeModule on).mono
      rintro _ after placedAfter toAfter rfl
      exact ⟨headed, start, onward, known.onward ⟨known.stretch.stop, placedAfter, toAfter⟩⟩
  · intro _
    apply (items regions traced).bind
    intro ops last _ _ known
    exact pure ⟨by rintro _ ⟨⟩, before, .refl before, known⟩

end Sees

/-! ## Runs -/

theorem placed_initial (source : String) :
    (initial (tokenize source)).Placed source.toList where
  stage := ⟨Cursor.placed_start source, .start source.toList⟩
  diagnostics := by
    intro diagnostic member
    have listed : diagnostic ∈ (tokenize source).errors.map Diagnostic.ofLexError := by
      simpa [initial, Diagnostics.append] using member
    obtain ⟨fault, isFault, rfl⟩ := List.mem_map.1 listed
    exact Diagnostic.on_error (errors_on source fault isFault) (by rintro _ _ ⟨⟩)

/-- The run of the parser on a source text. -/
theorem run_sees (source : String) (options : Options) :
    Sees source.toList (initial (tokenize source)).stage
      (Parser.sourceUnit (regionWithin options.maxDepth))
      (Sees.FindsUnit source.toList options.maxDepth (initial (tokenize source)).stage) :=
  Sees.sourceUnit (Sees.regionWithin options.maxDepth) (Traced.regionWithin options.maxDepth)

end Parser

end CirText
