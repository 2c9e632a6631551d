import CirText.Proofs.Grammar.Bodies
import CirText.Proofs.Grammar.Sight
import CirText.Proofs.Parser.Progress

/-!
# What is read, with errors or without

An operation that the parser gives is as it should be, and so is a region, even if other operations
around it could not be read. For regions this goes by the blocks that have been read so far.
-/

namespace CirText.Parser

variable {α : Type} {text : List Char} {levels : Nat} {before after : Stage}
  {region : RegionKind → Bool → Parser (Region Operation)}

/-! ## Operations -/

namespace Sees

/-- Parsers of regions that are as they should be, with the given number of levels. -/
def OfRegions (text : List Char) (levels : Nat)
    (region : RegionKind → Bool → Parser (Region Operation)) : Prop :=
  ∀ kind implicitTerminator before, Sees text before (region kind implicitTerminator)
    (Stage.Contains text (Region.Thorough text levels) before)

theorem resultNames : Sees text before Parser.resultNames fun names after =>
    ∀ name ∈ names, Stage.Covers text before after name.span := by
  let extents : Token → List Extent := fun name => [{ span := name.span : Extent }]
  let facts : SymbolTable → Region Operation → Prop := fun _ _ => True
  have each : ∀ stage, before.Onward stage →
      Sees text stage (Parser.token .value "a result name") fun name after =>
        Laid text facts stage (extents name) [] after ∧
          (False → after.rest.length < stage.rest.length) := by
    intro stage _
    apply ofPlaced
    intro placed
    apply (token (by rintro ⟨⟩)).mono
    rintro name after there further ⟨_, passes⟩
    exact ⟨.extent ⟨placed, there, further⟩ ⟨placed.covers passes, by rintro _ ⟨⟩⟩, False.elim⟩
  apply cursor
  apply ite
  · intro _
    apply (separated each).bind
    intro found middle placedMiddle _ laid
    apply punct.bind
    intro equals after placedAfter toAfter _
    apply pure
    intro name member
    have kept := laid.1.keeps { span := name.span : Extent }
      (List.mem_flatMap.2 ⟨name, member, List.mem_cons_self⟩)
    exact kept.covers.widen (.refl laid.1.stretch.start) ⟨placedMiddle, placedAfter, toAfter⟩
  · intro _
    exact pure (by rintro _ ⟨⟩)

theorem takeId : Sees text before Parser.takeId fun _ after =>
    after.cursor = before.cursor ∧ after.tracker = before.tracker where
  leads := by
    rintro _ state _ rfl placed
    exact ⟨⟨⟨placed.stage.cursor, placed.stage.tracker⟩, placed.diagnostics⟩, .of_eq rfl rfl⟩
  finds := by
    rintro _ state _ _ rfl _ _
    exact ⟨rfl, rfl⟩

theorem chooseForm (opcode : Opcode) :
    Sees text before (Parser.chooseForm opcode) fun _ after => after = before := by
  apply ofPlaced
  intro placed
  apply cursor
  cases Form.choose opcode before.cursor with
  | ok form => exact pure rfl
  | error what =>
    apply peek
    apply (report (Diagnostic.on_error placed.cursor.peek (by rintro _ _ ⟨⟩))).bind
    exact fun _ _ _ _ _ => fail

/-- What an operation is found to be from its keyword on. -/
def FindsBody (text : List Char) (levels : Nat) (before : Stage)
    (found : Nat × Form × Body (Region Operation)) (after : Stage) : Prop :=
  ∃ opcode form start, Stage.Stretch text before start ∧
    (Grammar.body opcode form).Builds found.2.2 ∧
      LaidBody text levels opcode form start found.2.2 after ∧
        after.rest.length < before.rest.length

theorem fromKeyword (regions : OfRegions text levels region) (traced : Traced.Regions region) :
    Sees text before (Parser.fromKeyword region) (FindsBody text levels before) := by
  apply ofPlaced
  intro placed
  apply cursor
  apply ite
  · intro isKeyword
    cases Opcode.ofKeyword? before.cursor.peek.text with
    | none =>
      apply (report (Diagnostic.on_error placed.cursor.peek (by rintro _ _ ⟨⟩))).bind
      exact fun _ _ _ _ _ => fail
    | some opcode =>
      have passes : before.Passes before.cursor.peek before.next :=
        ((Stage.passes_iff (fun token => token.kind == .keyword) fun _ => rfl).1
          ⟨isKeyword, rfl, rfl⟩).2
      have shorter := Grammar.progresses_passes passes
      apply skip.bind
      rintro _ next placedNext toNext rfl
      apply takeId.bind
      intro id middle placedMiddle toMiddle same
      apply naming
      apply (chooseForm opcode).bind
      rintro form start _ _ rfl
      have stretch : Stage.Stretch text before start :=
        ⟨placed, placedMiddle, toNext.trans toMiddle⟩
      obtain ⟨count, moved⟩ := stretch.onward.moved
      have sees := (Grammar.body opcode form).parse_sees regions placed.cursor
        (Grammar.body_lawful opcode form) (Grammar.body_orderly opcode form) ⟨count, moved⟩
      have known := Grammar.parse_traced before.cursor Region.covered_grows traced _
        (Grammar.body_lawful opcode form)
      apply (sees.andTraced known).bind
      rintro body after _ toAfter ⟨⟨laid, _⟩, _, built, _⟩
      exact pure ⟨opcode, form, start, stretch, built, laid,
        Nat.lt_of_le_of_lt (toMiddle.trans toAfter).length_le shorter⟩
  · intro _
    exact expected

theorem operation (regions : OfRegions text levels region) (traced : Traced.Regions region) :
    Sees text before (Parser.operation region) (Stage.Has text levels before) := by
  rw [operation_eq]
  apply ofPlaced
  intro placed
  apply cursor
  apply resultNames.bind
  intro names start placedStart toStart named
  have left : Stage.Stretch text before start := ⟨placed, placedStart, toStart⟩
  apply (fromKeyword regions traced).attempt
  intro read middle placedMiddle toMiddle found
  apply (mapM_define (by rintro ⟨⟩) fun name member => (named name member).on).bind
  intro results last placedLast toLast defined
  cases read with
  | none => exact fail
  | some read =>
    obtain ⟨id, written, body⟩ := read
    obtain ⟨opcode, form, keyword, toKeyword, built, laid, shorter⟩ := found _ rfl
    apply cursor
    apply pure
    have header : Stage.Stretch text before keyword := left.trans toKeyword
    have right : Stage.Stretch text middle last := ⟨placedMiddle, placedLast, toLast⟩
    have rest : Stage.Stretch text start last := ⟨placedStart, placedLast, toMiddle.trans toLast⟩
    have whole : Stage.Stretch text before last := left.trans rest
    have fewer : last.rest.length < before.rest.length :=
      Nat.lt_of_le_of_lt toLast.length_le (Nat.lt_of_lt_of_le shorter toStart.length_le)
    have covers := whole.covers fewer
    have span := whole.onward.spanBetween_eq placed fewer
    have start : (before.cursor.spanBetween last.cursor).start = before.here := by rw [span]
    refine ⟨covers, start, fun table grows => ?_, ?_, fewer⟩
    · have extended : LaidBody text levels opcode form keyword body last := laid.onward right
      refine extended.throughout built header rfl rfl span covers.on (fun result member => ?_) grows
      obtain ⟨scope, name, isName, same⟩ := defined.1 result member
      refine ⟨scope.trans (toStart.trans toMiddle).scope_eq, ?_⟩
      rw [same]
      exact (named name isName).widen (.refl placed) rest
    · have scopes := laid.scopes built
      rw [Operation.allRegions_eq, List.map_flatMap]
      exact scopes.widen header.onward.size_le right.onward.size_le

/-! ## Blocks -/

theorem entries_blockHeader (label : Definition) (args : List BlockArgument) :
    (Grammar.blockHeader (R := Region Operation)).entries (label, args) =
      .here (.definition label) :: args.map fun arg => .here (.definition arg.definition) := by
  have one : (Grammar.blockArgument (R := Region Operation)).entries =
      fun arg => [.here (.definition arg.definition)] := rfl
  cases args with
  | nil => rfl
  | cons head tail =>
    change .here (.definition label) ::
      (((head :: tail).flatMap Grammar.blockArgument.entries ++ []) ++ []) = _
    rw [List.append_nil, List.append_nil, one, List.map_eq_flatMap]

theorem extents_blockHeader (label : Definition) (args : List BlockArgument) :
    (Grammar.blockHeader (R := Region Operation)).extents (label, args) =
      args.map fun arg => arg.type.extent := by
  have one : (Grammar.blockArgument (R := Region Operation)).extents =
      fun arg => [arg.type.extent] := rfl
  cases args with
  | nil => rfl
  | cons head tail =>
    change ((head :: tail).flatMap Grammar.blockArgument.extents ++ []) ++ [] = _
    rw [List.append_nil, List.append_nil, one, List.map_eq_flatMap]

theorem blockHeader (regions : OfRegions text levels region) :
    Sees text before (Parser.blockHeader region) fun draft after =>
      KnowsBlock text levels before after draft.close ∧ draft.label.isSome = true ∧
        draft.ops = [] := by
  apply ofPlaced
  intro placed
  apply cursor
  apply (Grammar.blockHeader.parse_sees regions placed.cursor Grammar.blockHeader_lawful
    Grammar.blockHeader_orderly ⟨0, rfl⟩).bind
  rintro ⟨label, args⟩ after _ onward ⟨laid, consumes⟩
  have fewer := consumes rfl
  rw [entries_blockHeader, extents_blockHeader] at laid
  apply cursor
  refine pure ⟨?_, rfl, rfl⟩
  have whole : Span.On text ⟨before.here, after.lastStop⟩ :=
    onward.spanBetween_eq placed fewer ▸ onward.spanBetween_on placed
  have defined : ∀ definition ∈ label :: args.map (·.definition),
      definition.scope = before.scope ∧ Stage.Covers text before after definition.span := by
    intro definition member
    have listed : .here (.definition definition) ∈
        Entry.here (.definition label) :: args.map fun arg =>
          Entry.here (R := Region Operation) (.definition arg.definition) := by
      simpa [eq_comm] using member
    exact ⟨laid.here _ listed, laid.covers _ listed _ List.mem_cons_self⟩
  constructor
  · constructor
    · exact whole
    · intro definition member
      have covers := (defined definition member).2
      exact ⟨covers.on, covers.start, covers.stop⟩
    · intro arg member
      have kept := laid.keeps arg.type.extent (List.mem_map_of_mem member)
      exact ⟨⟨kept.covers.on, kept.covers.start, kept.covers.stop⟩, kept.text⟩
    · rintro _ ⟨⟩
    · exact .nil
  · exact Nat.le_refl _
  · exact laid.stretch.stop.lastStop_le_here
  · exact fun definition member => (defined definition member).1
  · rintro _ ⟨⟩

theorem place {kind : RegionKind} {progress : Progress} {op : Operation} (on : op.span.On text) :
    Sees text before (Parser.place kind progress op) fun pushed after =>
      pushed = progress.push op ∧ after = before := by
  have told : ∀ {kind : DiagnosticKind} {next : Unit → Parser Progress} {finds},
      (∀ name previous, kind ≠ .duplicate name previous) → Sees text before (next ()) finds →
      Sees text before (Parser.report (.error kind op.span) >>= next) finds := by
    intro kind next finds single rest
    apply (report (Diagnostic.on_error on single)).bind
    rintro _ _ _ _ rfl
    exact rest
  have done : Sees text before (Pure.pure (progress.push op)) fun pushed after =>
      pushed = progress.push op ∧ after = before := pure ⟨rfl, rfl⟩
  apply ite
  · intro _
    apply told (by rintro _ _ ⟨⟩)
    exact ite (fun _ => told (by rintro _ _ ⟨⟩) done) fun _ => done
  · intro _
    exact ite (fun _ => told (by rintro _ _ ⟨⟩) done) fun _ => done

theorem resynchronize (start : Cursor) :
    Sees text before (Parser.resynchronize start) fun _ _ => True where
  leads := by
    rintro input state _ rfl placed
    have moved : ∃ count, (Parser.resynchronize start input state).2.cursor =
        state.cursor.advance count := by
      unfold Parser.resynchronize Parser.change
      simp only
      split
      · exact ⟨0, rfl⟩
      · split
        · exact ⟨_, Cursor.advance_add state.cursor 1 _⟩
        · exact ⟨_, rfl⟩
    have kept : (Parser.resynchronize start input state).2.tracker = state.tracker ∧
        (Parser.resynchronize start input state).2.diagnostics = state.diagnostics := by
      unfold Parser.resynchronize Parser.change
      simp only
      split
      · exact ⟨rfl, rfl⟩
      · exact ⟨rfl, rfl⟩
    obtain ⟨count, moved⟩ := moved
    refine ⟨⟨⟨?_, ?_⟩, ?_⟩, ⟨count, moved⟩, ?_⟩
    · rw [stage_cursor, moved]
      exact placed.stage.cursor.advance count
    · rw [stage_tracker, kept.1]
      exact placed.stage.tracker
    · rw [kept.2]
      exact placed.diagnostics
    · change state.tracker.Grown (Parser.resynchronize start input state).2.tracker
      rw [kept.1]
      exact .refl _
  finds _ _ _ _ _ _ _ := trivial

theorem reportUnclosed {kind : RegionKind} {opening : Span} (on : opening.On text) :
    Sees text before (Parser.reportUnclosed kind opening) fun _ _ => True := by
  apply ofPlaced
  intro placed
  apply peek
  have here := Span.on_emptyAt placed.cursor.peek.start
  apply (report (Diagnostic.on_errorWithFix on here (by rintro _ _ ⟨⟩))).bind
  rintro _ _ _ _ rfl
  exact halt.mono fun _ _ _ _ _ => trivial

theorem reportUnterminated {kind : RegionKind} {implicitTerminator : Bool}
    {blocks : List (Block Operation)} {closing : Span} (on : closing.On text)
    (inText : ∀ block ∈ blocks, block.span.On text) :
    Sees text before (Parser.reportUnterminated kind implicitTerminator blocks closing)
      fun _ after => after = before := by
  apply ite
  · intro _
    exact pure rfl
  · intro _
    refine change ?_ ?_
    · exact fun _ => rfl
    intro state placed _
    apply placed.append
    intro diagnostic member
    obtain ⟨block, listed, rfl⟩ := List.mem_map.1 member
    have inside := inText block (List.mem_of_mem_filter listed)
    refine Diagnostic.on_errorWithFix ?_ (Span.on_emptyAt inside.stop) (by rintro _ _ ⟨⟩)
    split
    · exact on
    · exact inside

/-- What a region ends with: its blocks, and the span of the brace that closes it. -/
def FindsEnd (text : List Char) (levels : Nat) (first : Stage)
    (found : List (Block Operation) × Span) (after : Stage) : Prop :=
  ∃ last, Surveyed text levels first found.1 last ∧ found.1 ≠ [] ∧ found.2.start = last.here ∧
    Stage.Covers text last after found.2 ∧ found.2.stop = after.lastStop ∧
      Stage.Stretch text last after

/-- A step through the blocks of a region keeps what is known of them. -/
theorem blockStep (regions : OfRegions text levels region) (traced : Traced.Regions region)
    {kind : RegionKind} {opening : Span} (on : opening.On text) {first : Stage}
    {progress : Progress} (surveyed : Surveyed text levels first progress.blocks before) :
    Sees text before (Parser.blockStep region kind opening progress)
      (EndsAt (fun progress after => Surveyed text levels first progress.blocks after)
        (FindsEnd text levels first)) := by
  have skipped : ∀ middle, Stage.Stretch text before middle →
      Sees text middle (skipUnit before.cursor progress)
        (EndsAt (fun progress after => Surveyed text levels first progress.blocks after)
          (FindsEnd text levels first)) := by
    intro middle toMiddle
    apply (resynchronize before.cursor).bind
    intro _ last placedLast toLast _
    exact pure (surveyed.onward (toMiddle.trans ⟨toMiddle.stop, placedLast, toLast⟩))
  have placed := surveyed.stretch.stop
  rw [blockStep_eq]
  apply cursor
  apply look
  intro halted
  apply ite
  · exact fun _ => fail
  · intro _
    apply ite
    · intro closes
      have passes : before.Passes before.cursor.peek before.next :=
        ((Stage.passes_iff (fun token => token.isPunct .rightBrace) fun _ => rfl).1
          ⟨closes, rfl, rfl⟩).2
      have brace := placed.passes passes
      apply skip.bind
      rintro _ after placedAfter toAfter rfl
      refine pure ⟨before, surveyed, ?_, brace.2.1, placed.covers passes, brace.2.2, placed,
        placedAfter, toAfter⟩
      rw [Progress.blocks_eq]
      exact List.append_ne_nil_of_right_ne_nil _ (List.cons_ne_nil _ _)
    · intro _
      apply ite
      · intro _
        exact (reportUnclosed on).bind fun _ _ _ _ _ => fail
      · intro _
        apply ite
        · intro _
          apply (blockHeader regions).attempt
          intro draft middle placedMiddle toMiddle found
          have stretch : Stage.Stretch text before middle := ⟨placed, placedMiddle, toMiddle⟩
          cases draft with
          | none => exact skipped middle stretch
          | some draft =>
            obtain ⟨known, labeled, fresh⟩ := found draft rfl
            exact pure (surveyed.nextLabeled stretch known labeled fresh)
        · intro _
          apply (operation regions traced).attempt
          intro op middle placedMiddle toMiddle found
          have stretch : Stage.Stretch text before middle := ⟨placed, placedMiddle, toMiddle⟩
          cases op with
          | none => exact skipped middle stretch
          | some op =>
            have has := found op rfl
            apply map
            apply (place has.covers.on).mono
            rintro _ _ _ _ ⟨rfl, rfl⟩
            exact surveyed.pushProgress has stretch

/-- A region between braces is as it should be if its blocks are. -/
theorem contains {first before last after : Stage} {opening : Token} {closing : Span}
    {kind : RegionKind} {blocks : List (Block Operation)}
    (stretch : Stage.Stretch text first before)
    (passes : first.Passes opening before) (surveyed : Surveyed text levels before blocks last)
    (nonempty : blocks ≠ []) (here : closing.start = last.here)
    (covers : Stage.Covers text last after closing) (stop : closing.stop = after.lastStop)
    (closes : Stage.Stretch text last after) :
    Stage.Contains text (Region.Thorough text (levels + 1)) first
      { kind, blocks, scope := before.scope, span := opening.span.cover closing } after := by
  obtain ⟨brace, opens, inside⟩ := stretch.start.passes passes
  have toFirst : before.lastStop ≤ before.here := surveyed.stretch.start.lastStop_le_here
  have toLast : before.here ≤ last.here := surveyed.stretch.onward.here_le surveyed.stretch.start
  have ordered := brace.span.ordered
  have closingOrdered := covers.on.ordered
  have span : opening.span.cover closing = ⟨first.here, after.lastStop⟩ := by
    rw [Span.cover, Nat.min_eq_left (by omega), Nat.max_eq_right (by omega), opens, stop]
  have nonreversed : first.here ≤ after.lastStop := by omega
  have on : Span.On text ⟨first.here, after.lastStop⟩ :=
    ⟨nonreversed, opens ▸ brace.span.start, stop ▸ covers.on.stop⟩
  rw [span]
  constructor
  · exact stretch.onward.scope_eq
  · exact ⟨on, Nat.le_refl _, Nat.le_refl _⟩
  · intro table grows
    have within : ∀ block ∈ blocks, Span.Within text ⟨first.here, after.lastStop⟩ block.span := by
      intro block member
      have known := surveyed.known block member
      have starts := known.start
      have stops := known.stop
      exact ⟨known.placed.span, by simp only; omega, by simp only; omega⟩
    have placed : Region.Placed text ⟨kind, blocks, before.scope, ⟨first.here, after.lastStop⟩⟩ :=
      ⟨on, fun block member => ⟨within block member, (surveyed.known block member).placed⟩,
        surveyed.ordered⟩
    refine ⟨⟨Nat.succ_pos _, placed, ?_, nonempty, surveyed.shaped⟩, ?_⟩
    · intro definition member
      obtain ⟨block, inRegion, inBlock⟩ := List.mem_flatMap.1 member
      exact (surveyed.known block inRegion).names definition inBlock
    · intro child member
      obtain ⟨block, inRegion, inBlock⟩ := List.mem_flatMap.1 member
      exact (surveyed.known block inRegion).inside child inBlock table
        (closes.onward.grown.table.trans grows)
  · exact surveyed.scopes.widen stretch.onward.size_le closes.onward.size_le
  · exact Nat.lt_of_le_of_lt (surveyed.stretch.trans closes).onward.length_le
      (Grammar.progresses_passes passes)

/-- A region after its opening brace. -/
theorem blocks (regions : OfRegions text levels region) (traced : Traced.Regions region)
    {kind : RegionKind} {implicitTerminator : Bool} {first : Stage}
    (stretch : Stage.Stretch text first before) {opening : Token}
    (passes : first.Passes opening before) :
    Sees text before (Parser.blocks region kind implicitTerminator opening.span)
      (Stage.Contains text (Region.Thorough text (levels + 1)) first) := by
  have brace := stretch.start.passes passes
  apply scope
  apply peek
  let sofar : Progress → Stage → Prop := fun progress after =>
    Surveyed text levels before progress.blocks after
  have start : sofar { current := .startingAt before.here } before :=
    (Surveyed.nil stretch.stop).concat (.refl stretch.stop) (.empty stretch.stop) (Nat.le_refl _)
      (by rintro _ ⟨⟩) (by rintro _ ⟨⟩) .nil
  have loop : Sees text before (Parser.iterate (Parser.blockStep region kind opening.span) _)
      (FindsEnd text levels before) :=
    iterate start fun progress stage _ surveyed => blockStep regions traced brace.1.span surveyed
  apply loop.bind
  rintro ⟨blocks, closing⟩ middle _ _ ⟨last, surveyed, nonempty, here, covers, stop, closes⟩
  have inText : ∀ block ∈ blocks, block.span.On text := fun block member =>
    (surveyed.known block member).placed.span
  apply (reportUnterminated covers.on inText).bind
  rintro _ _ _ _ rfl
  exact pure (contains stretch passes surveyed nonempty here covers stop closes)

/-! ## Regions -/

theorem tooDeep {finds : Region Operation → Stage → Prop} :
    Sees text before Parser.tooDeep finds := by
  apply options
  intro options
  apply reportExpected.bind
  rintro _ _ _ _ rfl
  exact halt.bind fun _ _ _ _ _ => fail

theorem regionWithin (levels : Nat) : OfRegions text levels (Parser.regionWithin levels) := by
  induction levels with
  | zero =>
    intro kind implicitTerminator before
    apply checkHalted.bind
    rintro halted _ _ _ rfl
    exact ite (fun _ => fail) fun _ => tooDeep
  | succ levels ih =>
    intro kind implicitTerminator before
    apply checkHalted.bind
    rintro halted _ placed _ rfl
    apply ite
    · exact fun _ => fail
    · intro _
      apply punct.bind
      rintro opening inside placedInside onward ⟨_, passes⟩
      exact blocks ih (Traced.regionWithin levels) ⟨placed, placedInside, onward⟩ passes

end Sees

end CirText.Parser
