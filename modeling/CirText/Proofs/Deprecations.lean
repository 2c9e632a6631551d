import CirText.Proofs.Operation.Deprecated
import CirText.Proofs.Parser.Passage
import CirText.Proofs.Parser.Progress
import CirText.Proofs.Parser.Quiet

/-!
# Warnings of deprecated forms

When nothing is wrong with a source unit, there is one warning for each operation of the module that
is written in a deprecated form and no other. What is owed for an operation is known when its end
has been read; blocks, regions and source units pass on what is owed for the operations in them.
-/

namespace CirText

open CirText.Parser

namespace Parser

/-! ## Warnings of operations -/

namespace Warns

variable {first : Cursor} {parser : RegionKind → Bool → Parser (Region Operation)}
  {region : RegionKind → Bool → Meaning (Region Operation)}

/-- Whether a parser of regions warns of all that is owed for the operations in them. -/
def OfRegions (first : Cursor) (parser : RegionKind → Bool → Parser (Region Operation)) : Prop :=
  ∀ kind implicitTerminator, Warns first (parser kind implicitTerminator) fun new _ _ inner _ =>
    Settles new (Operation.deprecations first.rest inner.ops)

/-- What is owed for an operation whose keyword is about to be read. -/
def owedFrom (tokens : List Token) (start after : Cursor)
    (found : Nat × Form × Body (Region Operation)) :
    List (Option Diagnostic) :=
  Operation.deprecations tokens (found.2.2.payload.regions.flatMap Region.ops) ++
    (found.2.2.payload.deprecated? found.2.1).toList.map fun message =>
      some (.warning (.deprecated found.2.2.payload.opcode message) (start.spanBetween after))

theorem fromKeyword (regions : Means.OfRegions parser region) (owes : OfRegions first parser) :
    Warns first (Parser.fromKeyword parser) fun new _ before found after =>
      Settles new (owedFrom first.rest before.cursor after.cursor found) := by
  let posts : Cursor → List Diagnostic → Meaning (Nat × Form × Body (Region Operation)) :=
    fun start new _ _ found after => Settles new (owedFrom first.rest start after.cursor found)
  refine (cursor fun start => ?_ : Warns first _ fun new source before =>
    posts before.cursor new source before)
  refine ite (fun _ => ?_) fun _ => wrong (Means.expected _)
  have unknown : ∀ {diagnostic : Diagnostic}, diagnostic.isError = true → Warns first (do
      Parser.report diagnostic
      (fail : Parser (Nat × Form × Body (Region Operation)))) (posts start) := by
    intro diagnostic error
    refine wrong (Means.wrong_bind (fun _ _ => Means.not_clean_error error) fun _ => ?_)
    exact Means.clean_of_traced Traced.fail
  cases Opcode.ofKeyword? start.peek.text with
  | none => exact unknown rfl
  | some opcode =>
    have ending : ∀ (id : Nat) (form : Form), Warns first (do
        let body ← (Grammar.body opcode form).parse start parser
        Pure.pure (id, body.form form, body)) fun new source before found after =>
          form ∈ (Form.ruleOf opcode).forms → posts start new source before found after := by
      intro id form
      have steady := Grammar.body_steady (R := Region Operation) opcode form
      have warned : Warns first ((Grammar.body opcode form).parse start parser)
          fun new _ _ b after =>
          (Grammar.body opcode form).Warned
            (fun inner => Operation.deprecations first.rest inner.ops) start
            new b after.cursor :=
        Grammar.parse_warns regions owes _ steady (Grammar.body_recommendsLast opcode form)
      refine ((warned.withMeaning (Grammar.parse_means start regions _ steady).1).bind fun b =>
        pure _).mono ?_
      rintro _ source before _ after ⟨b, middle, new, _, rfl, ⟨settles, reads⟩, rfl,
        rfl, rfl⟩ selected
      have built := reads.builds
      have same := (Grammar.body_describes opcode form).opcode b built
      rw [Grammar.Warned, Grammar.missing?_body selected built] at settles
      have inside : (Grammar.body opcode form).regionsOf b = b.payload.regions :=
        Grammar.body_ordersRegions opcode form b built
      simp only [posts, owedFrom, Operation.deprecations_flatMap, List.append_nil]
      rw [same]
      cases told : b.payload.deprecated? (b.form form) <;> simpa [told, inside] using settles
    have skipped : Warns first Parser.skip fun new _ _ _ _ => new = [] :=
      silent Means.skip inherited_mute.skip inherited_forward.skip
    have numbered : Warns first Parser.takeId fun new _ _ _ _ => new = [] :=
      silent Means.takeId inherited_mute.takeId inherited_forward.takeId
    have chosen : Warns first (Parser.chooseForm opcode) fun new _ _ form _ =>
        new = [] ∧ form ∈ (Form.ruleOf opcode).forms :=
      (ofMeans (Means.chooseForm opcode) (inherited_mute.chooseForm opcode)
        (inherited_forward.chooseForm opcode)).mono
          fun _ _ _ _ _ given => ⟨given.1, Form.Rule.choose_mem given.2.1⟩
    have selected : ∀ id : Nat, Warns first (do
        let form ← Parser.chooseForm opcode
        let body ← (Grammar.body opcode form).parse start parser
        Pure.pure (id, body.form form, body)) (posts start) := by
      refine fun id => (chosen.bind fun form => ending id form).mono ?_
      rintro _ source before found after ⟨form, _, _, new, rfl, ⟨rfl, selected⟩, settles⟩
      exact settles selected
    refine (skipped.bind fun _ => numbered.bind fun id => naming (selected id)).mono ?_
    rintro _ source before found after ⟨_, _, _, _, rfl, rfl, _, _, _, new, rfl, rfl, settles⟩
    exact settles

/-- What is owed for an operation is known when its keyword has been read. -/
theorem owed_operation {text source : List Char} (placed : first.Placed text)
    (regions : Means.OfRegions parser region) {names : List Token}
    {before middle last after : Stage}
    {found : Nat × Form × Body (Region Operation)} {results : List Definition}
    (here : first.Reaches before.cursor) (toMiddle : before.cursor.Reaches middle.cursor)
    (toLast : middle.cursor.Reaches last.cursor)
    (named : ResultNamesRead source before names middle)
    (reads : FromKeywordReads region source middle found last)
    (defines : DefinesAll names last results after) :
    (owedFrom first.rest middle.cursor last.cursor found).Perm <| Operation.deprecations first.rest
      [.of { id := found.1, results, payload := found.2.2.payload, form := found.2.1,
             extra := found.2.2.extra, span := before.cursor.spanBetween after.cursor }] := by
  obtain ⟨keyword, inner, opcode, form, ⟨isKeyword, passes⟩, known, _, body, reads, rfl⟩ := reads
  let op : Operation := .of
    { id := middle.nextId, results, payload := body.payload, form := body.form form,
      extra := body.extra, span := before.cursor.spanBetween after.cursor }
  have bodyLeads :=
    (Grammar.parse_means first regions _ (Grammar.body_steady opcode form)).1.leads _ _ _ _ reads
  have rest : last.cursor.rest.length ≤ inner.rest.length := bodyLeads.length_le
  have fewer : last.cursor.rest.length < middle.cursor.rest.length :=
    Nat.lt_of_le_of_lt rest (Grammar.progresses_passes passes)
  have same := (Grammar.body_describes opcode form).opcode body reads.builds
  rw [Operation.deprecations_one]
  refine List.perm_append_comm.trans (.append_right _ (.of_eq ?_))
  change (body.payload.deprecated? (body.form form)).toList.map _ =
    if op.deprecated?.isSome then [op.deprecation? first.rest] else []
  cases told : body.payload.deprecated? (body.form form) with
  | none =>
    have fresh : op.deprecated? = none := told
    rw [fresh]
    rfl
  | some message =>
    have text_eq : keyword.text = opcode.keyword := by
      unfold Opcode.ofKeyword? at known
      have matched := List.find?_some known
      exact (beq_iff_eq.1 matched).symm
    have whole : op.span = ⟨before.cursor.here, last.cursor.lastStop⟩ := by
      change before.cursor.spanBetween after.cursor = _
      rw [defines.cursor_eq]
      exact (placed.reached here).spanBetween_eq (toMiddle.trans toLast)
        (Nat.lt_of_lt_of_le fewer toMiddle.length_le)
    have part : middle.cursor.spanBetween last.cursor = ⟨keyword.span.start, op.span.stop⟩ := by
      rw [(placed.reached (here.trans toMiddle)).spanBetween_eq toLast fewer, Cursor.here,
        Cursor.peek_of_cons passes.1, whole]
    have found : op.keyword? first.rest = some keyword := by
      refine Operation.keyword?_of_reads placed here named isKeyword passes ?_ (by rw [whole])
      rw [text_eq, ← same]
      rfl
    have deprecated : op.deprecated? = some message := told
    have warning : op.deprecation? first.rest =
        some (.warning (.deprecated op.opcode message) ⟨keyword.span.start, op.span.stop⟩) := by
      rw [Operation.deprecation?, deprecated, found]
      rfl
    rw [deprecated, warning, part]
    rfl

theorem operation {text : List Char} (placed : first.Placed text)
    (regions : Means.OfRegions parser region)
    (owes : OfRegions first parser) :
    Warns first (Parser.operation parser) fun new _ _ op _ =>
      Settles new (Operation.deprecations first.rest [op]) := by
  let posts : Cursor → List Diagnostic → Meaning Operation := fun start new _ before op _ =>
    before.cursor = start → Settles new (Operation.deprecations first.rest [op])
  have names : Warns first Parser.resultNames fun new source before names after =>
      (new = [] ∧ ResultNamesRead source before names after) ∧ first.Reaches before.cursor ∧
        before.cursor.Reaches after.cursor :=
    (ofMeans Means.resultNames inherited_mute.resultNames inherited_forward.resultNames).reached
  have keyword := ((fromKeyword regions owes).withMeaning (Means.fromKeyword regions)).reached
  have defines : ∀ names : List Token, Warns first (names.mapM (Parser.define .value))
      fun new _ before results after => new = [] ∧ DefinesAll names before results after :=
    fun names => ofMeans (Means.mapM_define names) (inherited_mute.mapM_define names)
      (inherited_forward.mapM_define names)
  have whole : Warns first (Parser.operation parser) fun new source before =>
      posts before.cursor new source before := by
    refine cursor fun start => (names.bind fun names => keyword.attempt_bind (fun found =>
      (defines names).bind fun results => cursor fun now => pure _) ?_).mono ?_
    · exact Means.clean_of_traced ((Traced.mapM_define _).andThen fun _ _ => Traced.fail)
    · rintro _ source before op after ⟨names, middle, _, _, rfl, ⟨⟨rfl, named⟩, here, toMiddle⟩,
        found, last, new, _, rfl, ⟨⟨settles, reads⟩, _, toLast⟩, results, _, _, _, rfl,
        ⟨rfl, defines⟩, rfl, rfl, rfl⟩ rfl
      simp only [List.append_nil, List.nil_append]
      exact settles.congr (owed_operation placed regions here toMiddle toLast named reads defines)
  exact whole.mono fun _ _ _ _ _ settles => settles rfl

/-! ## Warnings of regions -/

theorem blockStep {text : List Char} (placed : first.Placed text)
    (regions : Means.OfRegions parser region)
    (owes : OfRegions first parser) (kind : RegionKind) (opening : Span) (progress : Progress) :
    Warns first (Parser.blockStep parser kind opening progress) fun new _ before outcome after =>
      Owes (fun progress => Operation.deprecations first.rest (progressOps progress))
        (fun found => Operation.deprecations first.rest (found.1.flatMap (·.ops)))
          progress new outcome ∧ ∀ next, outcome = .again next → after.rest.length <
            before.rest.length := by
  let owed : List Diagnostic → Meaning (Step Progress (List (Block Operation) × Span)) :=
    fun new _ _ outcome _ =>
      Owes (fun progress => Operation.deprecations first.rest (progressOps progress))
        (fun found => Operation.deprecations first.rest (found.1.flatMap (·.ops)))
        progress new outcome
  have resume : ∀ {start : Cursor}, Traced (skipUnit start progress) fun _ _ => True :=
    (Traced.resynchronize _).andThen fun _ _ => .pure trivial
  have closed : ∀ start : Cursor, Warns first (do
      Parser.skip
      Pure.pure (Step.done (progress.blocks, start.peek.span) :
        Step Progress (List (Block Operation) × Span))) owed := by
    intro start
    have skipped : Warns first Parser.skip fun new _ _ _ _ => new = [] :=
      silent Means.skip inherited_mute.skip inherited_forward.skip
    refine (skipped.bind fun _ => pure _).mono ?_
    rintro _ source before _ after ⟨_, _, _, _, rfl, rfl, rfl, rfl, _⟩
    simp [owed, Owes, progressOps]
  have unclosed : Warns first (do
      Parser.reportUnclosed kind opening
      (fail : Parser (Step Progress (List (Block Operation) × Span)))) owed := by
    refine wrong (Means.wrong_bind (fun input state clean => Means.not_clean_error rfl clean)
      fun _ => ?_)
    exact Means.clean_of_traced Traced.fail
  have header : ∀ start : Cursor,
      Warns first (Parser.attempt (Parser.blockHeader parser) >>= afterHeader start progress)
      owed := by
    intro start
    have labeled : Warns first (Parser.blockHeader parser) fun new source before draft after =>
        new = [] ∧ BlockHeaderReads region source before draft after :=
      ofMeans (Means.blockHeader regions) inherited_mute.blockHeader inherited_forward.blockHeader
    have tried : Warns first (Parser.attempt (Parser.blockHeader parser) >>=
        afterHeader start progress) _ :=
      labeled.attempt_bind (fun draft => pure _) (Means.clean_of_traced resume)
    refine tried.mono ?_
    rintro _ source before _ after ⟨draft, _, _, _, rfl, ⟨rfl, reads⟩, rfl, rfl, _⟩
    obtain ⟨header, _, rfl⟩ := reads
    simp only [owed, Owes]
    rw [progressOps_nextLabeled rfl]
    simp
  have next : ∀ start : Cursor,
      Warns first (Parser.attempt (Parser.operation parser) >>= afterOperation kind start progress)
      owed := by
    intro start
    have placing : ∀ op, Warns first (Parser.place kind progress op) fun new _ _ placed _ =>
        new = [] ∧ placed = progress.push op := fun op =>
      (ofMeans (Means.place kind progress op) (inherited_mute.place kind progress op)
        (inherited_forward.place kind progress op)).mono fun _ _ _ _ _ given =>
          ⟨given.1, given.2.2.1⟩
    refine ((operation placed regions owes).attempt_bind (fun op => map (placing op))
      (Means.clean_of_traced resume)).mono ?_
    rintro _ source before _ after ⟨op, _, new, _, rfl, settles, _, ⟨rfl, rfl⟩, rfl⟩
    simp only [owed, Owes]
    rw [progressOps_push, Operation.deprecations_append, List.append_nil]
    exact settles.symm.append_left _
  have step : Warns first (Parser.blockStep parser kind opening progress) owed := by
    rw [blockStep_eq]
    refine look fun start => halted ?_ fun _ _ clean => clean
    simp only [Bool.false_eq_true, if_false]
    exact ite (fun _ => closed start) fun _ => ite (fun _ => unclosed) fun _ =>
      ite (fun _ => header start) fun _ => next start
  refine (step.withMeaning (Means.blockStep regions kind opening progress)).mono ?_
  rintro new source before outcome after ⟨owing, reads⟩
  refine ⟨owing, ?_⟩
  rintro further rfl
  exact Means.progresses_blockStep regions reads

theorem blocks {text : List Char} (placed : first.Placed text)
    (regions : Means.OfRegions parser region)
    (owes : OfRegions first parser) (kind : RegionKind) (implicitTerminator : Bool)
    (opening : Span) :
    Warns first (Parser.blocks parser kind implicitTerminator opening) fun new _ _ inner _ =>
      Settles new (Operation.deprecations first.rest inner.ops) := by
  refine look fun scope => look fun start => ?_
  have terminated : ∀ found : List (Block Operation) × Span,
      Warns first (Parser.reportUnterminated kind implicitTerminator found.1 found.2)
      fun new _ _ _ _ => new = [] :=
    fun found => silent (Means.reportUnterminated kind implicitTerminator found.1 found.2)
      (inherited_mute.reportUnterminated kind implicitTerminator found.1 found.2)
      (inherited_forward.reportUnterminated kind implicitTerminator found.1 found.2)
  refine ((iterate (blockStep placed regions owes kind opening) _).bind fun found =>
    (terminated found).bind fun _ => pure _).mono ?_
  rintro _ source before _ after ⟨found, _, new, _, rfl, all, _, _, _, _, rfl, rfl, rfl, rfl, _⟩
  have start : progressOps { current := BlockDraft.startingAt start.span.start } = [] := rfl
  rw [start] at all
  rw [List.append_nil, List.append_nil]
  exact all.symm

/-- Regions warn of all that is owed for the operations in them. -/
theorem regionWithin {text : List Char} (placed : first.Placed text) (levels : Nat) :
    OfRegions first (Parser.regionWithin levels) := by
  induction levels with
  | zero =>
    intro kind implicitTerminator
    exact checkHalted (wrong (Means.wrong fun _ _ => Means.not_clean_error rfl))
      (Means.clean_of_traced Traced.fail)
  | succ levels ih =>
    intro kind implicitTerminator
    have opened : Warns first (Parser.punct .leftBrace) fun new _ _ _ _ => new = [] :=
      silent (Means.punct _) (inherited_mute.punct _) (inherited_forward.punct _)
    refine checkHalted ((opened.bind fun opening =>
      blocks placed (Means.regionWithin levels) ih kind implicitTerminator opening.span).mono ?_)
        (Means.clean_of_traced Traced.fail)
    rintro _ source before inner after ⟨_, _, _, new, rfl, rfl, settles⟩
    exact settles

/-! ## Warnings of source units -/

theorem items {text : List Char} (placed : first.Placed text)
    (regions : Means.OfRegions parser region)
    (owes : OfRegions first parser) (braced : Bool) :
    Warns first (Parser.items parser braced) fun new _ _ ops _ =>
      Settles new (Operation.deprecations first.rest ops) := by
  let owed : Operation → List (Option Diagnostic) :=
    fun op => Operation.deprecations first.rest [op]
  let next : List Diagnostic → Meaning (Option Operation × Bool) := fun new _ before found after =>
    Settles new (found.1.toList.flatMap owed) ∧
      (found.2 = true → after.rest.length < before.rest.length)
  have ended : Warns first (Pure.pure (none, false)) next := by
    refine (pure _).mono ?_
    rintro _ source before _ after ⟨rfl, rfl, rfl⟩
    exact ⟨.nil, by rintro ⟨⟩⟩
  have declared : Warns first (Parser.declaration parser) fun new source before op after =>
      Settles new (owed op) ∧ OperationReads region source before op after := by
    refine look fun token => ite (fun _ => ?_) fun _ => wrong (Means.expected _)
    exact (operation placed regions owes).withMeaning (Means.operation regions)
  have resume : ∀ {start : Cursor}, Traced (afterItem start none) fun _ _ => True :=
    (Traced.resynchronize _).andThen fun _ _ => .look fun _ => .pure trivial
  have item : ∀ start : Cursor,
      Warns first (Parser.attempt (Parser.declaration parser) >>= afterItem start) next := by
    intro start
    have tried : Warns first (Parser.attempt (Parser.declaration parser) >>= afterItem start) _ :=
      declared.attempt_bind (fun op => pure _) (Means.clean_of_traced resume)
    refine tried.mono ?_
    rintro _ source before _ after ⟨op, _, new, _, rfl, ⟨settles, reads⟩, rfl, rfl, rfl⟩
    refine ⟨?_, fun _ => Means.progresses_operation regions _ _ _ _ reads⟩
    simpa using settles
  have steps : Warns first (itemStep parser braced) next :=
    checkHalted (look fun start => ite (fun _ => ended) fun _ => item start) fun _ _ clean => clean
  rw [items_eq_collect]
  refine (collect steps).mono fun new source before ops after settles => ?_
  rwa [← Operation.deprecations_flatMap, List.flatMap_singleton'] at settles

/-- A source unit warns of all that is owed for the operations of the module. -/
theorem sourceUnit {text : List Char} (placed : first.Placed text) (levels : Nat) :
    Warns first (Parser.sourceUnit (Parser.regionWithin levels)) fun new _ _ found _ =>
      Settles new (Operation.deprecations first.rest found.2) := by
  have regions := Means.regionWithin levels
  have listed := items placed regions (regionWithin placed levels)
  have skipped : Warns first Parser.skip fun new _ _ _ _ => new = [] :=
    silent Means.skip inherited_mute.skip inherited_forward.skip
  have headed : ∀ start, Warns first (Parser.unitHeader start) fun new _ _ _ _ => new = [] :=
    fun start => silent (Means.unitHeader start) (inherited_mute.unitHeader start)
      (inherited_forward.unitHeader start)
  have opened : Warns first (Parser.punct .leftBrace) fun new _ _ _ _ => new = [] :=
    silent (Means.punct _) (inherited_mute.punct _) (inherited_forward.punct _)
  have closed : ∀ brace, Warns first (Parser.moduleEnd brace) fun new _ _ _ _ => new = [] :=
    fun brace => silent (Means.moduleEnd brace) (inherited_mute.moduleEnd brace)
      (inherited_forward.moduleEnd brace)
  have unbraced : Warns first (do
      Pure.pure ((none : Option ModuleHeader), ← Parser.items (Parser.regionWithin levels) false))
        fun new _ _ found _ => Settles new (Operation.deprecations first.rest found.2) := by
    refine ((listed false).bind fun ops => pure _).mono ?_
    rintro _ source before _ after ⟨ops, _, new, _, rfl, settles, rfl, rfl, _⟩
    rwa [List.append_nil]
  refine look fun start => ite (fun _ => ?_) fun _ => unbraced
  refine (skipped.bind fun _ => (headed start).bind fun header => opened.attempt_bind (fun brace =>
    (listed true).bind fun ops => halted ((closed brace).bind fun _ => pure (some header, ops))
      fun _ _ clean => clean) (Means.clean_of_traced ?_)).mono ?_
  · exact (Traced.items (Traced.regionWithin levels) false).weaken.andThen fun _ _ => .pure trivial
  · rintro _ source before _ after ⟨_, _, _, _, rfl, rfl, header, _, _, _, rfl, rfl, _, _, _, _,
      rfl, rfl, ops, _, new, _,
      rfl, settles, _, _, _, _, rfl, rfl, rfl, rfl, _⟩
    simpa using settles

end Warns

end Parser

/-! ## Warnings of parsing -/

/-- Parsing without errors warns of all that is owed for the operations of the module, and of
nothing else. -/
theorem parse_settles {source : String} {options : Options} (on : options.deprecations = true)
    (clean : (parse source options).hasErrors = false) :
    Settles ((parse source options).diagnostics.filter (·.isDeprecated))
      (Operation.deprecations (tokenize source).tokens (parse source options).unit.items) := by
  obtain ⟨clean, resolved⟩ := (parse_hasErrors source options .structural).1 clean
  let final := (Parser.run source options).2
  obtain ⟨_, given⟩ :=
    Warns.sourceUnit (Cursor.placed_start source) options.maxDepth
      ⟨source.toList, options, .structural⟩ (initial (tokenize source)) ⟨on, rfl⟩ clean
  obtain ⟨_, _, found, new, outcome, added, settles⟩ := given rfl (.refl _)
  have none_ : (initial (tokenize source)).deprecations = [] := by
    refine List.filter_eq_nil_iff.2 fun diagnostic member => ?_
    simp only [initial, Diagnostics.append, Array.toList_appendList, List.nil_append] at member
    obtain ⟨error, _, rfl⟩ := List.mem_map.1 member
    rintro ⟨⟩
  have items : (parse source options).unit.items = found.2 := by
    change ((Parser.run source options).1.getD (none, [])).2 = _
    rw [Parser.run, outcome, Option.getD_some]
  have warnings : ((parse source options).diagnostics.filter (·.isDeprecated)).Perm new := by
    have sorted : (parse source options).diagnostics =
        (final.diagnostics.append (final.tracker.finish.2.map .ofUnresolved)).sorted := rfl
    have same : final.deprecations = new := added.trans (by rw [none_, List.nil_append])
    rw [sorted, ← same, resolved]
    refine ((List.mergeSort_perm _ _).filter _).trans (.of_eq ?_)
    simp [State.deprecations, Diagnostics.append]
  rw [items]
  exact (warnings.map some).trans settles

/-- Switching the warnings of deprecated forms off leaves the module as it is and takes these
warnings, and nothing else, out of the diagnostics, whatever adapters are used. If the warnings are
on and there is no error, they are the warnings of those operations of the module that are written
in a deprecated form, one for each, from the keyword of the operation to its end. -/
theorem parse_deprecations (source : String) (options : Options) :
    (∀ adapters, (parse source options.quiet adapters).unit =
        (parse source options adapters).unit ∧
      (parse source options.quiet adapters).diagnostics =
        (parse source options adapters).diagnostics.filter (!·.isDeprecated)) ∧
      (options.deprecations = true → (parse source options).hasErrors = false →
        (((parse source options).diagnostics.filter (·.isDeprecated)).map some).Perm
          (((parse source options).unit.preorder.filter (·.deprecated?.isSome)).map
            (Operation.deprecation? (tokenize source).tokens))) :=
  ⟨parse_quiet source options, parse_settles⟩

/-- A bare conversion with a result is warned of once, from behind the name of its result. -/
theorem parse_deprecations_cast :
    (parse "cir.func @f(%p : !t) { %x = cir.cast bitcast %p cir.return }" {}).diagnostics.filter
      (·.isDeprecated) =
        [.warning (.deprecated .cast "bare `cir.cast` without a type annotation") ⟨28, 47⟩] := by
  have clean : (parse "cir.func @f(%p : !t) { %x = cir.cast bitcast %p cir.return }" {}).hasErrors =
      false := by
    cbv
  have owed : ((parse "cir.func @f(%p : !t) { %x = cir.cast bitcast %p cir.return }"
      {}).unit.preorder.filter (·.deprecated?.isSome)).map (Operation.deprecation?
        (tokenize "cir.func @f(%p : !t) { %x = cir.cast bitcast %p cir.return }").tokens) =
      [some (.warning (.deprecated .cast "bare `cir.cast` without a type annotation")
        ⟨28, 47⟩)] := by
    cbv
  have given := (parse_deprecations _ {}).2 rfl clean
  rw [owed, List.perm_singleton] at given
  simpa [List.map_eq_cons_iff] using given

end CirText
