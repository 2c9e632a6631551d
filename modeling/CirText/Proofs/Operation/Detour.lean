import CirText.Proofs.Grammar.Detour
import CirText.Proofs.Operation.Boundaries

/-!
# Operations and regions across a detour

If the junk stands in a region of an operation, the operation is the same but for its places, and so
is every region around it.
-/

namespace CirText

open CirText.Parser

/-- Of the operations with regions only loops are written in several forms. -/
theorem Payload.forms_of_regions {R : Type} (payload : Payload R) :
    Form.ruleOf payload.opcode ∈ [.only, .loop] ∨ payload.regions = [] := by
  cases payload with
  | instruction plain => exact .inr rfl
  | compound structured =>
    cases structured <;> exact .inl (by simp [opcode, Compound.opcode, Form.ruleOf])

/-- The form of an operation with regions depends on the next mark only. -/
theorem Form.choose_of_regions {opcode : Opcode} (known : Form.ruleOf opcode ∈ [.only, .loop])
    {cursor other : Cursor} (marks : ∀ mark, other.atPunct mark = cursor.atPunct mark) :
    Form.choose opcode other = Form.choose opcode cursor := by
  simp only [List.mem_cons, List.not_mem_nil, or_false] at known
  unfold Form.choose
  rcases known with only | loop
  · rw [only]
    rfl
  · rw [loop]
    unfold Form.Rule.choose
    simp only [Cursor.atPunct] at marks
    simp only [marks]

/-- Nothing is missing at the end of a body that is the same but for its places as one that is not
written in a deprecated form. -/
theorem missing?_of_same {opcode : Opcode} {form : Form} {cursor : Cursor}
    {b again : Body (Region Operation)}
    (chosen : Form.choose opcode cursor = .ok form)
    (same : (Grammar.body opcode form).Same Region.outline b again)
    (fresh : b.payload.deprecated? (b.form form) = none) :
    (Grammar.body opcode form).missing? again = none := by
  have unplaced := Grammar.unplaced_of_same same
  have forms : again.form form = b.form form := by
    rw [← Body.form_unplaced Region.outline, ← unplaced, Body.form_unplaced]
  have payload : again.payload.deprecated? (b.form form) = b.payload.deprecated? (b.form form) := by
    have payloads : again.payload.unplaced Region.outline = b.payload.unplaced Region.outline :=
      (congrArg Body.payload unplaced).symm
    rw [← Payload.deprecated?_unplaced Region.outline, payloads, Payload.deprecated?_unplaced]
  rw [Grammar.missing?_body (Form.Rule.choose_mem chosen) (builds_of_same same),
    forms, payload, fresh]
  rfl

/-- The run of an operation after its keyword. -/
theorem Parser.afterKeyword_run {region : RegionKind → Bool → Parser (Region Operation)}
    {start : Cursor} {opcode : Opcode} {form : Form} {b : Body (Region Operation)} {input : Input}
    {state final : State}
    (chosen : chooseForm opcode input
      { state with nextId := state.nextId + 1, construct := opcode.keyword } =
        (some form, { state with nextId := state.nextId + 1, construct := opcode.keyword }))
    (ran : (Grammar.body opcode form).parse start region input
      { state with nextId := state.nextId + 1, construct := opcode.keyword } = (some b, final)) :
    afterKeyword region start opcode input state =
      (some (state.nextId, b.form form, b), { final with construct := state.construct }) := by
  simp only [afterKeyword, bind_run, takeId, naming, chosen, ran]
  rfl

namespace Detour

variable {detour : Detour} {parser : RegionKind → Bool → Parser (Region Operation)}
  {region : RegionKind → Bool → Meaning (Region Operation)} {hit : Region Operation → Prop}
  {before middle after : Stage}

/-- No value comes where the texts part. -/
theorem noValue (detour : Detour) : ¬detour.ahead.MeetsValue := by
  unfold Fork.MeetsValue
  rw [detour.beyond]
  rcases detour.opens with none_ | ⟨brace, isBrace, only⟩
  · rw [none_]
    intro isValue
    have kind : detour.refused.kind = .value := Option.some.inj isValue
    have refuses := detour.refuses
    simp [Parser.refuses, kind, TokenKind.resumes] at refuses
  · rw [only]
    intro isValue
    have kind : brace.kind = .value := Option.some.inj isValue
    rw [Token.isPunct, kind] at isBrace
    cases isBrace

/-- Unless an opening brace comes next, tokens are left in front of the junk. -/
theorem Comes.ne_nil {stage : Stage} (comes : detour.Comes stage) {taken : List Token}
    (rest : stage.rest = taken ++ detour.ahead.behind)
    (other : stage.cursor.atPunct .leftBrace = false) :
    taken ≠ [] := by
  rintro rfl
  obtain ⟨shared, same, brace, member, isBrace⟩ := comes
  obtain rfl : shared = [] := List.append_cancel_right (same.symm.trans rest)
  rcases detour.opens with none_ | ⟨opening, isOpening, only⟩
  · rw [none_] at member
    cases member
  · have here : stage.cursor.rest = opening :: detour.left := by
      rw [show stage.cursor.rest = _ from rest, detour.behind, only]
      rfl
    rw [Cursor.atPunct, Cursor.peek_of_cons here, isOpening] at other
    cases other

/-- Where the next token stands at the offset of the one behind the junk, the junk comes next. -/
theorem rest_eq_left (plain : detour.opening = []) {offset : Nat}
    (place : detour.left.head?.map (·.span.start) = some offset) {stage : Stage}
    (within : stage.rest <:+ detour.tokens)
    (more : stage.rest ≠ []) (here : offset = stage.cursor.peek.span.start) :
    stage.rest = detour.left := by
  obtain ⟨token, rest, tokens⟩ := List.exists_cons_of_ne_nil more
  obtain ⟨first, starts, same⟩ := Option.map_eq_some_iff.1 place
  obtain ⟨others, left⟩ := List.head?_eq_some_iff.1 starts
  have leftIn : detour.left <:+ detour.tokens := by
    have ends := detour.ends
    rwa [detour.behind, plain] at ends
  rw [tokens, left]
  refine detour.ordered.suffix_eq (tokens ▸ within) (left ▸ leftIn) ?_
  rw [same, here, Cursor.peek_of_cons (show stage.cursor.rest = _ from tokens)]

/-- What is read in front of the place of the junk starts there. -/
theorem start_lt_offset (plain : detour.opening = []) {offset : Nat}
    (place : detour.left.head?.map (·.span.start) = some offset)
    (within : before.rest <:+ detour.tokens)
    (leads : before.Leads middle) (fewer : middle.rest.length < before.rest.length)
    (shared : ∃ left, middle.rest = left ++ detour.ahead.behind) :
    before.cursor.peek.span.start < offset := by
  obtain ⟨first, starts, same⟩ := Option.map_eq_some_iff.1 place
  obtain ⟨others, isLeft⟩ := List.head?_eq_some_iff.1 starts
  obtain ⟨took, leads⟩ := leads
  obtain ⟨left, shared⟩ := shared
  have some_ : took ≠ [] := by
    rintro rfl
    rw [leads] at fewer
    exact absurd fewer (Nat.lt_irrefl _)
  obtain ⟨token, took, rfl⟩ := List.exists_cons_of_ne_nil some_
  have rest : before.rest = token :: (took ++ left ++ first :: others) := by
    rw [leads, shared, detour.behind, plain, isLeft]
    simp
  obtain ⟨_, ordered⟩ := detour.ordered.infix within.isInfix
  rw [rest] at ordered
  have behind := ordered.2.2.start_le first (List.mem_append_right _ List.mem_cons_self)
  have nonempty := ordered.2.1
  rw [← same, Cursor.peek_of_cons rest]
  omega

/-! ## Operations -/

section Operations

variable (regions : detour.Regions parser region hit)

include regions

/-- An operation in front of the junk is read in both texts. -/
theorem operation_ahead {op : Operation} {taken left : List Token} {state : State}
    (here : detour.Ahead taken before state)
    (reads : OperationReads region detour.ahead.source before op after)
    (rest : after.rest = left ++ detour.ahead.behind) (calm : op.Calm detour.options) :
    ∃ final, operation parser detour.input state = (some op, final) ∧
      detour.Ahead left after final ∧
      final.diagnostics = state.diagnostics :=
  here.reads (.operation regions.regular)
    (by intro _ _ _ _ _ _ reads abreast rest _
        exact Fork.operation regions.regular.means regions.ahead reads abreast rest
          (fun _ meets => absurd meets detour.noValue) fun _ meets => absurd meets detour.noValue)
    reads rest (fun _ => trivial) calm

/-- An operation crosses the junk from its keyword on if one of its regions does. -/
theorem crosses_fromKeyword {found : Nat × Form × Body (Region Operation)}
    (reads : FromKeywordReads region detour.ahead.source before found after)
    (within : before.rest <:+ detour.tokens)
    (isHit : ∃ inner ∈ found.2.2.payload.regions, hit inner)
    (calm : ∀ inner ∈ found.2.2.payload.regions, inner.Calm detour.options)
    (fresh : detour.options.deprecations = true → found.2.2.payload.deprecated? found.2.1 = none) :
    detour.Crosses (fromKeyword parser) before after fun again =>
      SameFromKeyword found again ∧
        (Grammar.body again.2.2.payload.opcode again.2.1).Builds again.2.2 := by
  obtain ⟨keyword, middle, opcode, form, ⟨isKeyword, passes⟩, known, chosen, b, reads, rfl⟩ := reads
  have built := reads.builds
  have listed : (Grammar.body opcode form).regionsOf b = b.payload.regions :=
    Grammar.body_ordersRegions opcode form b built
  have complete : detour.options.deprecations = true → ∀ again,
      (Grammar.body opcode form).Same Region.outline b again →
      (Grammar.body opcode form).missing? again = none :=
    fun wanted again same => missing?_of_same chosen same (fresh wanted)
  have crosses :=
    fun start => crosses_grammar regions start (Grammar.body opcode form) (Grammar.body_steady _ _)
    (Grammar.body_anchored _ _) (Grammar.body_stable _ _) (Grammar.body_recommendsLast _ _) reads
    (passes.leads.suffix.trans within) (by rw [listed]; exact isHit)
    (by rw [listed]; exact calm) complete
  have comes := (crosses before.cursor).comes
  refine ⟨comes.leads ⟨[keyword], passes.1⟩, fun {taken state} here => ?_⟩
  obtain ⟨left, rest, _⟩ := id comes
  obtain ⟨_, ⟨twinRest, rfl⟩, next⟩ := here.abreast.passes passes rest
  have peek : state.cursor.peek = keyword := Cursor.peek_of_cons twinRest
  let numbered : State :=
    { state with
      cursor := state.cursor.next
      nextId := state.nextId + 1
      construct := opcode.keyword }
  have inside : detour.Ahead left { middle with nextId := middle.nextId + 1 } numbered :=
    ⟨{ next with nextId := congrArg (· + 1) next.nextId }, here.live.live,
      here.live.reached.trans (.next _)⟩
  have hasRegions : Form.ruleOf opcode ∈ [.only, .loop] := by
    rw [← (Grammar.body_describes opcode form).opcode b built]
    refine b.payload.forms_of_regions.resolve_right fun none_ => ?_
    obtain ⟨_, member, _⟩ := isHit
    rw [none_] at member
    cases member
  have chosenAgain : chooseForm opcode detour.input numbered = (some form, numbered) := by
    have same : Form.choose opcode numbered.cursor = .ok form :=
      (Form.choose_of_regions hasRegions fun mark =>
        inside.abreast.holds_eq (.punct mark) fun parted =>
        comes.settled rest parted _).trans chosen
    simp only [chooseForm, bind_run, cursor, look, same]
    rfl
  obtain ⟨again, final, diagnostic, run, same, done, reports, reported⟩ :=
    (crosses state.cursor).runs inside
  refine ⟨(state.nextId, again.form form, again), { final with construct := state.construct },
    diagnostic, ?_,
    ⟨.of_same next.nextId.symm built same, builds_fromKeyword (builds_of_same same)⟩,
    ⟨done.follows, done.live.live, done.live.reached⟩, reports, reported⟩
  rw [fromKeyword_run_of_known (by rw [peek, isKeyword]) (by rw [peek, known])]
  exact afterKeyword_run chosenAgain run

/-- An operation crosses the junk if one of its regions does. -/
theorem crosses_operation {op : Operation}
    (reads : OperationReads region detour.ahead.source before op after)
    (within : before.rest <:+ detour.tokens) (isHit : ∃ inner ∈ op.payload.regions, hit inner)
    (calm : op.Calm detour.options) :
    detour.Crosses (operation parser) before after op.Matches := by
  obtain ⟨names, start, named, found, last, keyword, results, defines, rfl⟩ := reads
  obtain ⟨fresh, calm⟩ := Operation.calm_iff.1 calm
  have toKeyword := Means.resultNames.leads _ _ _ _ named
  obtain ⟨comes, crosses⟩ :=
    crosses_fromKeyword regions keyword (toKeyword.suffix.trans within) isHit calm fresh
  refine ⟨comes.leads toKeyword, fun {taken state} here => ?_⟩
  obtain ⟨left, rest, _⟩ := id comes
  have noBrace : start.cursor.atPunct .leftBrace = false := by
    obtain ⟨token, _, _, _, ⟨isKeyword, passes⟩, _⟩ := keyword
    rw [Cursor.atPunct, Cursor.peek_of_cons passes.1, Token.isPunct, isKeyword]
    rfl
  obtain ⟨begun, run, midway, unchanged⟩ := here.reads .resultNames
    (by
      intro _ _ _ _ _ _ reads abreast rest parted
      exact Fork.resultNames abreast reads rest parted)
    named rest (comes.ne_nil rest noBrace) trivial
  obtain ⟨again, between, diagnostic, runKeyword, ⟨same, built⟩, beyond, reports, reported⟩ :=
    crosses midway
  obtain ⟨others, final, runDefine, sameResults, done, kept⟩ := beyond.reads (.mapM_define names)
    (by
      intro _ _ _ _ defines follows
      exact follows.definesAll defines (List.forall₂_same.2 fun _ _ => rfl))
    defines fun _ _ => trivial
  let twin : Node (Region Operation) :=
    { id := again.1
      results := others
      payload := again.2.2.payload
      form := again.2.1
      extra := again.2.2.extra
      span := state.cursor.spanBetween final.cursor }
  refine ⟨.of twin, final, diagnostic, ?_,
    same.matches keyword.builds built sameResults _ _, done, reports,
    kept.trans (by rw [reported, unchanged])⟩
  change (Parser.resultNames >>= fun names => attempt (fromKeyword parser) >>= fun read =>
    names.mapM (define .value) >>= fun results =>
      endOperation state.cursor results read) detour.input state = _
  rw [bind_run, run]
  dsimp only
  rw [attempt_bind_run, runKeyword]
  dsimp only
  rw [bind_run, runDefine]
  rfl

end Operations

end Detour

/-! ## Blocks -/

namespace Parser

variable {parser : RegionKind → Bool → Parser (Region Operation)} {input : Input}
    {state next : State}
  {kind : RegionKind} {opening : Span} {progress : Progress}

/-- A step that reads the header of a block. -/
theorem blockStep_header {draft : BlockDraft} (live : state.halted = false)
    (inside : state.cursor.atPunct .rightBrace = false) (more : state.cursor.atEnd = false)
    (starts : Cursor.startsBlock state.cursor.rest = true)
    (ran : blockHeader parser input state = (some draft, next)) :
    blockStep parser kind opening progress input state =
      (some (.again (progress.nextLabeled draft)), next) := by
  rw [blockStep_run, live, inside, more, starts]
  simp only [Bool.false_eq_true, if_false, if_true]
  rw [attempt_bind_run, ran]
  rfl

/-- A step that reads an operation. -/
theorem blockStep_operation {op : Operation} (live : state.halted = false)
    (inside : state.cursor.atPunct .rightBrace = false) (more : state.cursor.atEnd = false)
    (starts : Cursor.startsBlock state.cursor.rest = false)
    (ran : operation parser input state = (some op, next)) (admits : progress.Admits kind op) :
    blockStep parser kind opening progress input state =
      (some (.again (progress.push op)), next) := by
  have placed : place kind progress op input next = (some (progress.push op), next) := by
    rw [place, admits.1, admits.2]
    rfl
  rw [blockStep_run, live, inside, more, starts]
  simp only [Bool.false_eq_true, if_false]
  rw [attempt_bind_run, ran]
  dsimp only [afterOperation]
  rw [map_run, placed]
  rfl

end Parser

namespace Detour

variable {detour : Detour} {parser : RegionKind → Bool → Parser (Region Operation)}
  {region : RegionKind → Bool → Meaning (Region Operation)} {hit : Region Operation → Prop}
  {before middle after : Stage}

/-- Whether what a parser reads between two stages starts in front of the junk and ends behind it,
and is something with a property in the second text. -/
structure Straddles (detour : Detour) {α : Type} (parser : Parser α) (before after : Stage)
    (same : α → Prop) : Prop where
  shared : ∃ taken, before.rest = taken ++ detour.ahead.behind
  runs : detour.Runs parser before after same

theorem Straddles.mono {α : Type} {parser : Parser α} {property weaker : α → Prop}
    (straddles : detour.Straddles parser before after property)
    (implies : ∀ a, property a → weaker a) :
    detour.Straddles parser before after weaker := by
  refine ⟨straddles.shared, fun {taken state} here => ?_⟩
  obtain ⟨a, final, diagnostic, run, holds, done⟩ := straddles.runs here
  exact ⟨a, final, diagnostic, run, implies a holds, done⟩

/-- A loop with a step in front of the junk straddles it if the rest of the loop does. -/
theorem Straddles.behind {σ α : Type} {step : σ → Parser (Step σ α)} {begun onward : σ}
    {property : α → Prop} (others : detour.Straddles (iterate step onward) middle after property)
    (leads : before.Leads middle)
    (fewer : middle.rest.length < before.rest.length)
    (ahead : ∀ {taken left : List Token} {state : State}, detour.Ahead taken before state →
      taken ≠ [] → middle.rest = left ++ detour.ahead.behind →
        ∃ final, step begun detour.input state = (some (.again onward), final) ∧ detour.Ahead
          left middle final ∧ final.diagnostics = state.diagnostics) :
    detour.Straddles (iterate step begun) before after property := by
  obtain ⟨⟨left, rest⟩, runs⟩ := others
  obtain ⟨took, toMiddle⟩ := leads
  refine ⟨⟨took ++ left, by rw [toMiddle, rest, List.append_assoc]⟩, ?_⟩
  exact Runs.iterate_behind (fun here => ahead here (here.abreast.ne_nil rest fewer) rest)
    fewer runs

section Blocks

variable (regions : detour.Regions parser region hit) {kind : RegionKind} {opening : Span}
    {progress again : Progress}
  {found : List (Block Operation) × Span}

include regions

/-- Behind the junk the same blocks of a region are read in both texts. -/
theorem blocks_past {state : State} (here : detour.Past before state)
    (reads : BlocksRead region kind detour.ahead.source progress before found after)
    (calm : ∀ op ∈ found.1.flatMap (·.ops), op.Calm detour.options)
    (same : progress.Matches again) :
    ∃ result final, iterate (blockStep parser kind opening) again detour.input state =
      (some result, final) ∧ List.Forall₂ Block.Matches found.1 result.1 ∧ detour.Past after final ∧
        final.diagnostics = state.diagnostics := by
  obtain ⟨result, last, again, blocks, done, more, others, sameOps, ops, opsAgain⟩ :=
    Relocation.carries_blocks regions.past reads same here.follows
  have calmRest : ∀ op ∈ others, op.Calm detour.options :=
    Operation.Matches.forall_calm sameOps fun op member =>
      calm op (ops ▸ List.mem_append_right _ member)
  obtain ⟨final, run, past, kept⟩ :=
    here.run (.blocks regions.regular kind opening _) again done ⟨others, opsAgain, calmRest⟩
  exact ⟨result, final, run, blocks, past, kept⟩

/-- At the junk the blocks of a region are read on behind it, with one report. -/
theorem blocks_resume {state : State} (rest : before.rest = detour.left)
    (twin : state.cursor.rest =
      detour.refused :: (detour.junk ++ detour.left.map (.move detour.origin detour.target)))
    (live : state.Live detour.first) (tracker : state.tracker = before.tracker)
    (nextId : state.nextId = before.nextId)
    (reads : BlocksRead region kind detour.ahead.source progress before found after)
    (calm : ∀ op ∈ found.1.flatMap (·.ops), op.Calm detour.options)
    (same : progress.Matches again) :
    ∃ result final diagnostic, iterate (blockStep parser kind opening) again detour.input state =
      (some result, final) ∧ List.Forall₂ Block.Matches found.1 result.1 ∧ detour.Past after final ∧
        detour.Reports diagnostic ∧
        final.diagnostics = state.diagnostics.push diagnostic := by
  have past := Past.of_junk rest twin live tracker nextId
  obtain ⟨result, final, run, blocks, done, kept⟩ := blocks_past regions past reads calm same
  refine ⟨result, final, state.refusal, ?_, blocks, done,
    reports_refusal (Cursor.peek_of_cons twin), kept⟩
  rw [blocks_junk live.live twin detour.refuses detour.isJunk ((rest ▸ reads.resumes).move _ _),
    run]

/-- The blocks of a region are read in both texts if the junk comes next. -/
theorem straddles_here (plain : detour.opening = []) (rest : before.rest = detour.left)
    (reads : BlocksRead region kind detour.ahead.source progress before found after)
    (calm : ∀ op ∈ found.1.flatMap (·.ops), op.Calm detour.options)
    (same : progress.Matches again) :
    detour.Straddles (iterate (blockStep parser kind opening) again) before after fun result =>
      List.Forall₂ Block.Matches found.1 result.1 := by
  have shared : before.rest = [] ++ detour.ahead.behind := by
    rw [rest, detour.behind, plain]
    rfl
  refine ⟨⟨[], shared⟩, fun {taken state} here => ?_⟩
  obtain rfl : taken = [] := here.abreast.left_unique shared
  have twin : state.cursor.rest =
      detour.refused :: (detour.junk ++ detour.left.map (.move detour.origin detour.target)) := by
    rw [show state.cursor.rest = _ from here.abreast.there, detour.beyond, plain]
    rfl
  exact blocks_resume regions rest twin here.live here.abreast.tracker here.abreast.nextId
    reads calm same

/-- The blocks of a region are read in both texts if the operation that comes next has the junk
inside it. -/
theorem straddles_inside {op : Operation} (inside : before.cursor.atPunct .rightBrace = false)
    (first : OperationReads region detour.ahead.source before op middle)
    (crosses : detour.Crosses (operation parser) before middle op.Matches)
    (admits : progress.Admits kind op)
    (reads : BlocksRead region kind detour.ahead.source (progress.push op) middle found after)
    (calm : ∀ op ∈ found.1.flatMap (·.ops), op.Calm detour.options)
    (same : progress.Matches again) :
    detour.Straddles (iterate (blockStep parser kind opening) again) before after fun result =>
      List.Forall₂ Block.Matches found.1 result.1 := by
  obtain ⟨comes, runs⟩ := crosses
  have step : detour.Runs (blockStep parser kind opening again) before middle fun result =>
      ∃ onward, result = .again onward ∧ ∃ twin, onward = again.push twin ∧ op.Matches twin := by
    intro taken state here
    obtain ⟨twin, between, diagnostic, run, sameOp, midway, reported⟩ := runs here
    have noBrace : state.cursor.atPunct .rightBrace = false :=
      (here.abreast.holds_eq (.punct .rightBrace) fun parted =>
        comes.settled here.abreast.here parted _).trans inside
    have noBlock : Cursor.startsBlock state.cursor.rest = false :=
      (comes.startsBlock_eq here.abreast).trans first.not_startsBlock
    exact ⟨_, between, diagnostic,
      blockStep_operation here.live.live noBrace here.atEnd_eq noBlock run
      (same.admits sameOp admits),
      ⟨_, rfl, twin, rfl, sameOp⟩, midway, reported⟩
  have shorter := Means.progresses_operation regions.regular.means _ _ _ _ first
  refine ⟨comes.imp fun _ => And.left, step.iterate shorter fun {_ state} goesOn midway => ?_⟩
  obtain ⟨twin, rfl, sameOp⟩ := goesOn
  exact blocks_past regions midway reads calm (same.push sameOp)

/-- The blocks of a region are read in both texts if an operation comes before the junk. -/
theorem straddles_operation {op : Operation} {property : List (Block Operation) × Span → Prop}
    (inside : before.cursor.atPunct .rightBrace = false)
    (first : OperationReads region detour.ahead.source before op middle)
    (admits : again.Admits kind op)
    (calm : op.Calm detour.options)
    (others : detour.Straddles (iterate (blockStep parser kind opening) (again.push op)) middle
      after property) : detour.Straddles (iterate (blockStep parser kind opening)
      again) before after property := by
  have shorter := Means.progresses_operation regions.regular.means _ _ _ _ first
  have toMiddle := (Means.operation regions.regular.means).leads _ _ _ _ first
  refine others.behind toMiddle shorter fun {taken left state} here shared rest => ?_
  obtain ⟨between, run, midway, kept⟩ := operation_ahead regions here first rest calm
  have noBrace : state.cursor.atPunct .rightBrace = false :=
    (here.abreast.holds_eq (.punct .rightBrace) fun parted => absurd parted shared).trans inside
  have noBlock : Cursor.startsBlock state.cursor.rest = false := by
    refine Bool.eq_false_iff.2 fun starts => ?_
    have isLabel : (Guard.kind .label).holds state.cursor = true :=
      beq_iff_eq.2 (startsBlock_kind starts)
    have isLabel :=
      (here.abreast.holds_eq (.kind .label) fun parted => absurd parted shared).symm.trans isLabel
    rcases first.starts with kind | kind <;> simp [Guard.holds, Cursor.atKind, kind] at isLabel
  exact ⟨between, blockStep_operation here.live.live noBrace here.atEnd_eq noBlock run admits,
    midway, kept⟩

/-- The blocks of a region are read in both texts if a header comes before the junk that is
recognised in both. -/
theorem straddles_header {draft : BlockDraft} {property : List (Block Operation) × Span → Prop}
    (inside : before.cursor.atPunct .rightBrace = false)
    (first : BlockHeaderReads region detour.ahead.source before draft middle)
    (recognised : ∀ {taken : List Token} {state : State}, detour.Ahead taken before state →
      Cursor.startsBlock state.cursor.rest = true)
    (others : detour.Straddles (iterate (blockStep parser kind opening) (again.nextLabeled draft))
      middle after property) :
    detour.Straddles (iterate (blockStep parser kind opening) again) before after property := by
  have shorter := Means.progresses_blockHeader regions.regular.means _ _ _ _ first
  have toMiddle := (Means.blockHeader regions.regular.means).leads _ _ _ _ first
  refine others.behind toMiddle shorter fun {taken left state} here shared rest => ?_
  obtain ⟨between, run, midway, kept⟩ := here.reads (.blockHeader regions.regular)
    (by intro _ _ _ _ _ _ reads abreast rest _
        exact Fork.blockHeader regions.regular.means regions.ahead reads abreast rest)
    first rest (fun _ => trivial) trivial
  have noBrace : state.cursor.atPunct .rightBrace = false :=
    (here.abreast.holds_eq (.punct .rightBrace) fun parted => absurd parted shared).trans inside
  exact ⟨between, blockStep_header here.live.live noBrace here.atEnd_eq (recognised here) run,
    midway, kept⟩

/-- The blocks of a region are read in both texts if one of their operations has the junk inside
it. -/
theorem straddles_within
    (reads : BlocksRead region kind detour.ahead.source progress before found after)
    (within : before.rest <:+ detour.tokens)
    (calm : ∀ op ∈ found.1.flatMap (·.ops), op.Calm detour.options)
    (isHit : ∃ op ∈ found.1.flatMap (·.ops), ∃ inner ∈ op.payload.regions, hit inner)
    (fresh : ∀ op ∈ progressOps progress, ∀ inner ∈ op.payload.regions, ¬hit inner)
    (same : progress.Matches again) :
    detour.Comes before ∧ detour.Straddles (iterate (blockStep parser kind opening) again) before
      after fun result =>
      List.Forall₂ Block.Matches found.1 result.1 := by
  have means := regions.regular.means
  induction reads generalizing again with
  | close =>
    obtain ⟨op, member, inner, inside, isHit⟩ := isHit
    exact absurd isHit (fresh op member inner inside)
  | @header progress before middle after draft found inside more starts first rest ih =>
    have toMiddle := (Means.blockHeader means).leads _ _ _ _ first
    rw [← progressOps_nextLabeled first.start_eq.1] at fresh
    obtain ⟨comes, straddles⟩ :=
      ih (toMiddle.suffix.trans within) calm isHit fresh (same.nextLabeled (.refl draft))
    have comes := comes.leads toMiddle
    exact ⟨comes, straddles_header regions inside first
      (fun here => (comes.startsBlock_eq here.abreast).trans starts)
      straddles⟩
  | @operation progress before middle after op found inside more starts first admits rest ih =>
    have toMiddle := (Means.operation means).leads _ _ _ _ first
    have added : progressOps (progress.push op) = progressOps progress ++ [op] :=
      progressOps_push progress op
    have calmFirst : op.Calm detour.options :=
      calm op (rest.mem_ops op (added ▸ List.mem_append_right _ List.mem_cons_self))
    by_cases inFirst : ∃ inner ∈ op.payload.regions, hit inner
    · have crosses := crosses_operation regions first within inFirst calmFirst
      exact ⟨crosses.comes, straddles_inside regions inside first crosses admits rest calm same⟩
    · have stillFresh : ∀ other ∈ progressOps (progress.push op), ∀ inner ∈ other.payload.regions,
          ¬hit inner := by
        rw [added]
        refine List.forall_mem_append.2
          ⟨fresh, List.forall_mem_singleton.2 fun inner inside isHit => ?_⟩
        exact inFirst ⟨inner, inside, isHit⟩
      obtain ⟨comes, straddles⟩ :=
        ih (toMiddle.suffix.trans within) calm isHit stillFresh (same.push (.refl op))
      exact ⟨comes.leads toMiddle,
        straddles_operation regions inside first (same.admits (.refl op) admits) calmFirst
        straddles⟩

/-- The blocks of a region are read in both texts if the junk stands in front of a header or an
operation of them or of the closing brace, and the types in the headers before it have their
parentheses in pairs. -/
theorem straddles_own {offset : Nat} (plain : detour.opening = [])
    (place : detour.left.head?.map (·.span.start) = some offset)
    (reads : BlocksRead region kind detour.ahead.source progress before found after)
    (within : before.rest <:+ detour.tokens)
    (calm : ∀ op ∈ found.1.flatMap (·.ops), op.Calm detour.options)
    (pairs : ∀ block ∈ found.1, block.span.start < offset → block.PairsParens detour.tokens)
    (boundary : offset ∈ found.1.flatMap Block.starts ∨ offset = found.2.start)
    (fresh : offset ∉ progress.starts)
    (same : progress.Matches again) :
    detour.Straddles (iterate (blockStep parser kind opening) again) before after fun result =>
      List.Forall₂ Block.Matches found.1 result.1 := by
  have means := regions.regular.means
  induction reads generalizing again with
  | @close progress before here =>
    obtain ⟨_, _, passes⟩ := Stage.passes_of_atPunct here
    have ends := boundary.resolve_left fresh
    exact straddles_here regions plain
      (rest_eq_left plain place within (passes.1 ▸ List.cons_ne_nil _ _) ends)
      (.close here) calm same
  | @header progress before middle after draft found inside more starts first rest ih =>
    by_cases here : offset = before.cursor.peek.span.start
    · refine straddles_here regions plain (rest_eq_left plain place within ?_ here)
        (.header inside more starts first rest) calm same
      exact List.isEmpty_eq_false_iff.1 more
    · have toMiddle := (Means.blockHeader means).leads _ _ _ _ first
      have stillFresh : offset ∉ (progress.nextLabeled draft).starts := by
        rw [Progress.starts_nextLabeled progress first.start_eq.1, first.start_eq.2]
        simp [fresh, here]
      have straddles :=
        ih (toMiddle.suffix.trans within) calm pairs boundary stillFresh
        (same.nextLabeled (.refl draft))
      refine straddles_header regions inside first (fun {taken state} ahead => ?_) straddles
      have labeled : ¬draft.close.Blank := by
        rintro ⟨unlabeled, _⟩
        have label := first.start_eq.2
        rw [show draft.label = none from unlabeled] at label
        cases label
      obtain ⟨block, member, goesOn⟩ :=
        rest.goesOn draft.close (Progress.mem_blocks_nextLabeled progress draft) labeled
      obtain ⟨left, shared⟩ := straddles.shared
      have front : block.span.start < offset := by
        rw [goesOn.start, show draft.close.span.start = _ from first.draft_start]
        exact start_lt_offset plain place within toMiddle
          (Means.progresses_blockHeader means _ _ _ _ first) ⟨left, shared⟩
      obtain ⟨took, leads, recognised⟩ :=
        startsBlock_of_reads detour.ordered first within fun arg inside =>
        pairs block member front arg (by rw [goesOn.args]; exact inside)
      obtain rfl : taken = took ++ left := ahead.abreast.split leads shared
      rw [show state.cursor.rest = _ from ahead.abreast.there, List.append_assoc]
      exact recognised _
  | @operation progress before middle after op found inside more starts first admits rest ih =>
    by_cases here : offset = before.cursor.peek.span.start
    · refine straddles_here regions plain (rest_eq_left plain place within ?_ here)
        (.operation inside more starts first admits rest) calm
        same
      exact List.isEmpty_eq_false_iff.1 more
    · have toMiddle := (Means.operation means).leads _ _ _ _ first
      have startsThere := first.start_eq means regions.regular.forward detour.ordered within
      have stillFresh : offset ∉ (progress.push op).starts := by
        rw [Progress.starts_push, startsThere]
        simp [fresh, here]
      have calmFirst : op.Calm detour.options :=
        calm op (rest.mem_ops op (by rw [progressOps_push]; simp))
      exact straddles_operation regions inside first (same.admits (.refl op) admits) calmFirst
        (ih (toMiddle.suffix.trans within) calm pairs boundary stillFresh (same.push (.refl op)))

end Blocks

end Detour

/-! ## Regions -/

/-- Whether a region has a property or has a region inside it that does. -/
def Region.Holds (own : Region Operation → Prop) (region : Region Operation) : Prop :=
  ∃ inner ∈ region :: region.inner, own inner

theorem Operation.exists_allRegions_iff {own : Region Operation → Prop} {op : Operation} :
    (∃ inner ∈ op.allRegions, own inner) ↔ ∃ outer ∈ op.payload.regions, outer.Holds own := by
  simp only [op.allRegions_eq, List.mem_flatMap, Region.Holds]
  constructor
  · rintro ⟨inner, ⟨outer, member, within⟩, holds⟩
    exact ⟨outer, member, inner, within, holds⟩
  · rintro ⟨outer, member, inner, within, holds⟩
    exact ⟨inner, ⟨outer, member, within⟩, holds⟩

theorem Region.holds_iff {own : Region Operation → Prop} {region : Region Operation} :
    region.Holds own ↔ own region ∨ ∃ op ∈ region.ops, ∃ inner ∈ op.payload.regions,
      inner.Holds own := by
  rw [Holds, List.exists_mem_cons_iff]
  refine or_congr .rfl ?_
  simp only [← Operation.exists_allRegions_iff, Region.inner, List.mem_flatMap]
  constructor
  · rintro ⟨inner, ⟨op, member, within⟩, holds⟩
    exact ⟨op, member, inner, within, holds⟩
  · rintro ⟨op, member, inner, within, holds⟩
    exact ⟨inner, ⟨op, member, within⟩, holds⟩

/-- A region of a module stands in one of its items. -/
theorem Module.exists_allRegions_iff {own : Region Operation → Prop} {unit : Module} :
    (∃ region ∈ unit.allRegions, own region) ↔
      ∃ op ∈ unit.items, ∃ outer ∈ op.payload.regions, outer.Holds own := by
  simp only [← Operation.exists_allRegions_iff, Module.allRegions, List.mem_flatMap]
  constructor
  · rintro ⟨inner, ⟨op, member, within⟩, holds⟩
    exact ⟨op, member, inner, within, holds⟩
  · rintro ⟨op, member, inner, within, holds⟩
    exact ⟨inner, ⟨op, member, within⟩, holds⟩

/-- The run of a region whose blocks are read. -/
theorem Parser.regionWithin_run {levels : Nat} {kind : RegionKind} {implicitTerminator : Bool}
    {input : Input} {state final : State} {found : List (Block Operation) × Span}
    (live : state.halted = false)
    (uncancelled : input.stops state = false) (opens : state.cursor.atPunct .leftBrace = true)
    (ran : iterate (blockStep (regionWithin levels) kind state.cursor.peek.span)
      { current := .startingAt state.cursor.next.peek.span.start } input
      { state with cursor := state.cursor.next } =
        (some found, final))
    (terminated : Terminated implicitTerminator found.1) :
    regionWithin (levels + 1) kind implicitTerminator input state =
      (some
        { kind
          blocks := found.1
          scope := state.tracker.scope
          span := state.cursor.peek.span.cover found.2 },
        final) := by
  have quiet : reportUnterminated kind implicitTerminator found.1 found.2 input final =
      (some (), final) := by
    unfold reportUnterminated
    rcases terminated with only | all
    · rw [if_pos only]
      rfl
    · split
      · rfl
      · have none_ : found.1.filter (·.terminator.isNone) = [] :=
          List.filter_eq_nil_iff.2 fun block member isNone => by simp [all block member] at isNone
        rw [none_, List.map_nil]
        exact congrArg (fun diagnostics => (some (), ({ final with diagnostics } : State)))
          (Diagnostics.append_nil final.diagnostics)
  have opened : punct .leftBrace input state =
      (some state.cursor.peek, { state with cursor := state.cursor.next }) := by
    rw [punct, satisfying_run]
    exact if_pos opens
  let inside : Region Operation :=
    { kind, blocks := found.1, scope := state.tracker.scope,
      span := state.cursor.peek.span.cover found.2 }
  have blocksRun : blocks (regionWithin levels) kind implicitTerminator state.cursor.peek.span input
      { state with cursor := state.cursor.next } = (some inside, final) := by
    change (iterate (blockStep (regionWithin levels) kind state.cursor.peek.span) _ >>=
      fun found => _ : Parser (Region Operation)) input _ = _
    rw [bind_run, ran]
    dsimp only
    rw [bind_run, quiet]
    rfl
  rw [regionWithin, bind_run, checkHalted_run, live, uncancelled]
  simp only [Bool.false_eq_true, if_false]
  rw [bind_run, opened]
  exact blocksRun

namespace Detour

variable {detour : Detour} {levels : Nat} {hit : Region Operation → Prop} {kind : RegionKind}
  {implicitTerminator : Bool}
  {before after : Stage} {inner : Region Operation}

/-- A region crosses the junk if its blocks are read in both texts. -/
theorem crosses_of_straddles {opening : Token} {middle : Stage}
    {found : List (Block Operation) × Span}
    (isOpening : opening.isPunct .leftBrace = true) (passes : before.Passes opening middle)
    (terminated : Terminated implicitTerminator found.1)
    (straddles : ∀ {again : Progress},
      Progress.Matches { current := .startingAt middle.cursor.peek.span.start } again →
        detour.Straddles (iterate (blockStep (regionWithin levels) kind opening.span) again)
          middle after fun result => List.Forall₂ Block.Matches found.1 result.1) :
    detour.Crosses (regionWithin (levels + 1) kind implicitTerminator) before after fun again =>
      Region.outline
        { kind
          blocks := found.1
          scope := middle.tracker.scope
          span := opening.span.cover found.2 } = again.outline := by
  have alike : ∀ offset : Nat,
      Progress.Matches { current := .startingAt middle.cursor.peek.span.start }
      { current := .startingAt offset } := fun offset => ⟨.nil, .start _ offset⟩
  obtain ⟨⟨left, rest⟩, _⟩ := straddles (alike 0)
  refine ⟨⟨opening :: left, by
    rw [passes.1, rest, List.cons_append], opening, List.mem_cons_self, isOpening⟩,
    fun {taken state} here => ?_⟩
  obtain ⟨_, ⟨twinRest, rfl⟩, next⟩ := here.abreast.passes passes rest
  have peek : state.cursor.peek = opening := Cursor.peek_of_cons twinRest
  have inside : detour.Ahead left middle { state with cursor := state.cursor.next } :=
    ⟨next, here.live.live, here.live.reached.trans (.next _)⟩
  obtain ⟨result, final, diagnostic, run, same, done, reports, reported⟩ :=
    (straddles (alike state.cursor.next.peek.span.start)).runs inside
  refine ⟨_, final, diagnostic,
    regionWithin_run here.live.live (detour.never _ _) (by rw [Cursor.atPunct, peek, isOpening])
    (peek ▸ run) (terminated.of_matches same),
    Region.outline_eq rfl (congrArg Tracker.scope next.tracker).symm same, done, reports, reported⟩

/-- Regions are read in both texts, however deep they nest, if those are that the junk stands in. -/
theorem regionWithin {own : Region Operation → Prop} {text : List Char}
    (placed : detour.first.Placed text)
    (crossesOwn : ∀ {levels : Nat},
      detour.Regions (Parser.regionWithin levels) (RegionWithinReads levels) (Region.Holds own) →
        ∀ {kind : RegionKind} {implicitTerminator : Bool} {before after : Stage} {inner :
          Region Operation}, RegionReads (RegionWithinReads
          levels) kind implicitTerminator detour.ahead.source before inner after →
            before.rest <:+ detour.tokens → own inner → inner.Calm detour.options →
              detour.Crosses (Parser.regionWithin (levels + 1) kind implicitTerminator) before after
                fun again => inner.outline = again.outline) (levels : Nat) :
    detour.Regions (Parser.regionWithin levels) (RegionWithinReads levels) (Region.Holds own) where
  regular := .regionWithin placed levels
  ahead := Fork.regionWithin_persists levels
  past := Relocation.carries_regionWithin levels
  crosses := by
    induction levels with
    | zero => rintro _ _ _ _ _ ⟨⟩
    | succ levels ih =>
      intro kind implicitTerminator before after inner reads within isHit calm
      have regions : detour.Regions (Parser.regionWithin levels) (RegionWithinReads levels)
          (Region.Holds own) :=
        ⟨.regionWithin placed levels, Fork.regionWithin_persists levels,
          Relocation.carries_regionWithin levels, ih⟩
      rcases Region.holds_iff.1 isHit with holds | isHit
      · exact crossesOwn regions reads within holds calm
      · obtain ⟨opening, middle, ⟨isOpening, passes⟩, found, reads, terminated, rfl⟩ := reads
        refine crosses_of_straddles isOpening passes terminated fun same => ?_
        exact (straddles_within regions reads (passes.leads.suffix.trans within) calm isHit
          (by rintro _ ⟨⟩) same).2

/-- Whether a region has a boundary at an offset and the types in its headers before it have their
parentheses in pairs. -/
structure Admits (detour : Detour) (offset : Nat) (region : Region Operation) : Prop where
  boundary : offset ∈ region.boundaries
  pairs : ∀ block ∈ region.blocks, block.span.start < offset → block.PairsParens detour.tokens

/-- Regions are read in both texts if the junk stands at a boundary of one. -/
theorem regions_boundary {offset : Nat} {text : List Char} (placed : detour.first.Placed text)
    (plain : detour.opening = [])
    (place : detour.left.head?.map (·.span.start) = some offset) (levels : Nat) :
    detour.Regions (Parser.regionWithin levels) (RegionWithinReads levels)
      (Region.Holds (detour.Admits offset)) := by
  refine regionWithin placed (fun {inside} regions => ?_) levels
  rintro kind implicitTerminator before after _
    ⟨opening, middle, ⟨isOpening, passes⟩, found, reads, terminated, rfl⟩ within admits calm
  have toMiddle := passes.leads.suffix.trans within
  refine crosses_of_straddles isOpening passes terminated fun same => ?_
  refine straddles_own regions plain place reads toMiddle calm admits.pairs ?_ (by rintro ⟨⟩) same
  refine (List.mem_append.1 admits.boundary).imp id fun ends => ?_
  -- The region ends with its closing brace, which has one byte.
  obtain ⟨took, brace, isBrace, closes, span⟩ :=
    Fork.closing_of_blocksRead regions.regular.means reads
  have tokens : before.rest = (opening :: took) ++ brace :: after.rest := by
    rw [passes.1, closes, List.cons_append]
  obtain ⟨_, ordered⟩ := detour.ordered.infix within.isInfix
  rw [tokens] at ordered within
  have behind := ordered.stop_le_start opening List.mem_cons_self brace List.mem_cons_self
  have one := detour.braces brace (within.subset (List.mem_append_right _ List.mem_cons_self))
    isBrace
  have offset_eq : offset = max opening.span.stop found.2.stop - 1 := List.mem_singleton.1 ends
  rw [span] at offset_eq ⊢
  omega

/-- Regions are read in both texts if the junk stands behind the opening brace of one. -/
theorem regions_start {brace : Token} {text : List Char} (placed : detour.first.Placed text)
    (opens : detour.opening = [brace]) (levels : Nat) :
    detour.Regions (Parser.regionWithin levels) (RegionWithinReads levels)
      (Region.Holds fun region => region.span.start = brace.span.start) := by
  refine regionWithin placed (fun {inside} regions => ?_) levels
  rintro kind implicitTerminator before after _
    ⟨opening, _, ⟨isOpening, tokens, rfl⟩, found, reads, terminated, rfl⟩ within starts calm
  have first : opening.span.start = brace.span.start := by
    obtain ⟨took, last, _, closes, span⟩ := Fork.closing_of_blocksRead regions.regular.means reads
    obtain ⟨_, ordered⟩ := detour.ordered.infix within.isInfix
    rw [tokens, closes] at ordered
    have behind := ordered.2.2.start_le last (List.mem_append_right _ List.mem_cons_self)
    have some_ := ordered.2.1
    have least : min opening.span.start found.2.start = brace.span.start := starts
    rw [span] at least
    omega
  have ends := detour.ends
  rw [detour.behind, opens] at ends
  obtain ⟨rfl, rest⟩ := List.cons.inj (detour.ordered.suffix_eq (tokens ▸ within) ends first)
  have shared : before.rest = [] ++ detour.ahead.behind := by
    rw [tokens, rest, detour.behind, opens]
    rfl
  refine ⟨⟨[], shared, opening, opens ▸ List.mem_cons_self, isOpening⟩,
    fun {taken state} here => ?_⟩
  obtain rfl : taken = [] := here.abreast.left_unique shared
  have twin : state.cursor.rest =
      opening :: detour.refused ::
      (detour.junk ++ detour.left.map (.move detour.origin detour.target)) := by
    rw [show state.cursor.rest = _ from here.abreast.there, detour.beyond, opens]
    rfl
  have peek : state.cursor.peek = opening := Cursor.peek_of_cons twin
  have live : ({ state with cursor := state.cursor.next } : State).Live detour.first :=
    ⟨here.live.live, here.live.reached.trans (.next _)⟩
  obtain ⟨result, final, diagnostic, run, same, done, reports, reported⟩ :=
    @blocks_resume _ _ _ _ _ _ regions kind opening.span _
      { current := .startingAt state.cursor.next.peek.span.start } _
      { state with cursor := state.cursor.next } rest (Cursor.rest_next_of_cons twin) live
      here.abreast.tracker
      here.abreast.nextId reads calm ⟨.nil, .start _ _⟩
  exact ⟨_, final, diagnostic,
    regionWithin_run here.live.live (detour.never _ _) (by rw [Cursor.atPunct, peek, isOpening])
    (peek ▸ run) (terminated.of_matches same),
    Region.outline_eq rfl (congrArg Tracker.scope here.abreast.tracker).symm same, done,
    reports, reported⟩

end Detour

end CirText
