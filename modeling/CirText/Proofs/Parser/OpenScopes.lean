import CirText.Proofs.Parser.Context

/-!
# The depth of regions

How deep a region lies can be seen from the scopes that are open, since every region has a scope to
itself. `regionByDepth` checks the limit on how deep regions nest against the number of open scopes.
As scopes are closed however a part ends, this comes to the same as counting down the levels that
are left.
-/

namespace CirText

namespace Parser

variable {α β σ : Type}

/-- The number of scopes that are open inside that of the module. -/
def State.depth (state : State) : Nat :=
  state.tracker.outer.length

theorem State.Resumes.depth {before after : State} (resumes : before.Resumes after) :
    after.depth = before.depth := by
  have lengths := congrArg List.length resumes.openScopes
  simpa [Tracker.openScopes, State.depth] using lengths

/-- A region of the current scope, in which regions may nest only as deep as the options allow. The
first argument is greater than the number of levels that are left. -/
def regionByDepth : Nat → RegionKind → Bool → Parser (Region Operation)
  | 0, _, _ => fail
  | bound + 1, kind, implicitTerminator => do
    if ← checkHalted then
      fail
    else if (← options).maxDepth < (← look (·.depth)) then
      tooDeep
    else
      let opening ← punct .leftBrace
      blocks (regionByDepth bound) kind implicitTerminator opening.span

/-! ## Parsers that run alike at a depth -/

/-- Whether two parsers run alike under a limit where a number of scopes are open. -/
structure RunsAlike (limit depth : Nat) (first second : Parser α) : Prop where
  /-- The first one, and so the second one, puts the context back. -/
  resumes : Leads State.Resumes first
  /-- The two runs from one state. -/
  same : ∀ (input : Input) (state : State), input.options.maxDepth = limit → state.depth = depth →
    first input state = second input state

namespace RunsAlike

variable {limit depth : Nat} {first second : Parser α}

theorem refl {parser : Parser α} (resumes : Leads State.Resumes parser) :
    RunsAlike limit depth parser parser :=
  ⟨resumes, fun _ _ _ _ => rfl⟩

theorem bind {next further : α → Parser β} (alike : RunsAlike limit depth first second)
    (rest : ∀ a, RunsAlike limit depth (next a) (further a)) :
    RunsAlike limit depth (first >>= next) (second >>= further) where
  resumes := inherited_resumes.bind alike.resumes fun a => (rest a).resumes
  same input state limited open_ := by
    have resumes := alike.resumes input state
    rw [bind_run, bind_run, ← alike.same input state limited open_]
    cases run : first input state with
    | mk outcome middle =>
      rw [run] at resumes
      cases outcome with
      | none => rfl
      | some a => exact (rest a).same input middle limited (resumes.depth.trans open_)

theorem after {parser : Parser α} {next further : α → Parser β}
    (resumes : Leads State.Resumes parser)
    (rest : ∀ a, RunsAlike limit depth (next a) (further a)) :
    RunsAlike limit depth (parser >>= next) (parser >>= further) :=
  (refl resumes).bind rest

theorem pure (a : α) : RunsAlike limit depth (Pure.pure a : Parser α) (Pure.pure a) :=
  refl (inherited_resumes.pure a)

theorem map (f : α → β) (alike : RunsAlike limit depth first second) :
    RunsAlike limit depth (f <$> first) (f <$> second) :=
  alike.bind fun a => .pure (f a)

theorem ite {condition : Prop} [Decidable condition] {yes no : Parser α}
    (whenTrue : RunsAlike limit depth first yes) (whenFalse : RunsAlike limit depth second no) :
    RunsAlike limit depth (if condition then first else second)
      (if condition then yes else no) := by
  split
  · exact whenTrue
  · exact whenFalse

theorem attempt (alike : RunsAlike limit depth first second) :
    RunsAlike limit depth (Parser.attempt first) (Parser.attempt second) where
  resumes := inherited_resumes.attempt alike.resumes
  same input state limited open_ :=
    congrArg (fun ran => (some ran.1, ran.2)) (alike.same input state limited open_)

theorem naming (construct : String) (alike : RunsAlike limit depth first second) :
    RunsAlike limit depth (Parser.naming construct first) (Parser.naming construct second) where
  resumes := inherited_resumes.naming construct alike.resumes
  same input state limited open_ :=
    congrArg (fun ran => (ran.1, { ran.2 with construct := state.construct }))
      (alike.same input { state with construct } limited open_)

/-- In a scope of its own a part lies one level deeper. -/
theorem inScope (alike : RunsAlike limit (depth + 1) first second) :
    RunsAlike limit depth (Parser.inScope first) (Parser.inScope second) where
  resumes := inherited_resumes.inScope alike.resumes
  same input state limited open_ := by
    rw [inScope_run, inScope_run]
    exact congrArg leaveScope
      (alike.same input { state with tracker := state.tracker.push } limited
        (congrArg (· + 1) open_))

theorem iterate {step further : σ → Parser (Step σ β)}
    (steps : ∀ accumulated, RunsAlike limit depth (step accumulated) (further accumulated))
    (accumulated : σ) :
    RunsAlike limit depth (Parser.iterate step accumulated)
      (Parser.iterate further accumulated) where
  resumes := inherited_resumes.iterate (fun accumulated => (steps accumulated).resumes) accumulated
  same input state limited open_ := by
    induction accumulated, state using iterate_induction step input with
    | failed accumulated state final run ran | done accumulated state result final run ran =>
      rw [ran, iterate_run, ← (steps accumulated).same input state limited open_, run]
    | stuck accumulated state onward final run fewer ran =>
      rw [ran, iterate_run, ← (steps accumulated).same input state limited open_, run]
      exact (if_neg fewer).symm
    | again accumulated state onward next run fewer ran ih =>
      have resumes := (steps accumulated).resumes input state
      have unrolled : Parser.iterate further accumulated input state =
          Parser.iterate further onward input next := by
        rw [iterate_run, ← (steps accumulated).same input state limited open_, run]
        exact if_pos fewer
      rw [run] at resumes
      rw [ran, unrolled]
      exact ih (resumes.depth.trans open_)

theorem collect {step further : Parser (Option α × Bool)}
    (alike : RunsAlike limit depth step further) :
    RunsAlike limit depth (Parser.collect step) (Parser.collect further) :=
  map _ (iterate (fun _ => alike.bind fun _ => .pure _) _)

/-! ## Lists -/

theorem separated (item : RunsAlike limit depth first second) :
    RunsAlike limit depth (Parser.separated first) (Parser.separated second) := by
  refine item.bind fun head => bind (collect ?_) fun tail => .pure _
  exact after (inherited_resumes.eat .comma) fun _ => ite (item.bind fun _ => .pure _) (.pure _)

theorem listed (item : RunsAlike limit depth first second) :
    RunsAlike limit depth (Parser.listed first) (Parser.listed second) :=
  after inherited_resumes.cursor fun _ => ite (.pure _) (item.separated.bind fun _ => .pure _)

theorem listedWithEllipsis (item : RunsAlike limit depth first second) :
    RunsAlike limit depth (Parser.listedWithEllipsis first) (Parser.listedWithEllipsis second) := by
  refine after inherited_resumes.cursor fun _ => ite (.pure _) (iterate (fun items => ?_) _)
  refine after (inherited_resumes.eat .ellipsis) fun _ => ite (.pure _) (item.bind fun _ => ?_)
  exact after (inherited_resumes.eat .comma) fun _ => ite (.pure _) (.pure _)

theorem bracketed (separator : Separator) (item : RunsAlike limit depth first second) :
    RunsAlike limit depth (Parser.bracketed separator first)
      (Parser.bracketed separator second) := by
  refine after (inherited_resumes.punct _) fun _ => collect ?_
  refine after (inherited_resumes.eat .rightBracket) fun _ => ite (.pure _) ?_
  refine after inherited_resumes.cursor fun _ => ite (.refl (inherited_resumes.expected _)) ?_
  refine item.bind fun _ => ite ?_ (.pure _)
  exact after (inherited_resumes.eat .comma) fun _ => .pure _

theorem repeated (next : Guard) (item : RunsAlike limit depth first second) :
    RunsAlike limit depth (Parser.repeated next first) (Parser.repeated next second) := by
  refine collect (after inherited_resumes.cursor fun _ => ite (item.bind fun _ => ?_) (.pure _))
  exact after (inherited_resumes.eat .comma) fun _ => .pure _

end RunsAlike

end Parser

/-! ## Grammars -/

namespace Grammar

variable {R : Type}

/-- Whether every region lies in exactly one scope of the grammar. The first argument says whether
the grammar itself is the inside of one. -/
def nests (inside : Bool) : {α : Type} → Grammar R α → Bool
  | _, .seq first second | _, .choice _ first second => first.nests inside && second.nests inside
  | _, .view _ inner | _, .optional _ inner | _, .separated inner | _, .listed inner
  | _, .listedWithEllipsis inner | _, .bracketed _ inner | _, .repeated _ inner
  | _, .spanned inner | _, .binder _ inner | _, .recommended _ _ inner => inner.nests inside
  | _, .inScope inner => !inside && inner.nests true
  | _, .region _ _ => inside
  | _, _ => true

theorem body_nests (opcode : Opcode) (form : Form) :
    (body (R := R) opcode form).nests false = true := by
  unfold body
  split
  all_goals rfl

open CirText.Parser in
/-- The parsers of a grammar run alike if the parsers of regions do at the depth at which regions
lie. -/
theorem parse_alike {limit depth : Nat} (start : Cursor)
    {first second : RegionKind → Bool → Parser R}
    (regions : ∀ kind implicitTerminator,
      RunsAlike limit (depth + 1) (first kind implicitTerminator) (second kind implicitTerminator))
    {α : Type} (grammar : Grammar R α) (inside : Bool) (nests : grammar.nests inside = true) :
    RunsAlike limit (depth + inside.toNat) (grammar.parse start first)
      (grammar.parse start second) := by
  have leaf : ∀ {depth : Nat} {α : Type} (grammar : Grammar R α), grammar.isPlain = true →
      grammar.parse start first = grammar.parse start second →
      RunsAlike limit depth (grammar.parse start first) (grammar.parse start second) := by
    intro depth α grammar plain same
    rw [← same]
    exact .refl (inherited_resumes.grammar start grammar fun rich =>
      absurd (plain.symm.trans rich) nofun)
  induction grammar generalizing inside with
  | blank | punct | word | lexeme | oneOf | name | definition | type | attributeOf | namedAttribute
  | trailingAttribute | modifierRun => exact leaf _ rfl rfl
  | seq left right ihLeft ihRight =>
    obtain ⟨here, later⟩ := Bool.and_eq_true_iff.1 nests
    exact (ihLeft inside here).bind fun _ => (ihRight inside later).bind fun _ => .pure _
  | view as inner ih => exact (ih inside nests).map _
  | optional present inner ih =>
    exact .after inherited_resumes.cursor fun _ => .ite ((ih inside nests).map _) (.pure _)
  | choice isFirst left right ihLeft ihRight =>
    obtain ⟨here, there⟩ := Bool.and_eq_true_iff.1 nests
    exact .after inherited_resumes.cursor fun _ =>
      .ite ((ihLeft inside here).map _) ((ihRight inside there).map _)
  | separated item ih => exact (ih inside nests).separated
  | listed item ih => exact (ih inside nests).listed
  | listedWithEllipsis item ih => exact (ih inside nests).listedWithEllipsis
  | bracketed separator item ih => exact (ih inside nests).bracketed separator
  | repeated next item ih => exact (ih inside nests).repeated next
  | spanned inner ih =>
    exact .after inherited_resumes.cursor fun _ => (ih inside nests).bind fun _ =>
      .after inherited_resumes.cursor fun _ => .pure _
  | binder what inner ih =>
    exact .after (inherited_resumes.token _ _) fun _ => (ih inside nests).bind fun _ =>
      .after (inherited_resumes.define _ _) fun _ => .pure _
  | inScope inner ih =>
    obtain ⟨outside, within⟩ := Bool.and_eq_true_iff.1 nests
    cases inside with
    | true => cases outside
    | false => exact (ih true within).inScope
  | region kind implicitTerminator =>
    cases inside with
    | true => exact regions kind implicitTerminator
    | false => cases nests
  | recommended opcode warning inner ih =>
    refine (ih inside nests).bind fun _ => .ite ?_ (.pure _)
    exact .after inherited_resumes.cursor fun _ => .after (resumes_warnDeprecated _ _ _) fun _ =>
      .pure _

end Grammar

namespace Parser

namespace RunsAlike

variable {limit depth : Nat} {first second : RegionKind → Bool → Parser (Region Operation)}

/-! ## Operations -/

theorem fromKeyword (regions : ∀ kind implicitTerminator,
      RunsAlike limit (depth + 1) (first kind implicitTerminator)
      (second kind implicitTerminator)) :
    RunsAlike limit depth (Parser.fromKeyword first) (Parser.fromKeyword second) := by
  refine after inherited_resumes.cursor fun start => ite ?_ (.refl (inherited_resumes.expected _))
  cases Opcode.ofKeyword? start.peek.text with
  | none => exact after (resumes_unknown _ _) fun _ => .refl inherited_resumes.fail
  | some opcode =>
    refine after inherited_resumes.skip fun _ => after inherited_resumes.takeId fun _ => naming _ ?_
    refine after (inherited_resumes.chooseForm opcode) fun form => ?_
    exact (Grammar.parse_alike start regions _ false (Grammar.body_nests opcode form)).bind fun _ =>
      .pure _

theorem operation (regions : ∀ kind implicitTerminator,
      RunsAlike limit (depth + 1) (first kind implicitTerminator)
      (second kind implicitTerminator)) :
    RunsAlike limit depth (Parser.operation first) (Parser.operation second) := by
  refine after inherited_resumes.cursor fun start =>
    after inherited_resumes.resultNames fun names => ?_
  refine (fromKeyword regions).attempt.bind fun read =>
    after (inherited_resumes.mapM_define names) fun _ => ?_
  cases read with
  | none => exact .refl inherited_resumes.fail
  | some found => exact after inherited_resumes.cursor fun _ => .pure _

/-! ## Regions -/

theorem skipUnit (start : Cursor) (progress : Progress) :
    RunsAlike limit depth (Parser.skipUnit start progress) (Parser.skipUnit start progress) :=
  after (resumes_resynchronize start) fun _ => .pure _

theorem blockStep (regions : ∀ kind implicitTerminator,
      RunsAlike limit (depth + 1) (first kind implicitTerminator) (second kind implicitTerminator))
    (kind : RegionKind) (opening : Span) (progress : Progress) :
    RunsAlike limit depth (Parser.blockStep first kind opening progress)
      (Parser.blockStep second kind opening progress) := by
  rw [blockStep_eq, blockStep_eq]
  refine after inherited_resumes.cursor fun start => after inherited_resumes.halted fun _ => ?_
  refine ite (.refl inherited_resumes.fail) (ite ?_ (ite ?_ (ite ?_ ?_)))
  · exact after inherited_resumes.skip fun _ => .pure _
  · have unclosed : Leads State.Resumes (reportUnclosed kind opening) :=
      inherited_resumes.bind inherited_resumes.peek fun _ =>
        inherited_resumes.bind (inherited_resumes.report rfl) fun _ => inherited_resumes.halt
    exact after unclosed fun _ => .refl inherited_resumes.fail
  · refine bind (attempt ?_) fun draft => ?_
    · -- A header has no regions.
      exact after inherited_resumes.cursor fun here =>
        (Grammar.parse_alike here regions Grammar.blockHeader false rfl).bind fun _ =>
          after inherited_resumes.cursor fun _ => .pure _
    · cases draft with
      | none => exact skipUnit start progress
      | some draft => exact .pure _
  · refine (operation regions).attempt.bind fun read => ?_
    cases read with
    | none => exact skipUnit start progress
    | some op => exact map _ (.refl (inherited_resumes.place kind progress op))

theorem blocks (regions : ∀ kind implicitTerminator,
      RunsAlike limit (depth + 1) (first kind implicitTerminator) (second kind implicitTerminator))
    (kind : RegionKind) (implicitTerminator : Bool) (opening : Span) :
    RunsAlike limit depth (Parser.blocks first kind implicitTerminator opening)
      (Parser.blocks second kind implicitTerminator opening) := by
  refine after inherited_resumes.scope fun _ => after inherited_resumes.peek fun _ => ?_
  refine (iterate (blockStep regions kind opening) _).bind fun found => ?_
  exact after (inherited_resumes.reportUnterminated _ _ _ _) fun _ => .pure _

theorem tooDeep : RunsAlike limit depth Parser.tooDeep Parser.tooDeep := by
  have ended : ∀ limit : Nat, Leads State.Resumes (do
      reportExpected ("at most " ++ toString limit ++ " nested regions")
      halt
      (fail : Parser (Region Operation))) :=
    fun limit => inherited_resumes.bind (inherited_resumes.reportExpected _) fun _ =>
      inherited_resumes.bind inherited_resumes.halt fun _ => inherited_resumes.fail
  exact .refl (inherited_resumes.maxDepth ended)

/-- A check of the limit, of which the outcome is known. -/
theorem checked {parser rest : Parser (Region Operation)}
    (alike : RunsAlike limit depth parser (if limit < depth then Parser.tooDeep else rest)) :
    RunsAlike limit depth parser (do
      if (← options).maxDepth < (← look (·.depth)) then Parser.tooDeep else rest) where
  resumes := alike.resumes
  same input state limited open_ := by
    rw [alike.same input state limited open_, ← limited, ← open_]
    rfl

/-- The levels that are left and the scopes that are open, apart from that of the region itself,
make up the limit. -/
theorem regionWithin {levels bound : Nat} (enough : levels < bound)
    (fits : depth + levels = limit + 1)
    (kind : RegionKind) (implicitTerminator : Bool) :
    RunsAlike limit depth (Parser.regionWithin levels kind implicitTerminator)
      (regionByDepth bound kind implicitTerminator) := by
  induction levels generalizing bound depth kind implicitTerminator with
  | zero =>
    obtain ⟨bound, rfl⟩ := Nat.exists_eq_succ_of_ne_zero (Nat.ne_of_gt enough)
    refine after resumes_checkHalted fun halted => ite (.refl inherited_resumes.fail) (checked ?_)
    rw [if_pos (by omega)]
    exact tooDeep
  | succ levels ih =>
    obtain ⟨bound, rfl⟩ := Nat.exists_eq_succ_of_ne_zero (Nat.ne_of_gt (Nat.zero_lt_of_lt enough))
    refine after resumes_checkHalted fun halted => ite (.refl inherited_resumes.fail) (checked ?_)
    rw [if_neg (by omega)]
    refine after (inherited_resumes.punct _) fun opening => ?_
    exact blocks (fun kind implicitTerminator =>
      ih (Nat.lt_of_succ_lt_succ enough) (by omega) kind implicitTerminator) _ _ _

/-! ## Source units -/

theorem items (regions : ∀ kind implicitTerminator,
      RunsAlike limit (depth + 1) (first kind implicitTerminator) (second kind implicitTerminator))
    (braced : Bool) :
    RunsAlike limit depth (Parser.items first braced) (Parser.items second braced) := by
  have declaration : RunsAlike limit depth (Parser.declaration first) (Parser.declaration second) :=
    after inherited_resumes.peek fun _ =>
      ite (operation regions) (.refl (inherited_resumes.expected _))
  refine collect (after resumes_checkHalted fun halted =>
    after inherited_resumes.cursor fun start => ?_)
  refine ite (.pure _) (declaration.attempt.bind fun item => ?_)
  cases item with
  | none =>
    exact after (resumes_resynchronize start) fun _ => after inherited_resumes.halted fun _ =>
      .pure _
  | some op => exact .pure _

theorem sourceUnit (regions : ∀ kind implicitTerminator,
      RunsAlike limit (depth + 1) (first kind implicitTerminator)
      (second kind implicitTerminator)) :
    RunsAlike limit depth (Parser.sourceUnit first) (Parser.sourceUnit second) := by
  refine after inherited_resumes.cursor fun start =>
    ite ?_ ((items regions false).bind fun _ => .pure _)
  refine after inherited_resumes.skip fun _ =>
    after (inherited_resumes.unitHeader start) fun header => ?_
  refine after (inherited_resumes.attempt (inherited_resumes.punct _)) fun opening => ?_
  refine (items regions _).bind fun ops => ?_
  cases opening with
  | none => exact .pure _
  | some brace =>
    refine after inherited_resumes.halted fun _ => ite ?_ (.pure _)
    exact after (inherited_resumes.moduleEnd brace) fun _ => .pure _

end RunsAlike

/-- A source unit may be read with the limit checked against the number of open scopes. -/
theorem run_eq_sourceUnit_regionByDepth (source : String) {options : Options} {adapters : Adapters}
    {bound : Nat} (enough : options.maxDepth < bound) :
    run source options adapters =
      sourceUnit (regionByDepth bound) ⟨source.toList, options, adapters⟩
        (initial (tokenize source)) := by
  have regions : ∀ kind implicitTerminator, RunsAlike options.maxDepth (0 + 1)
      (regionWithin options.maxDepth kind implicitTerminator)
      (regionByDepth bound kind implicitTerminator) :=
    RunsAlike.regionWithin enough (Nat.add_comm _ _)
  exact (RunsAlike.sourceUnit regions).same ⟨source.toList, options, adapters⟩
    (initial (tokenize source)) rfl rfl

end Parser

end CirText
