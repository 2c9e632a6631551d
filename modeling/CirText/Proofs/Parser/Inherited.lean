import CirText.Proofs.Parser.Steps

/-!
# Properties that parsers inherit from their parts

Everything that parses a source unit is put together in a few ways from a few simple parsers. A
property that these have, and that is inherited from the parts, holds of the parser of source units
and of all the parsers on the way to it. Warnings of deprecated forms are kept apart, since only a
few grammars give them, and so are reports of unknown operations, which come from one place only.
-/

namespace CirText

/-- Whether a diagnostic warns of a deprecated form. -/
def Diagnostic.isDeprecated (diagnostic : Diagnostic) : Bool :=
  match diagnostic.kind with
  | .deprecated _ _ => true
  | _ => false

/-- Whether a diagnostic is an error that neither is about a deprecated form nor reports an unknown
operation. -/
def Diagnostic.isCommon (diagnostic : Diagnostic) : Bool :=
  match diagnostic.kind with
  | .deprecated _ _ | .unknownOpcode _ => false
  | _ => diagnostic.isError

theorem Diagnostic.isError_of_isCommon {diagnostic : Diagnostic}
    (common : diagnostic.isCommon = true) :
    diagnostic.isError = true := by
  unfold isCommon at common
  split at common
  · cases common
  · cases common
  · exact common

theorem Diagnostic.isDeprecated_of_isCommon {diagnostic : Diagnostic}
    (common : diagnostic.isCommon = true) :
    diagnostic.isDeprecated = false := by
  unfold isDeprecated
  split
  · rename_i kind
    rw [isCommon, kind] at common
    cases common
  · rfl

/-- Whether a grammar has neither regions nor parts that are missed when they are left out. -/
def Grammar.isPlain {R : Type} : {α : Type} → Grammar R α → Bool
  | _, .seq first second | _, .choice _ first second => first.isPlain && second.isPlain
  | _, .view _ inner | _, .optional _ inner | _, .separated inner | _, .listed inner
  | _, .listedWithEllipsis inner | _, .bracketed _ inner | _, .repeated _ inner
  | _, .spanned inner | _, .binder _ inner | _, .inScope inner => inner.isPlain
  | _, .region _ _ | _, .recommended _ _ _ => false
  | _, _ => true

namespace Parser

/-! ## Relating the states of a run -/

section Leads

variable {α β σ : Type} {related : State → State → Prop}

/-- Whether every run of a parser leads from a state to one that is related to it. -/
def Leads (related : State → State → Prop) (parser : Parser α) : Prop :=
  ∀ (input : Input) (state : State), related state (parser input state).2

variable (related) (trans : ∀ {first middle last}, related first middle → related middle last →
    related first last)

include trans

theorem leads_bind {parser : Parser α} {next : α → Parser β} (first : Leads related parser)
    (second : ∀ a, Leads related (next a)) : Leads related (parser >>= next) := by
  intro input state
  have ran := first input state
  rw [bind_run]
  cases run : parser input state with
  | mk outcome middle =>
    rw [run] at ran
    cases outcome with
    | none => exact ran
    | some a => exact trans ran (second a input middle)

theorem leads_iterate {step : σ → Parser (Step σ β)}
    (steps : ∀ accumulated, Leads related (step accumulated))
    (accumulated : σ) : Leads related (iterate step accumulated) := by
  intro input state
  induction accumulated, state using iterate_induction step input with
  | failed accumulated state final run ran | done accumulated state result final run ran
  | stuck accumulated state further final run fewer ran =>
    have stepped := steps accumulated input state
    rw [run] at stepped
    rw [ran]
    exact stepped
  | again accumulated state further next run fewer ran ih =>
    have stepped := steps accumulated input state
    rw [run] at stepped
    rw [ran]
    exact trans stepped ih

end Leads

/-! ## Inherited properties -/

/-- Whether a property holds of the simplest parsers and is inherited from the parts of a parser, as
long as none of them names another construct in messages. -/
structure InheritedInside (P : {α : Type} → Parser α → Prop) : Prop where
  pure {α : Type} (a : α) : P (Pure.pure a : Parser α)
  fail {α : Type} : P (Parser.fail : Parser α)
  cursor : P Parser.cursor
  skip : P Parser.skip
  reportExpected (what : String) : P (Parser.reportExpected what)
  reportAmbiguous (opcode : Opcode) (what found : String) (span : Span) :
    P (Parser.report (.error (.ambiguousForm opcode what found) span))
  reportRepeated (rule earlier : ModifierRule) (span : Span) :
    P (Parser.reportRepeated rule earlier span)
  noteUse (kind : NameKind) (found : Token) : P (Parser.noteUse kind found)
  define (kind : NameKind) (found : Token) : P (Parser.define kind found)
  type : P Parser.type
  attributeOf (form : AttributeForm) : P (Parser.attributeOf form)
  bind {α β : Type} {parser : Parser α} {next : α → Parser β} (first : P parser)
    (second : ∀ a, P (next a)) : P (parser >>= next)
  inScope {α : Type} {parser : Parser α} (inner : P parser) : P (Parser.inScope parser)
  iterate {σ β : Type} {step : σ → Parser (Step σ β)} (steps : ∀ accumulated, P (step accumulated))
    (accumulated : σ) : P (Parser.iterate step accumulated)

/-- Whether a property holds of the simplest parsers and is inherited from the parts of a parser. -/
structure Inherited (P : {α : Type} → Parser α → Prop) : Prop extends InheritedInside P where
  halted : P (Parser.look (·.halted))
  construct : P (Parser.look (·.construct))
  scope : P (Parser.look (·.tracker.scope))
  halt : P Parser.halt
  takeId : P Parser.takeId
  resynchronize (start : Cursor) : P (Parser.resynchronize start)
  report {diagnostic : Diagnostic} (common : diagnostic.isCommon = true) :
    P (Parser.report diagnostic)
  reportAll {diagnostics : List Diagnostic} (common : ∀ diagnostic ∈ diagnostics,
    diagnostic.isCommon = true) :
    P (Parser.change fun state =>
      { state with diagnostics := state.diagnostics.append diagnostics })
  checkHalted : P Parser.checkHalted
  maxDepth {α : Type} {next : Nat → Parser α} (all : ∀ depth, P (next depth)) :
    P (Parser.options >>= fun options => next options.maxDepth)
  attempt {α : Type} {parser : Parser α} (inner : P parser) : P (Parser.attempt parser)
  naming {α : Type} {parser : Parser α} (construct : String) (inner : P parser) :
    P (Parser.naming construct parser)
  reportAmbiguous _ _ _ _ := report rfl
  reportRepeated _ _ _ := bind construct fun _ => report rfl

namespace InheritedInside

variable {P : {α : Type} → Parser α → Prop} {α β : Type}

/-! ## Tokens and names -/

theorem either (_ : InheritedInside P) {condition : Prop} [Decidable condition] {yes no : Parser α}
    (first : P yes) (second : P no) : P (if condition then yes else no) := by
  split
  · exact first
  · exact second

variable (inherited : InheritedInside P)

include inherited

theorem map {parser : Parser α} (f : α → β) (inner : P parser) : P (f <$> parser) :=
  inherited.bind inner fun a => inherited.pure (f a)

theorem peek : P Parser.peek :=
  inherited.bind inherited.cursor fun here => inherited.pure here.peek

theorem expected (what : String) : P (Parser.expected what : Parser α) :=
  inherited.bind (inherited.reportExpected what) fun _ => inherited.fail

theorem satisfying (condition : Token → Bool) (what : String) :
    P (Parser.satisfying condition what) :=
  inherited.bind inherited.peek fun found =>
    inherited.either (inherited.bind inherited.skip fun _ => inherited.pure found)
      (inherited.expected what)

theorem punct (mark : Punct) : P (Parser.punct mark) :=
  inherited.satisfying _ _

theorem token (kind : TokenKind) (what : String) : P (Parser.token kind what) :=
  inherited.satisfying _ _

theorem eat (mark : Punct) : P (Parser.eat mark) :=
  inherited.bind inherited.cursor fun _ =>
    inherited.either (inherited.bind inherited.skip fun _ => inherited.pure true)
      (inherited.pure false)

theorem refer (kind : NameKind) : P (Parser.refer kind) :=
  inherited.bind (inherited.token _ _) fun found => inherited.noteUse kind found

/-! ## Lists -/

variable {item : Parser α}

theorem collect {step : Parser (Option α × Bool)} (inner : P step) : P (Parser.collect step) :=
  inherited.map _ <| inherited.iterate (fun _ => inherited.bind inner fun _ => inherited.pure _) _

/-- The items behind the first one, each with a comma in front. -/
theorem tail (inner : P item) : P (Parser.collect do
    if ← Parser.eat .comma then
      Pure.pure (some (← item), true)
    else
      Pure.pure (none, false)) :=
  inherited.collect <| inherited.bind (inherited.eat .comma) fun _ =>
    inherited.either (inherited.bind inner fun _ => inherited.pure _) (inherited.pure _)

theorem separated (inner : P item) : P (Parser.separated item) :=
  inherited.bind inner fun _ => inherited.bind (inherited.tail inner) fun _ => inherited.pure _

theorem listed (inner : P item) : P (Parser.listed item) :=
  inherited.bind inherited.cursor fun _ =>
    inherited.either (inherited.pure _) (inherited.bind (inherited.separated inner) fun _ =>
      inherited.pure _)

theorem listedWithEllipsis (inner : P item) : P (Parser.listedWithEllipsis item) := by
  refine inherited.bind inherited.cursor fun _ => inherited.either (inherited.pure _) ?_
  refine inherited.iterate (fun items => inherited.bind (inherited.eat .ellipsis) fun _ => ?_) _
  refine inherited.either (inherited.pure _) (inherited.bind inner fun _ => ?_)
  refine inherited.bind (inherited.eat .comma) fun _ => ?_
  exact inherited.either (inherited.pure _) (inherited.pure _)

/-- The items behind an opening bracket, up to the closing one. -/
theorem bracketedItems (separator : Separator) (inner : P item) : P (Parser.collect do
    if ← Parser.eat .rightBracket then
      Pure.pure (none, false)
    else if (← Parser.cursor).atEnd then
      Parser.expected "`]`"
    else
      let found ← item
      if separator = .comma then
        let _ ← Parser.eat .comma
      Pure.pure (some found, true)) := by
  refine inherited.collect ?_
  refine inherited.bind (inherited.eat .rightBracket) fun _ =>
    inherited.either (inherited.pure _) ?_
  refine inherited.bind inherited.cursor fun _ => inherited.either (inherited.expected _) ?_
  refine inherited.bind inner fun _ => inherited.either ?_ (inherited.pure _)
  exact inherited.bind (inherited.eat .comma) fun _ => inherited.pure _

theorem bracketed (separator : Separator) (inner : P item) : P (Parser.bracketed separator item) :=
  inherited.bind (inherited.punct _) fun _ => inherited.bracketedItems separator inner

theorem repeated (next : Guard) (inner : P item) : P (Parser.repeated next item) := by
  refine inherited.collect (inherited.bind inherited.cursor fun _ =>
    inherited.either ?_ (inherited.pure _))
  exact inherited.bind inner fun _ => inherited.bind (inherited.eat .comma) fun _ =>
    inherited.pure _

/-! ## Attributes and modifiers -/

theorem namedAttribute : P Parser.namedAttribute :=
  inherited.bind inherited.cursor fun _ => inherited.either (inherited.attributeOf _) <|
    inherited.either (inherited.attributeOf _) (inherited.expected _)

theorem trailingAttribute : P Parser.trailingAttribute :=
  inherited.bind inherited.cursor fun _ =>
    inherited.either (inherited.map _ (inherited.attributeOf _)) <|
    inherited.either (inherited.map _ (inherited.attributeOf _)) (inherited.pure _)

theorem argumentOf (kind : ArgumentKind) : P (Parser.argumentOf kind) := by
  cases kind with
  | word => exact inherited.bind (inherited.token _ _) fun _ => inherited.pure _
  | integer => exact inherited.bind (inherited.token _ _) fun _ => inherited.pure _
  | «symbol» => exact inherited.map _ (inherited.refer _)
  | «attribute» => exact inherited.map _ inherited.namedAttribute

theorem modifierArgument (form : Option ArgumentSyntax) : P (Parser.modifierArgument form) := by
  cases form with
  | none => exact inherited.pure _
  | some form =>
    refine inherited.bind inherited.cursor fun _ => inherited.either (inherited.pure _) ?_
    refine inherited.bind (inherited.punct _) fun _ =>
      inherited.bind (inherited.argumentOf _) fun _ => ?_
    exact inherited.bind (inherited.punct _) fun _ => inherited.pure _

theorem modifierRun (rules : List ModifierRule) : P (Parser.modifierRun rules) := by
  refine inherited.iterate (fun modifiers => inherited.bind inherited.cursor fun start => ?_) _
  cases rules.find? fun rule => start.atWord rule.keyword with
  | none => exact inherited.pure _
  | some rule =>
    refine inherited.bind inherited.skip fun _ =>
      inherited.bind (inherited.modifierArgument _) fun _ => ?_
    cases ModifierTable.filling? modifiers rule.slot with
    | none => exact inherited.pure _
    | some earlier =>
      refine inherited.bind inherited.cursor fun _ => ?_
      exact inherited.bind (inherited.reportRepeated _ _ _) fun _ => inherited.pure _

/-! ## Grammars -/

theorem grammar {R : Type} (start : Cursor) {region : RegionKind → Bool → Parser R} {α : Type}
    (grammar : Grammar R α)
    (others : grammar.isPlain = false →
      (∀ opcode message span, P (Parser.warnDeprecated opcode message span)) ∧
        ∀ kind implicitTerminator, P (region kind implicitTerminator)) :
    P (grammar.parse start region) := by
  induction grammar with
  | blank => exact inherited.pure _
  | punct mark => exact inherited.bind (inherited.punct _) fun _ => inherited.pure _
  | word text => exact inherited.bind (inherited.satisfying _ _) fun _ => inherited.pure _
  | lexeme kind what => exact inherited.bind (inherited.token _ _) fun _ => inherited.pure _
  | oneOf words what => exact inherited.bind (inherited.satisfying _ _) fun _ => inherited.pure _
  | name kind => exact inherited.refer kind
  | definition kind => exact inherited.bind (inherited.token _ _) fun _ => inherited.define _ _
  | type => exact inherited.type
  | attributeOf form => exact inherited.attributeOf form
  | namedAttribute => exact inherited.namedAttribute
  | trailingAttribute => exact inherited.trailingAttribute
  | seq first second ihFirst ihSecond =>
    refine inherited.bind (ihFirst fun rich => others ?_) fun _ =>
      inherited.bind (ihSecond fun rich => others ?_) fun _ => inherited.pure _
    · rw [Grammar.isPlain, rich, Bool.false_and]
    · rw [Grammar.isPlain, rich, Bool.and_false]
  | view as inner ih => exact inherited.map _ (ih others)
  | optional present inner ih =>
    exact inherited.bind inherited.cursor fun _ =>
      inherited.either (inherited.map _ (ih others)) (inherited.pure _)
  | choice isFirst first second ihFirst ihSecond =>
    refine inherited.bind inherited.cursor fun _ =>
      inherited.either (inherited.map _ (ihFirst fun rich => others ?_))
        (inherited.map _ (ihSecond fun rich => others ?_))
    · rw [Grammar.isPlain, rich, Bool.false_and]
    · rw [Grammar.isPlain, rich, Bool.and_false]
  | separated item ih => exact inherited.separated (ih others)
  | listed item ih => exact inherited.listed (ih others)
  | listedWithEllipsis item ih => exact inherited.listedWithEllipsis (ih others)
  | bracketed separator item ih => exact inherited.bracketed separator (ih others)
  | repeated next item ih => exact inherited.repeated next (ih others)
  | modifierRun table => exact inherited.map _ (inherited.modifierRun _)
  | spanned inner ih =>
    exact inherited.bind inherited.cursor fun _ => inherited.bind (ih others) fun _ =>
      inherited.bind inherited.cursor fun _ => inherited.pure _
  | binder what inner ih =>
    exact inherited.bind (inherited.token _ _) fun _ => inherited.bind (ih others) fun _ =>
      inherited.bind (inherited.define _ _) fun _ => inherited.pure _
  | inScope inner ih => exact inherited.inScope (ih others)
  | region kind implicitTerminator => exact (others rfl).2 kind implicitTerminator
  | recommended opcode warning inner ih =>
    refine inherited.bind (ih fun _ => others rfl) fun _ => inherited.either ?_ (inherited.pure _)
    exact inherited.bind inherited.cursor fun _ => inherited.bind ((others rfl).1 _ _ _) fun _ =>
      inherited.pure _

/-! ## Names and forms of operations -/

theorem resultNames : P Parser.resultNames := by
  refine inherited.bind inherited.cursor fun _ => inherited.either ?_ (inherited.pure _)
  refine inherited.bind (inherited.separated (inherited.token _ _)) fun _ => ?_
  exact inherited.bind (inherited.punct _) fun _ => inherited.pure _

theorem chooseForm (opcode : Opcode) : P (Parser.chooseForm opcode) := by
  refine inherited.bind inherited.cursor fun here => ?_
  cases Form.choose opcode here with
  | ok form => exact inherited.pure _
  | error what =>
    exact inherited.bind inherited.peek fun _ =>
      inherited.bind (inherited.reportAmbiguous _ _ _ _) fun _ => inherited.fail

theorem mapM_define (names : List Token) : P (names.mapM (Parser.define .value)) := by
  suffices loop : ∀ done, P (List.mapM.loop (Parser.define .value) names done) from loop []
  induction names with
  | nil => exact fun done => inherited.pure _
  | cons name names ih => exact fun done => inherited.bind (inherited.define _ _) fun _ => ih _

variable {region : RegionKind → Bool → Parser (Region Operation)}

theorem blockHeader : P (Parser.blockHeader region) :=
  inherited.bind inherited.cursor fun start =>
    inherited.bind (inherited.grammar start _ (by rintro ⟨⟩)) fun _ =>
    inherited.bind inherited.cursor fun _ => inherited.pure _

end InheritedInside

namespace Inherited

variable {P : {α : Type} → Parser α → Prop} (inherited : Inherited P)
variable {region : RegionKind → Bool → Parser (Region Operation)}

include inherited

/-! ## Operations -/

theorem afterKeyword (warns : ∀ opcode message span, P (Parser.warnDeprecated opcode message span))
    (regions : ∀ kind implicitTerminator, P (region kind implicitTerminator)) (start : Cursor)
    (opcode : Opcode) : P (Parser.afterKeyword region start opcode) := by
  refine inherited.bind inherited.takeId fun _ => inherited.naming _ ?_
  refine inherited.bind (inherited.chooseForm opcode) fun _ => ?_
  exact inherited.bind (inherited.grammar start _ fun _ => ⟨warns, regions⟩) fun _ =>
    inherited.pure _

theorem fromKeyword (warns : ∀ opcode message span, P (Parser.warnDeprecated opcode message span))
    (unknown : ∀ keyword span, P (Parser.report (.error (.unknownOpcode keyword) span)))
    (regions : ∀ kind implicitTerminator, P (region kind implicitTerminator)) :
    P (Parser.fromKeyword region) := by
  refine inherited.bind inherited.cursor fun start => inherited.either ?_ (inherited.expected _)
  cases Opcode.ofKeyword? start.peek.text with
  | none => exact inherited.bind (unknown _ _) fun _ => inherited.fail
  | some opcode =>
    exact inherited.bind inherited.skip fun _ => inherited.afterKeyword warns regions start opcode

theorem operationHead (warns : ∀ opcode message span, P (Parser.warnDeprecated opcode message span))
    (unknown : ∀ keyword span, P (Parser.report (.error (.unknownOpcode keyword) span)))
    (regions : ∀ kind implicitTerminator, P (region kind implicitTerminator)) :
    P (Parser.operationHead region) :=
  inherited.bind inherited.resultNames fun _ =>
    inherited.bind (inherited.fromKeyword warns unknown regions) fun _ => inherited.pure _

theorem operation (warns : ∀ opcode message span, P (Parser.warnDeprecated opcode message span))
    (unknown : ∀ keyword span, P (Parser.report (.error (.unknownOpcode keyword) span)))
    (regions : ∀ kind implicitTerminator, P (region kind implicitTerminator)) :
    P (Parser.operation region) := by
  refine inherited.bind inherited.cursor fun _ =>
    inherited.bind inherited.resultNames fun names => ?_
  refine inherited.bind (inherited.attempt (inherited.fromKeyword warns unknown regions))
    fun read => ?_
  refine inherited.bind (inherited.mapM_define names) fun _ => ?_
  cases read with
  | none => exact inherited.fail
  | some found => exact inherited.bind inherited.cursor fun _ => inherited.pure _

/-! ## Regions -/

theorem place (kind : RegionKind) (progress : Progress) (op : Operation) :
    P (Parser.place kind progress op) := by
  have terminator : P (do
      if op.isTerminator && !kind.accepts op then Parser.reportTerminator kind op
      Pure.pure (progress.push op)) :=
    inherited.either (inherited.bind (inherited.report rfl) fun _ => inherited.pure _)
    (inherited.pure _)
  exact inherited.either (inherited.bind (inherited.report rfl) fun _ => terminator) terminator

theorem blockStep (warns : ∀ opcode message span, P (Parser.warnDeprecated opcode message span))
    (unknown : ∀ keyword span, P (Parser.report (.error (.unknownOpcode keyword) span)))
    (regions : ∀ kind implicitTerminator, P (region kind implicitTerminator))
    (kind : RegionKind) (opening : Span) (progress : Progress) :
    P (Parser.blockStep region kind opening progress) := by
  have resumed : ∀ start, P (do
      Parser.resynchronize start
      Pure.pure (Step.again progress : Step Progress (List (Block Operation) × Span))) :=
    fun start => inherited.bind (inherited.resynchronize start) fun _ => inherited.pure _
  refine inherited.bind inherited.cursor fun start => inherited.bind inherited.halted fun _ => ?_
  refine inherited.either inherited.fail
    (inherited.either ?_ (inherited.either ?_ (inherited.either ?_ ?_)))
  · exact inherited.bind inherited.skip fun _ => inherited.pure _
  · have unclosed : P (Parser.reportUnclosed kind opening) :=
      inherited.bind inherited.peek fun _ => inherited.bind (inherited.report rfl) fun _ =>
        inherited.halt
    exact inherited.bind unclosed fun _ => inherited.fail
  · refine inherited.bind (inherited.attempt (inherited.blockHeader)) fun read => ?_
    cases read with
    | none => exact resumed start
    | some draft => exact inherited.pure _
  · refine inherited.bind (inherited.attempt (inherited.operation warns unknown regions))
      fun read => ?_
    cases read with
    | none => exact resumed start
    | some op => exact inherited.map _ (inherited.place kind progress op)

theorem reportUnterminated (kind : RegionKind) (implicitTerminator : Bool)
    (blocks : List (Block Operation)) (closing : Span) :
    P (Parser.reportUnterminated kind implicitTerminator blocks closing) := by
  refine inherited.either (inherited.pure _) (inherited.reportAll ?_)
  intro diagnostic member
  obtain ⟨block, _, rfl⟩ := List.mem_map.1 member
  rfl

theorem blocks {kind : RegionKind} {opening : Span}
    (steps : ∀ progress, P (Parser.blockStep region kind opening progress))
    (implicitTerminator : Bool) :
    P (Parser.blocks region kind implicitTerminator opening) := by
  refine inherited.bind inherited.scope fun _ => inherited.bind inherited.peek fun _ => ?_
  refine inherited.bind (inherited.iterate steps _) fun found => ?_
  exact inherited.bind (inherited.reportUnterminated _ _ _ _) fun _ => inherited.pure _

theorem regionWithin
    (steps : ∀ {region}, (∀ kind implicitTerminator, P (region kind implicitTerminator)) →
      ∀ kind opening progress, P (Parser.blockStep region kind opening progress))
    (levels : Nat) (kind : RegionKind) (implicitTerminator : Bool) :
    P (Parser.regionWithin levels kind implicitTerminator) := by
  induction levels generalizing kind implicitTerminator with
  | zero =>
    have tooDeep : ∀ limit : Nat, P (do
        Parser.reportExpected ("at most " ++ toString limit ++ " nested regions")
        Parser.halt
        (Parser.fail : Parser (Region Operation))) :=
      fun limit => inherited.bind (inherited.reportExpected _) fun _ =>
        inherited.bind inherited.halt fun _ => inherited.fail
    exact inherited.bind inherited.checkHalted fun _ =>
      inherited.either inherited.fail (inherited.maxDepth tooDeep)
  | succ levels ih =>
    refine inherited.bind inherited.checkHalted fun _ => inherited.either inherited.fail ?_
    exact inherited.bind (inherited.punct _) fun _ => inherited.blocks (steps ih kind _) _

/-! ## Source units -/

theorem itemStep (warns : ∀ opcode message span, P (Parser.warnDeprecated opcode message span))
    (unknown : ∀ keyword span, P (Parser.report (.error (.unknownOpcode keyword) span)))
    (regions : ∀ kind implicitTerminator, P (region kind implicitTerminator)) (braced : Bool) :
    P (Parser.itemStep region braced) := by
  refine inherited.bind inherited.checkHalted fun _ => ?_
  refine inherited.bind inherited.cursor fun start => inherited.either (inherited.pure _) ?_
  have declaration : P (Parser.declaration region) :=
    inherited.bind inherited.peek fun _ =>
      inherited.either (inherited.operation warns unknown regions) (inherited.expected _)
  refine inherited.bind (inherited.attempt declaration) fun read => ?_
  cases read with
  | none =>
    exact inherited.bind (inherited.resynchronize start) fun _ =>
      inherited.bind inherited.halted fun _ => inherited.pure _
  | some op => exact inherited.pure _

theorem unitHeader (start : Cursor) : P (Parser.unitHeader start) := by
  have ended : ∀ name attributes, P (do
      Pure.pure ({ name, attributes, span := start.spanBetween (← Parser.cursor) } :
        ModuleHeader)) :=
    fun _ _ => inherited.bind inherited.cursor fun _ => inherited.pure _
  have attributes : P (Parser.attempt (Parser.attributeOf .dictionary)) :=
    inherited.attempt (inherited.attributeOf _)
  refine inherited.bind inherited.cursor fun here => inherited.either ?_ ?_
  · refine inherited.bind inherited.skip fun _ => inherited.bind (inherited.pure _) fun _ => ?_
    refine inherited.bind inherited.cursor fun _ => inherited.either ?_ ?_
    · exact inherited.bind inherited.skip fun _ => inherited.bind attributes fun _ => ended _ _
    · exact inherited.bind (inherited.pure _) fun _ => ended _ _
  · refine inherited.bind (inherited.pure _) fun _ => inherited.bind inherited.cursor fun _ =>
      inherited.either ?_ ?_
    · exact inherited.bind inherited.skip fun _ => inherited.bind attributes fun _ => ended _ _
    · exact inherited.bind (inherited.pure _) fun _ => ended _ _

theorem moduleEnd (opening : Token) : P (Parser.moduleEnd opening) := by
  refine inherited.bind inherited.cursor fun _ => inherited.either ?_ (inherited.report rfl)
  refine inherited.bind inherited.skip fun _ => inherited.bind inherited.cursor fun _ => ?_
  exact inherited.either (inherited.reportExpected _) (inherited.pure _)

/-- A property that is inherited from parts holds of the parser of source units if it holds of the
steps through regions and through items. -/
theorem sourceUnit
    (steps : ∀ {region}, (∀ kind implicitTerminator, P (region kind implicitTerminator)) →
      ∀ kind opening progress, P (Parser.blockStep region kind opening progress))
    (itemSteps : ∀ {region}, (∀ kind implicitTerminator, P (region kind implicitTerminator)) →
      ∀ braced, P (Parser.itemStep region braced))
    (levels : Nat) : P (Parser.sourceUnit (Parser.regionWithin levels)) := by
  have items : ∀ braced, P (Parser.items (Parser.regionWithin levels) braced) := fun braced =>
    inherited.collect (itemSteps (inherited.regionWithin steps levels) braced)
  refine inherited.bind inherited.cursor fun start => inherited.either ?_ ?_
  · refine inherited.bind inherited.skip fun _ =>
      inherited.bind (inherited.unitHeader start) fun _ => ?_
    refine inherited.bind (inherited.attempt (inherited.punct _)) fun opening => ?_
    refine inherited.bind (items _) fun _ => ?_
    cases opening with
    | none => exact inherited.pure _
    | some brace =>
      refine inherited.bind inherited.halted fun _ => inherited.either ?_ (inherited.pure _)
      exact inherited.bind (inherited.moduleEnd brace) fun _ => inherited.pure _
  · exact inherited.bind (items _) fun _ => inherited.pure _

end Inherited

end Parser

end CirText
