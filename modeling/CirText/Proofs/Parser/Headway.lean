import CirText.Proofs.Parser.Truncation
import CirText.Proofs.Parser.Warnings

/-!
# Headway

Parsing never goes back, and it never stays where it is for long. A parser strides if it leaves
fewer tokens whenever it gives a result of some kind. What a grammar describes is read in strides if
it is never empty. An operation leaves fewer tokens or is refused on the spot, and then at least one
token is skipped, so that each step through the blocks of a region and through the items of a source
unit makes headway, whatever goes wrong in it.
-/

namespace CirText

theorem Cursor.Reaches.position_lt {before after : Cursor} (reaches : before.Reaches after)
    (fewer : after.rest.length < before.rest.length) : before.position < after.position := by
  have kept := reaches.position_add_length
  omega

/-- Something is left to be read if the next token satisfies a condition that no end of input
satisfies. -/
theorem Cursor.rest_ne_nil {cursor : Cursor} (condition : Token → Bool)
    (real : ∀ offset, condition (.endAt offset) = false)
    (satisfied : condition cursor.peek = true) :
    cursor.rest ≠ [] := by
  intro none
  rw [Cursor.peek, none, List.headD_nil, Cursor.endToken, real] at satisfied
  cases satisfied

namespace Parser

variable {α β σ : Type}

/-! ## Strides -/

/-- Whether fewer tokens are left in a state than in an earlier one. -/
def State.Nears (before after : State) : Prop :=
  after.cursor.rest.length < before.cursor.rest.length

/-- Whether a parser leaves fewer tokens whenever it gives a result of some kind. -/
def Strides (kind : α → Prop) (parser : Parser α) : Prop :=
  ∀ (input : Input) (state : State) (a : α), (parser input state).1 = some a → kind a →
    state.Nears (parser input state).2

/-- Whether a step of a loop wants another one. -/
def Step.GoesOn : Step σ β → Prop
  | .again _ => True
  | .done _ => False

namespace Strides

variable {parser : Parser α} {next : α → Parser β} {kind : β → Prop}

theorem pure {b : β} (other : ¬kind b) : Strides kind (Pure.pure b) := by
  rintro input state _ ⟨⟩ meets
  exact absurd meets other

theorem expected (what : String) : Strides kind (Parser.expected what) := by
  rintro input state b ⟨⟩

/-- What comes behind a part only has to stride if that part has not done so. -/
theorem bind {early : α → Prop} (forward : Forward parser) (first : Strides early parser)
    (behind : ∀ a, early a → Forward (next a)) (otherwise : ∀ a, ¬early a → Strides kind (next a)) :
    Strides kind (parser >>= next) := by
  intro input state b given meets
  have noLonger := (forward input state).length_le
  have fewer := first input state
  rw [bind_run] at given ⊢
  cases run : parser input state with
  | mk outcome middle =>
    rw [run] at given noLonger fewer
    cases outcome with
    | none => cases given
    | some a =>
      by_cases strode : early a
      · exact Nat.lt_of_le_of_lt (behind a strode input middle).length_le (fewer a rfl strode)
      · exact Nat.lt_of_lt_of_le (otherwise a strode input middle b given meets) noLonger

theorem first (forward : Forward parser) (strides : Strides (fun _ => True) parser)
    (behind : ∀ a, Forward (next a)) : Strides kind (parser >>= next) :=
  bind forward strides (fun a _ => behind a) fun _ never => absurd trivial never

theorem second (forward : Forward parser) (strides : ∀ a, Strides kind (next a)) :
    Strides kind (parser >>= next) := by
  have never : Strides (fun _ => False) parser := by rintro _ _ _ _ ⟨⟩
  exact bind forward never (by rintro _ ⟨⟩) fun a _ => strides a

theorem map {f : α → β} (strides : Strides (fun a => kind (f a)) parser) :
    Strides kind (f <$> parser) := by
  intro input state b given meets
  rw [map_run] at given ⊢
  obtain ⟨a, outcome, rfl⟩ := Option.map_eq_some_iff.1 given
  exact strides input state a outcome meets

theorem ite {condition : Prop} [Decidable condition] {yes no : Parser β}
    (first : condition → Strides kind yes) (second : ¬condition → Strides kind no) :
    Strides kind (if condition then yes else no) := by
  split
  · exact first ‹_›
  · exact second ‹_›

/-! ## Tokens -/

theorem satisfying {condition : Token → Bool} {kind : Token → Prop} (what : String)
    (real : ∀ offset, condition (.endAt offset) = false) :
    Strides kind (Parser.satisfying condition what) := by
  intro input state found given _
  rw [satisfying_run] at given ⊢
  split at given
  · rename_i satisfied
    rw [if_pos satisfied]
    exact length_next_lt (Cursor.rest_ne_nil condition real satisfied)
  · cases given

theorem punct {kind : Token → Prop} (mark : Punct) : Strides kind (Parser.punct mark) :=
  satisfying _ fun _ => rfl

theorem token {kind : Token → Prop} {wanted : TokenKind} (what : String)
    (real : wanted ≠ .endOfInput) :
    Strides kind (Parser.token wanted what) :=
  satisfying what fun _ => beq_eq_false_iff_ne.2 real.symm

theorem eat (mark : Punct) : Strides (· = true) (Parser.eat mark) := by
  rintro input state _ given rfl
  have run : Parser.eat mark input state =
      if state.cursor.atPunct mark then (some true, { state with cursor := state.cursor.next })
      else (some false, state) := by
    change (if state.cursor.atPunct mark then _ else _ : Parser Bool) input state = _
    split <;> rfl
  rw [run] at given ⊢
  split at given
  · rename_i here
    rw [if_pos here]
    exact length_next_lt (Cursor.rest_ne_nil (·.isPunct mark) (fun _ => rfl) here)
  · cases given

/-- Behind a mark that may be left out. -/
theorem afterMark {next : Bool → Parser β} (mark : Punct) (yes : Forward (next true))
    (no : Strides kind (next false)) : Strides kind (Parser.eat mark >>= next) := by
  refine bind (inherited_forward.eat mark) (eat mark) ?_ ?_
  · rintro _ rfl
    exact yes
  · intro eaten other
    rw [Bool.eq_false_iff.2 other]
    exact no

/-! ## Types and attributes -/

theorem embed {kind : α → Prop} {language : Sublanguage} {adapter : Adapters → Adapter α} :
    Strides kind (Parser.embed language adapter) := by
  intro input state a given _
  unfold Parser.embed at given ⊢
  cases found : (adapter input.adapters).read input.source state.cursor with
  | ok value =>
    obtain ⟨count, inside, moved⟩ := (adapter input.adapters).advances found
    change value.2.rest.length < state.cursor.rest.length
    rw [moved, Cursor.rest_advance, List.length_drop]
    omega
  | error error =>
    rw [found] at given
    cases given

theorem type {kind : TypeText → Prop} : Strides kind Parser.type :=
  embed

theorem attributeOf {kind : AttributeText → Prop} (form : AttributeForm) :
    Strides kind (Parser.attributeOf form) :=
  embed

theorem namedAttribute {kind : AttributeText → Prop} : Strides kind Parser.namedAttribute :=
  second inherited_forward.cursor fun _ => ite (fun _ => attributeOf _) fun _ =>
    ite (fun _ => attributeOf _) fun _ => expected _

/-- A part in a scope of its own. -/
theorem inScope {parser : Parser β} (strides : Strides kind parser) :
    Strides kind (Parser.inScope parser) :=
  fun input state => strides input { state with tracker := state.tracker.push }

theorem separated {item : Parser α} {kind : α × List α → Prop} (forward : Forward item)
    (strides : Strides (fun _ => True) item) : Strides kind (Parser.separated item) :=
  first forward strides fun _ => inherited_forward.bind (inherited_forward.tail forward) fun _ =>
    inherited_forward.pure _

theorem bracketed {item : Parser α} {kind : List α → Prop} (separator : Separator)
    (forward : Forward item) :
    Strides kind (Parser.bracketed separator item) :=
  first (inherited_forward.punct _) (punct _) fun _ =>
    inherited_forward.bracketedItems separator forward

/-! ## Loops through lists -/

section Lists

variable {item : Parser α}

theorem collecting {step : Parser (Option α × Bool)} (forward : Forward step)
    (strides : Strides (·.2 = true) step)
    (items : List α) : Strides Step.GoesOn (do
      let (found, goesOn) ← step
      let items := found.toList ++ items
      Pure.pure (if goesOn then .again items else .done items : Step (List α) (List α))) := by
  refine bind forward strides (fun _ _ => inherited_forward.pure _) ?_
  rintro ⟨found, goesOn⟩ last
  cases Bool.eq_false_iff.2 last
  exact pure id

variable (forward : Forward item)

include forward

theorem followingItem : Strides (·.2 = true) (do
    if ← Parser.eat .comma then
      Pure.pure (some (← item), true)
    else
      Pure.pure (none, false)) :=
  afterMark .comma (inherited_forward.bind forward fun _ => inherited_forward.pure _)
    (pure (by rintro ⟨⟩))

theorem itemOrEllipsis (items : List α) : Strides Step.GoesOn (do
    if ← Parser.eat .ellipsis then
      Pure.pure (.done (items.reverse, true))
    else
      let items := (← item) :: items
      if ← Parser.eat .comma then
        Pure.pure (.again items)
      else
        Pure.pure (.done (items.reverse, false)) : Parser (Step (List α) (List α × Bool))) := by
  refine second (inherited_forward.eat .ellipsis) fun _ => ite (fun _ => pure id) fun _ => ?_
  exact second forward fun _ => afterMark .comma (inherited_forward.pure _) (pure id)

theorem bracketedItem (separator : Separator) (strides : Strides (fun _ => True) item) :
    Strides (·.2 = true) (do
    if ← Parser.eat .rightBracket then
      Pure.pure (none, false)
    else if (← Parser.cursor).atEnd then
      Parser.expected "`]`"
    else
      let found ← item
      if separator = .comma then
        let _ ← Parser.eat .comma
      Pure.pure (some found, true)) := by
  refine second (inherited_forward.eat _) fun _ => ite (fun _ => pure (by rintro ⟨⟩)) fun _ => ?_
  refine second inherited_forward.cursor fun _ => ite (fun _ => expected _) fun _ =>
    first forward strides fun _ => ?_
  exact inherited_forward.either
    (inherited_forward.bind (inherited_forward.eat _) fun _ => inherited_forward.pure _)
    (inherited_forward.pure _)

theorem repeatedItem (next : Guard) (strides : Strides (fun _ => True) item) :
    Strides (·.2 = true) (do
    if next.holds (← Parser.cursor) then
      let found ← item
      let _ ← Parser.eat .comma
      Pure.pure (some found, true)
    else
      Pure.pure (none, false)) := by
  refine second inherited_forward.cursor fun _ => ite (fun _ => ?_) fun _ => pure (by rintro ⟨⟩)
  exact first forward strides fun _ => inherited_forward.bind (inherited_forward.eat _) fun _ =>
    inherited_forward.pure _

end Lists

/-- A step through a run of modifiers goes on only behind a keyword. -/
theorem modifier (rules : List ModifierRule) (modifiers : List Modifier)
    {behind : ModifierRule → Cursor → Parser (Step (List Modifier) (List Modifier))}
    (forward : ∀ rule start, Forward (behind rule start)) :
    Strides Step.GoesOn (do
      let start ← Parser.cursor
      match rules.find? fun rule => start.atWord rule.keyword with
      | none => Pure.pure (.done modifiers)
      | some rule =>
        Parser.skip
        behind rule start) := by
  intro input state step given goesOn
  simp only [bind_run, cursor, look] at given ⊢
  cases found : rules.find? fun rule => state.cursor.atWord rule.keyword with
  | none =>
    simp only [found] at given
    cases given
    cases goesOn
  | some rule =>
    have word := List.find?_some found
    have more := Cursor.rest_ne_nil (·.isWord rule.keyword) (fun _ => rfl) word
    exact Nat.lt_of_le_of_lt (forward rule state.cursor input _).length_le (length_next_lt more)

end Strides

/-! ## Grammars -/

theorem forward_warnDeprecated (opcode : Opcode) (message : String) (span : Span) :
    Forward (warnDeprecated opcode message span) := by
  refine forward_of_eq fun input state => ?_
  rw [warnDeprecated_run]
  dsimp only
  split <;> rfl

theorem forward_parse {R : Type} {region : RegionKind → Bool → Parser R}
    (regions : ∀ kind implicitTerminator, Forward (region kind implicitTerminator)) (start : Cursor)
    (grammar : Grammar R α) : Forward (grammar.parse start region) :=
  inherited_forward.grammar start grammar fun _ => ⟨forward_warnDeprecated, regions⟩

/-- What a grammar describes is read in strides if it is never empty. -/
theorem strides_parse {R : Type} {region : RegionKind → Bool → Parser R}
    (regions : ∀ kind implicitTerminator, Forward (region kind implicitTerminator)) (start : Cursor)
    (grammar : Grammar R α) (steady : grammar.steady = true) (consumes : grammar.consumes = true)
    {kind : α → Prop} : Strides kind (grammar.parse start region) := by
  induction grammar with
  | blank | trailingAttribute | optional | listed | listedWithEllipsis | repeated | modifierRun
  | region => cases consumes
  | punct mark =>
    exact .first (inherited_forward.punct mark) (.punct mark) fun _ => inherited_forward.pure _
  | word text =>
    exact .first (inherited_forward.satisfying _ _) (.satisfying _ fun _ => rfl) fun _ =>
      inherited_forward.pure _
  | lexeme wanted what =>
    exact .first (inherited_forward.token _ _) (.token what (bne_iff_ne.1 steady)) fun _ =>
      inherited_forward.pure _
  | oneOf words what =>
    have real : ∀ offset, words.any (Token.endAt offset).isWord = false :=
      fun offset => List.any_eq_false.2 fun _ _ => Bool.false_ne_true
    exact .first (inherited_forward.satisfying _ _) (.satisfying what real) fun _ =>
      inherited_forward.pure _
  | name named =>
    exact .first (inherited_forward.token _ _) (.token _ (Means.nameToken_ne named)) fun _ =>
      inherited_forward.noteUse _ _
  | definition named =>
    exact .first (inherited_forward.token _ _) (.token _ (Means.nameToken_ne named)) fun _ =>
      inherited_forward.define _ _
  | type => exact .type
  | attributeOf form => exact .attributeOf form
  | namedAttribute => exact .namedAttribute
  | seq first second ihFirst ihSecond =>
    obtain ⟨steadyFirst, steadySecond⟩ := Bool.and_eq_true_iff.1 steady
    have early := forward_parse regions start first
    have late := forward_parse regions start second
    rcases Bool.or_eq_true_iff.1 consumes with consumes | consumes
    · exact .first early (ihFirst steadyFirst consumes) fun _ =>
        inherited_forward.bind late fun _ => inherited_forward.pure _
    · exact .second early fun _ => .first late (ihSecond steadySecond consumes) fun _ =>
        inherited_forward.pure _
  | view as inner ih => exact .map (ih steady consumes)
  | choice isFirst first second ihFirst ihSecond =>
    obtain ⟨steadyFirst, steadySecond⟩ := Bool.and_eq_true_iff.1 steady
    obtain ⟨consumesFirst, consumesSecond⟩ := Bool.and_eq_true_iff.1 consumes
    exact .second inherited_forward.cursor fun _ =>
      .ite (fun _ => .map (ihFirst steadyFirst consumesFirst)) fun _ =>
        .map (ihSecond steadySecond consumesSecond)
  | separated item ih => exact .separated (forward_parse regions start item) (ih steady consumes)
  | bracketed separator item => exact .bracketed separator (forward_parse regions start item)
  | spanned inner ih =>
    exact .second inherited_forward.cursor fun _ =>
      .first (forward_parse regions start inner) (ih steady consumes) fun _ =>
        inherited_forward.bind inherited_forward.cursor fun _ => inherited_forward.pure _
  | binder what inner =>
    refine .first (inherited_forward.token _ _) (.token what (by rintro ⟨⟩)) fun _ => ?_
    exact inherited_forward.bind (forward_parse regions start inner) fun _ =>
      inherited_forward.bind (inherited_forward.define _ _) fun _ => inherited_forward.pure _
  | inScope inner ih => exact .inScope (ih steady consumes)
  | recommended opcode warning inner ih =>
    refine .first (forward_parse regions start inner) (ih steady consumes) fun _ =>
      inherited_forward.either ?_ (inherited_forward.pure _)
    exact inherited_forward.bind inherited_forward.cursor fun _ =>
      inherited_forward.bind (forward_warnDeprecated _ _ _) fun _ => inherited_forward.pure _

/-! ## Operations -/

section Operations

variable {input : Input} {before state after : State}

theorem State.Nears.trans (nears : before.Nears state)
    (reaches : state.cursor.Reaches after.cursor) :
    before.Nears after :=
  Nat.lt_of_le_of_lt reaches.length_le nears

theorem State.Nears.position_lt (nears : before.Nears after)
    (reaches : before.cursor.Reaches after.cursor) :
    before.cursor.position < after.cursor.position :=
  reaches.position_lt nears

/-- Fewer tokens are left if a first part has left fewer, whether it fails or not. -/
theorem nears_bind {parser : Parser α} {next : α → Parser β}
    (nears : before.Nears (parser input state).2)
    (forward : ∀ a, Forward (next a)) : before.Nears ((parser >>= next) input state).2 := by
  rw [bind_run]
  cases run : parser input state with
  | mk outcome middle =>
    rw [run] at nears
    cases outcome with
    | none => exact nears
    | some a => exact nears.trans (forward a input middle)

theorem nears_token {wanted : TokenKind} (what : String) (here : state.cursor.atKind wanted = true)
    (real : wanted ≠ .endOfInput) : state.Nears (token wanted what input state).2 := by
  refine @Strides.token (fun _ => True) wanted what real input state state.cursor.peek ?_ trivial
  rw [token, satisfying_run, if_pos (show (state.cursor.peek.kind == wanted) = true from here)]

/-- Whether a parser leaves fewer tokens in a run, or else fails where it starts and does not end
parsing. -/
def Starts (parser : Parser α) (input : Input) (state : State) : Prop :=
  state.Nears (parser input state).2 ∨
    (parser input state).1 = none ∧ (parser input state).2.cursor = state.cursor ∧
      (parser input state).2.halted = state.halted

theorem starts_expected (what : String) (input : Input) (state : State) :
    Starts (expected what : Parser α) input state :=
  .inr ⟨rfl, rfl, rfl⟩

variable {region : RegionKind → Bool → Parser (Region Operation)}

variable (region) in
/-- An operation is refused where its keyword is missing or unknown, or else that is skipped
first. -/
theorem fromKeyword_cases (input : Input) (state : State) :
    (∃ opcode, state.cursor.rest ≠ [] ∧ fromKeyword region input state =
      (skip >>= fun _ => afterKeyword region state.cursor opcode :
        Parser (Nat × Form × Body (Region Operation))) input state) ∨
    ∃ diagnostics, fromKeyword region input state = (none, { state with diagnostics }) := by
  by_cases isKeyword : state.cursor.peek.kind = .keyword
  · cases known : Opcode.ofKeyword? state.cursor.peek.text with
    | none =>
      refine .inr ⟨state.diagnostics.push
        (.error (.unknownOpcode state.cursor.peek.text) state.cursor.peek.span), ?_⟩
      simp only [fromKeyword, bind_run, look, cursor, isKeyword, known]
      rfl
    | some opcode =>
      have more : state.cursor.rest ≠ [] :=
        Cursor.rest_ne_nil (·.kind == .keyword) (fun _ => rfl) (beq_iff_eq.2 isKeyword)
      exact .inl ⟨opcode, more, fromKeyword_run_of_known isKeyword known input⟩
  · have other : (state.cursor.peek.kind == .keyword) = false := by simpa using isKeyword
    refine .inr ⟨state.diagnostics.push (.errorWithFix
      (.malformed state.construct "an operation" state.cursor.peek.describe) state.cursor.peek.span
      (.emptyAt state.cursor.lastStop)), ?_⟩
    simp only [fromKeyword, bind_run, look, cursor, other]
    rfl

variable (regions : ∀ kind implicitTerminator, Forward (region kind implicitTerminator))

include regions

theorem starts_fromKeyword (input : Input) (state : State) :
    Starts (fromKeyword region) input state := by
  rcases fromKeyword_cases region input state with ⟨opcode, more, run⟩ | ⟨diagnostics, run⟩
  · rw [Starts, run]
    exact .inl (nears_bind (length_next_lt more) fun _ =>
      inherited_forward.afterKeyword forward_warnDeprecated regions _ _)
  · rw [Starts, run]
    exact .inr ⟨rfl, rfl, rfl⟩

theorem forward_operation : Forward (operation region) :=
  inherited_forward.operation forward_warnDeprecated (fun _ _ => forward_of_eq fun _ _ => rfl)
    regions

/-- An operation leaves fewer tokens if a result name comes first, whatever comes behind it. -/
theorem nears_operation_of_results (input : Input) {state : State}
    (here : state.cursor.atKind .value = true) :
    state.Nears (operation region input state).2 := by
  have run : operation region input state =
      (resultNames >>= fun names => attempt (fromKeyword region) >>= fun read =>
        names.mapM (define .value) >>= fun results => endOperation state.cursor results read)
          input state := rfl
  have named : resultNames input state =
      (separated (token .value "a result name") >>= fun found => punct .equal >>= fun _ =>
        Pure.pure (found.1 :: found.2) : Parser (List Token)) input state := by
    change (if state.cursor.atKind .value then _ else _ : Parser (List Token)) input state = _
    rw [if_pos here]
  have first : state.Nears (separated (token .value "a result name") input state).2 :=
    nears_bind (nears_token _ here (by rintro ⟨⟩)) fun _ =>
      inherited_forward.bind (inherited_forward.tail (inherited_forward.token _ _)) fun _ =>
        inherited_forward.pure _
  rw [run]
  refine nears_bind ?_ fun names => ?_
  · rw [named]
    exact nears_bind first fun _ =>
      inherited_forward.bind (inherited_forward.punct _) fun _ => inherited_forward.pure _
  · have keyword : Forward (fromKeyword region) :=
      inherited_forward.fromKeyword forward_warnDeprecated (fun _ _ => forward_of_eq fun _ _ => rfl)
      regions
    refine inherited_forward.bind (inherited_forward.attempt keyword) fun read =>
      inherited_forward.bind (inherited_forward.mapM_define names) fun results => ?_
    cases read with
    | none => exact inherited_forward.fail
    | some found =>
      exact inherited_forward.bind inherited_forward.cursor fun _ => inherited_forward.pure _

theorem starts_operation (input : Input) (state : State) :
    Starts (operation region) input state := by
  cases here : state.cursor.atKind .value with
  | true => exact .inl (nears_operation_of_results regions input here)
  | false =>
    have started := starts_fromKeyword regions input state
    rw [Starts, operation_run_of_noResults here, attempt_bind_run]
    cases read : fromKeyword region input state with
    | mk outcome last =>
      rw [Starts, read] at started
      rcases started with nears | ⟨failed, refused⟩
      · refine .inl (nears.trans ?_)
        cases outcome with
        | none => exact .refl _
        | some found => exact .refl _
      · cases failed
        exact .inr ⟨rfl, refused⟩

theorem starts_declaration (input : Input) (state : State) :
    Starts (declaration region) input state := by
  have run : declaration region input state =
      (if startsDeclaration state.cursor.peek then operation region
      else expected "`cir.func` or `cir.global`" : Parser Operation) input state := rfl
  rw [Starts, run]
  split
  · exact starts_operation regions input state
  · exact starts_expected _ input state

theorem forward_blockStep (kind : RegionKind) (opening : Span) (progress : Progress) :
    Forward (blockStep region kind opening progress) :=
  inherited_forward.blockStep forward_warnDeprecated (fun _ _ => forward_of_eq fun _ _ => rfl)
    regions kind opening progress

omit regions in
theorem forward_regionWithin (levels : Nat) (kind : RegionKind) (implicitTerminator : Bool) :
    Forward (regionWithin levels kind implicitTerminator) :=
  inherited_forward.regionWithin (fun regions => forward_blockStep regions) levels kind
    implicitTerminator

theorem forward_declaration : Forward (declaration region) :=
  inherited_forward.bind inherited_forward.peek fun _ =>
    inherited_forward.either (forward_operation regions) (inherited_forward.expected _)

/-- The header of a block is read beyond its label, whether it can be read or not. -/
theorem nears_blockHeader (input : Input) {state : State}
    (starts : Cursor.startsBlock state.cursor.rest = true) :
    state.Nears (blockHeader region input state).2 := by
  have here : state.cursor.atKind .label = true := by
    unfold Cursor.startsBlock at starts
    split at starts
    · rename_i label next rest found
      rw [Cursor.atKind, Cursor.peek_of_cons found]
      exact (Bool.and_eq_true_iff.1 starts).1
    · cases starts
  have label : state.Nears
      ((Grammar.definition .label).parse (R := Region Operation) state.cursor region
        input state).2 :=
    nears_bind (nears_token _ here (by rintro ⟨⟩)) fun _ => inherited_forward.define _ _
  have args : state.Nears
      ((Grammar.seq (.definition .label) Grammar.blockArguments).parse state.cursor region
      input state).2 :=
    nears_bind label fun _ => inherited_forward.bind (forward_parse regions _ _) fun _ =>
      inherited_forward.pure _
  have header : state.Nears (Grammar.blockHeader.parse state.cursor region input state).2 :=
    nears_bind (nears_bind args fun _ =>
      inherited_forward.bind (forward_parse regions _ _) fun _ => inherited_forward.pure _) fun _ =>
        inherited_forward.pure _
  exact @nears_bind _ _ input state state (Grammar.blockHeader.parse state.cursor region)
    _ header fun _ =>
    inherited_forward.bind inherited_forward.cursor fun _ => inherited_forward.pure _

end Operations

/-! ## Going on after an error -/

section Recovery

variable {input : Input} {state after : State}

/-- Skipping to where parsing can go on leaves fewer tokens, unless nothing has been read and
parsing has come to an early end. -/
theorem nears_resynchronize (more : state.cursor.atEnd = false)
    (reaches : state.cursor.Reaches after.cursor)
    (started : state.Nears after ∨ after.halted = false) :
    state.Nears (resynchronize state.cursor input after).2 := by
  rcases started with nears | live
  · exact nears.trans (forward_resynchronize state.cursor input after)
  · have tokens : state.cursor.rest ≠ [] := by
      intro none
      rw [Cursor.atEnd, none] at more
      cases more
    obtain ⟨count, moved⟩ := reaches
    have place : after.cursor.position + after.cursor.rest.length =
        state.cursor.position + state.cursor.rest.length := by
      rw [moved, Cursor.position_add_length_advance]
    exact length_resynchronize_lt live tokens (Cursor.Reaches.length_le ⟨count, moved⟩) place

/-- Skipping to where parsing can go on gets beyond the first token of what has failed. -/
theorem position_resynchronize (more : state.cursor.atEnd = false)
    (reaches : state.cursor.Reaches after.cursor)
    (live : after.halted = false) :
    state.cursor.position < (resynchronize state.cursor input after).2.cursor.position :=
  (nears_resynchronize more reaches (.inr live)).position_lt
    (reaches.trans (forward_resynchronize state.cursor input after))

/-- What has been tried leaves fewer tokens, together with what is skipped if it fails. -/
theorem nears_attempt {parser : Parser α} {next : Option α → Parser β} {rest : Parser β}
    (forward : Forward parser) (starts : Starts parser input state)
    (given : ∀ a, Forward (next (some a))) (resumed : Forward rest)
    (failing : next none = (resynchronize state.cursor >>= fun _ => rest))
    (live : state.halted = false) (more : state.cursor.atEnd = false) :
    state.Nears ((attempt parser >>= next) input state).2 := by
  have behind : ∀ outcome, Forward (next outcome)
    | some a => given a
    | none => failing ▸ inherited_forward.bind (forward_resynchronize _) fun _ => resumed
  rw [attempt_bind_run]
  rcases starts with nears | ⟨failed, stays, halts⟩
  · exact nears.trans (behind _ input _)
  · have skipped : state.Nears (resynchronize state.cursor input (parser input state).2).2 :=
      nears_resynchronize more (forward input state) (.inr (halts.trans live))
    rw [failed, failing]
    exact nears_bind skipped fun _ => resumed

end Recovery

/-! ## The loop through the blocks of a region -/

section Steps

variable {region : RegionKind → Bool → Parser (Region Operation)} {input : Input} {state : State}

theorem blockStep_run (kind : RegionKind) (opening : Span) (progress : Progress) :
    blockStep region kind opening progress input state =
      (if state.halted then fail
      else if state.cursor.atPunct .rightBrace then
        skip >>= fun _ => Pure.pure (.done (progress.blocks, state.cursor.peek.span))
      else if state.cursor.atEnd then reportUnclosed kind opening >>= fun _ => fail
      else if Cursor.startsBlock state.cursor.rest then
        attempt (blockHeader region) >>= afterHeader state.cursor progress
      else
        attempt (operation region) >>= afterOperation kind state.cursor progress :
        Parser (Step Progress (List (Block Operation) × Span))) input state :=
  rfl

/-- Whether the loop through the blocks of a region is left in a state. -/
def State.leavesBlocks (state : State) : Bool :=
  state.halted || state.cursor.atPunct .rightBrace || state.cursor.atEnd

/-- Where the loop through the blocks is left, no step goes on. -/
theorem blockStep_leaves (kind : RegionKind) (opening : Span) (progress : Progress)
    (leaves : state.leavesBlocks = true) :
    ∀ step ∈ (blockStep region kind opening progress input state).1, ¬step.GoesOn := by
  rw [blockStep_run]
  unfold State.leavesBlocks at leaves
  split
  · rintro step ⟨⟩
  · split
    · rintro _ ⟨⟩ ⟨⟩
    · split
      · rintro step ⟨⟩
      · simp_all

/-- Whether the loop through the items of a source unit is left in a state. -/
def State.leavesItems (braced : Bool) (input : Input) (state : State) : Bool :=
  state.halted || input.stops state ||
    (state.cursor.atEnd || braced && state.cursor.atPunct .rightBrace)

/-- Where the loop through the items is left, nothing is read. -/
theorem itemStep_leaves {braced : Bool} (leaves : state.leavesItems braced input = true) :
    (itemStep region braced input state).1 = some (none, false) ∧
      (itemStep region braced input state).2.cursor = state.cursor := by
  rw [itemStep_run, nextItem_run]
  unfold State.leavesItems at leaves
  split
  · exact ⟨rfl, rfl⟩
  · split
    · exact ⟨rfl, rfl⟩
    · split
      · exact ⟨rfl, rfl⟩
      · simp_all

variable (regions : ∀ kind implicitTerminator, Forward (region kind implicitTerminator))

include regions

/-- A step through the blocks of a region leaves fewer tokens unless the loop is left. -/
theorem nears_blockStep (kind : RegionKind) (opening : Span) (progress : Progress)
    (stays : state.leavesBlocks = false) :
    state.Nears (blockStep region kind opening progress input state).2 := by
  have resumed :
      Forward (Pure.pure (Step.again progress) :
        Parser (Step Progress (List (Block Operation) × Span))) :=
    inherited_forward.pure _
  obtain ⟨here, more⟩ := Bool.or_eq_false_iff.1 stays
  obtain ⟨live, inside⟩ := Bool.or_eq_false_iff.1 here
  rw [blockStep_run, live, inside, more]
  change state.Nears ((if Cursor.startsBlock state.cursor.rest then
      attempt (blockHeader region) >>= afterHeader state.cursor progress
    else attempt (operation region) >>= afterOperation kind state.cursor progress :
      Parser (Step Progress (List (Block Operation) × Span))) input state).2
  split
  · rename_i starts
    exact nears_attempt inherited_forward.blockHeader
      (.inl (nears_blockHeader regions input starts))
      (fun _ => inherited_forward.pure _) resumed rfl live more
  · exact nears_attempt (forward_operation regions) (starts_operation regions input state)
      (fun _ => inherited_forward.map _ (inherited_forward.place _ _ _)) resumed rfl live more

/-- A step through the items of a source unit leaves fewer tokens unless the loop is left. -/
theorem nears_itemStep {braced : Bool} (stays : state.leavesItems braced input = false) :
    state.Nears (itemStep region braced input state).2 := by
  have resumed :
      Forward (look (·.halted) >>= fun halted => Pure.pure ((none : Option Operation), !halted)) :=
    inherited_forward.bind inherited_forward.halted fun _ => inherited_forward.pure _
  obtain ⟨going, ends⟩ := Bool.or_eq_false_iff.1 stays
  obtain ⟨live, uncancelled⟩ := Bool.or_eq_false_iff.1 going
  obtain ⟨more, _⟩ := Bool.or_eq_false_iff.1 ends
  have run : itemStep region braced input state =
      (attempt (declaration region) >>= afterItem state.cursor) input state := by
    rw [itemStep_run, live, uncancelled, nextItem_run, ends]
    rfl
  rw [run]
  exact nears_attempt (forward_declaration regions) (starts_declaration regions input state)
    (fun _ => inherited_forward.pure _) resumed rfl live more

/-- A step through the blocks goes on only with fewer tokens. -/
theorem Strides.blockStep (kind : RegionKind) (opening : Span) (progress : Progress) :
    Strides Step.GoesOn (Parser.blockStep region kind opening progress) := by
  intro input state step given goesOn
  cases leaves : state.leavesBlocks with
  | true => exact absurd goesOn (blockStep_leaves kind opening progress leaves step given)
  | false => exact nears_blockStep regions kind opening progress leaves

/-- A step through the items goes on only with fewer tokens. -/
theorem Strides.itemStep (braced : Bool) :
    Strides (·.2 = true) (Parser.itemStep region braced) := by
  intro input state found given goesOn
  cases leaves : state.leavesItems braced input with
  | true =>
    rw [(itemStep_leaves leaves).1] at given
    cases given
    cases goesOn
  | false => exact nears_itemStep regions leaves

end Steps

end Parser

end CirText
