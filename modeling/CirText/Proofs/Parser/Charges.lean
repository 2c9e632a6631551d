import CirText.Proofs.Parser.Truncation
import CirText.Proofs.Parser.Warnings

/-!
# What reports of unknown operations are charged to

An operation with an unknown keyword is reported at its keyword, which is not consumed. If names of
results have been read in front, parsing goes on at the keyword and reports it once more. So a
report is charged to a token that has been consumed: to the keyword itself, or to the equals sign in
front of it. Every run charges its reports, in the order of the text, and no token pays twice.
-/

namespace CirText

/-- The place of an unknown operation that is reported. -/
def Diagnostic.unknownOpcode? (diagnostic : Diagnostic) : Option Span :=
  match diagnostic.kind with
  | .unknownOpcode _ => some diagnostic.span
  | _ => none

theorem Diagnostic.unknownOpcode?_of_isCommon {diagnostic : Diagnostic}
    (common : diagnostic.isCommon = true) :
    diagnostic.unknownOpcode? = none := by
  unfold unknownOpcode?
  split
  · rename_i kind
    rw [isCommon, kind] at common
    cases common
  · rfl

namespace Parser

variable {α β σ : Type}

/-! ## Charges -/

/-- The places of unknown operations that a token can pay for, in front of others. -/
def charge (token : Token) (behind : List Token) : List Span :=
  (if token.isPunct .equal then (behind.head?.map (·.span)).toList else []) ++
    if token.kind = .keyword then [token.span] else []

/-- The places of unknown operations that tokens can pay for, in front of others. -/
def charges : (tokens behind : List Token) → List Span
  | [], _ => []
  | token :: tokens, behind => charge token (tokens ++ behind) ++ charges tokens behind

theorem charges_append (tokens more behind : List Token) :
    charges (tokens ++ more) behind = charges tokens (more ++ behind) ++ charges more behind := by
  induction tokens with
  | nil => rfl
  | cons token tokens ih =>
    rw [List.cons_append, charges, charges, ih, List.append_assoc, List.append_assoc]

/-- The places of the unknown operations that have been reported. -/
def State.unknowns (state : State) : List Span :=
  state.diagnostics.items.toList.filterMap Diagnostic.unknownOpcode?

theorem unknowns_push {diagnostic : Diagnostic} (other : diagnostic.unknownOpcode? = none)
    (state : State) :
    State.unknowns { state with diagnostics := state.diagnostics.push diagnostic } =
      state.unknowns := by
  simp [State.unknowns, Diagnostics.push, other]

theorem unknowns_append {more : List Diagnostic}
    (common : ∀ diagnostic ∈ more, diagnostic.isCommon = true)
    (state : State) :
    State.unknowns { state with diagnostics := state.diagnostics.append more } =
      state.unknowns := by
  have none_ : more.filterMap Diagnostic.unknownOpcode? = [] :=
    List.filterMap_eq_nil_iff.2 fun diagnostic member =>
      Diagnostic.unknownOpcode?_of_isCommon (common diagnostic member)
  simp [State.unknowns, Diagnostics.append, none_]

/-- Whether the reports of unknown operations between two states are charged to the tokens
consumed. -/
def State.Charges (before after : State) : Prop :=
  ∃ taken reported, before.cursor.rest = taken ++ after.cursor.rest ∧
    after.unknowns = before.unknowns ++ reported ∧
      List.Sublist reported (charges taken after.cursor.rest)

namespace State.Charges

variable {before middle after : State}

theorem trans (left : before.Charges middle) (right : middle.Charges after) :
    before.Charges after := by
  obtain ⟨taken, reported, split, unknowns, charged⟩ := left
  obtain ⟨more, others, split', unknowns', charged'⟩ := right
  refine ⟨taken ++ more, reported ++ others, ?_, ?_, ?_⟩
  · rw [split, split', List.append_assoc]
  · rw [unknowns', unknowns, List.append_assoc]
  · rw [charges_append, ← split']
    exact charged.append charged'

/-- Where nothing is reported there is nothing to pay. -/
theorem ofReaches (reaches : before.cursor.Reaches after.cursor)
    (same : after.unknowns = before.unknowns) :
    before.Charges after := by
  obtain ⟨count, moved⟩ := reaches
  refine ⟨before.cursor.rest.take count, [], ?_, by rw [same, List.append_nil], List.nil_sublist _⟩
  rw [moved, Cursor.rest_advance, List.take_append_drop]

theorem refl (state : State) : state.Charges state :=
  .ofReaches (.refl _) rfl

end State.Charges

/-! ## Parsers that charge their reports -/

/-- Whether a parser charges its reports of unknown operations to the tokens that it consumes. -/
def Charged (parser : Parser α) : Prop :=
  ∀ (input : Input) (state : State), state.Charges (parser input state).2

theorem charged_of_forward {parser : Parser α} (forward : Forward parser)
    (same : ∀ input state, (parser input state).2.unknowns = state.unknowns) : Charged parser :=
  fun input state => .ofReaches (forward input state) (same input state)

theorem charged_inScope {parser : Parser α} (inner : Charged parser) :
    Charged (inScope parser) := by
  intro input state
  obtain ⟨taken, reported, split, unknowns, charged⟩ :=
    inner input { state with tracker := state.tracker.push }
  refine ⟨taken, reported, split, Eq.trans (unknowns_append ?_ _) unknowns, charged⟩
  intro diagnostic member
  obtain ⟨verdict, _, rfl⟩ := List.mem_map.1 member
  rfl

theorem charged_define (kind : NameKind) (found : Token) : Charged (define kind found) := by
  refine charged_of_forward (inherited_forward.define kind found) fun input state => ?_
  unfold define Tracker.define
  cases state.tracker.clash? kind found.name with
  | none => rfl
  | some earlier => exact unknowns_push rfl state

theorem unknowns_embed (language : Sublanguage) (adapter : Adapters → Adapter α) (input : Input)
    (state : State) : (embed language adapter input state).2.unknowns = state.unknowns := by
  unfold embed
  cases (adapter input.adapters).read input.source state.cursor with
  | ok found => rfl
  | error error => exact unknowns_push rfl state

theorem charged_checkHalted : Charged checkHalted := by
  refine charged_of_forward forward_checkHalted fun input state => ?_
  unfold checkHalted
  split
  · rfl
  · split
    · exact unknowns_push rfl state
    · rfl

/-- Charging reports of unknown operations is inherited. -/
theorem inherited_charged : Inherited Charged where
  pure a _ state := .refl state
  fail _ state := .refl state
  cursor _ state := .refl state
  halted _ state := .refl state
  construct _ state := .refl state
  scope _ state := .refl state
  skip := charged_of_forward inherited_forward.skip fun _ _ => rfl
  halt := charged_of_forward inherited_forward.halt fun _ _ => rfl
  takeId := charged_of_forward inherited_forward.takeId fun _ _ => rfl
  resynchronize start :=
    charged_of_forward (inherited_forward.resynchronize start) fun _ state => by
    change (if state.halted then _ else _ : State).unknowns = _
    split <;> rfl
  report common := charged_of_forward (inherited_forward.report common) fun _ state =>
    unknowns_push (Diagnostic.unknownOpcode?_of_isCommon common) state
  reportAll common := charged_of_forward (inherited_forward.reportAll common) fun _ state =>
    unknowns_append common state
  reportExpected what := charged_of_forward (inherited_forward.reportExpected what) fun _ state =>
    unknowns_push rfl state
  noteUse kind found := charged_of_forward (inherited_forward.noteUse kind found) fun _ _ => rfl
  define := charged_define
  type := charged_of_forward inherited_forward.type (unknowns_embed _ _)
  attributeOf form := charged_of_forward (inherited_forward.attributeOf form) (unknowns_embed _ _)
  checkHalted := charged_checkHalted
  maxDepth all input state := all input.options.maxDepth input state
  bind := leads_bind State.Charges fun left right => left.trans right
  attempt inner := inner
  naming construct inner input state := inner input { state with construct }
  inScope := charged_inScope
  iterate := leads_iterate State.Charges fun left right => left.trans right

theorem charged_warnDeprecated (opcode : Opcode) (message : String) (span : Span) :
    Charged (warnDeprecated opcode message span) := by
  intro input state
  rw [warnDeprecated_run]
  refine .ofReaches ?_ ?_
  · dsimp only
    split <;> exact .refl _
  · dsimp only
    split
    · exact unknowns_push rfl state
    · rfl

/-! ## Operations -/

/-- Whether nothing has happened between two states but the report of an unknown operation at the
next token, which has not been consumed. -/
structure State.Owes (before after : State) : Prop where
  cursor : after.cursor = before.cursor
  halted : after.halted = before.halted
  unknowns : ∃ keyword rest, before.cursor.rest = keyword :: rest ∧ keyword.kind = .keyword ∧
    after.unknowns = before.unknowns ++ [keyword.span]

/-- Whether a parser charges its reports to the tokens that it consumes, or fails with nothing done
but one report that is still to be paid for. -/
def Owing (parser : Parser α) : Prop :=
  ∀ (input : Input) (state : State), state.Charges (parser input state).2 ∨
    (parser input state).1 = none ∧ state.Owes (parser input state).2

variable {region : RegionKind → Bool → Parser (Region Operation)}

theorem owing_fromKeyword
    (regions : ∀ kind implicitTerminator, Charged (region kind implicitTerminator)) :
    Owing (fromKeyword region) := by
  intro input state
  by_cases isKeyword : state.cursor.peek.kind = .keyword
  · cases known : Opcode.ofKeyword? state.cursor.peek.text with
    | none =>
      have run : fromKeyword region input state =
          (none, { state with
            diagnostics := state.diagnostics.push
              (.error (.unknownOpcode state.cursor.peek.text) state.cursor.peek.span) }) := by
        simp only [fromKeyword, bind_run, look, cursor, isKeyword, known]
        rfl
      rw [run]
      cases rest : state.cursor.rest with
      | nil =>
        rw [Cursor.peek, rest] at isKeyword
        cases isKeyword
      | cons keyword others =>
        have peek : state.cursor.peek = keyword := Cursor.peek_of_cons rest
        rw [peek] at isKeyword ⊢
        refine .inr ⟨rfl, rfl, rfl, keyword, others, rest, isKeyword, ?_⟩
        simp [State.unknowns, Diagnostics.push, Diagnostic.unknownOpcode?, Diagnostic.error]
    | some opcode =>
      rw [fromKeyword_run_of_known isKeyword known]
      exact .inl (inherited_charged.bind inherited_charged.skip
        (fun _ => inherited_charged.afterKeyword charged_warnDeprecated regions _ _) input state)
  · have other : (state.cursor.peek.kind == .keyword) = false := by simpa using isKeyword
    have run : fromKeyword region input state =
        (expected "an operation" : Parser (Nat × Form × Body (Region Operation))) input state := by
      simp only [fromKeyword, bind_run, look, cursor, other]
      rfl
    rw [run]
    exact .inl (inherited_charged.expected _ input state)

theorem punct_some {mark : Punct} {input : Input} {state after : State} {found : Token}
    (run : punct mark input state = (some found, after)) : found.isPunct mark = true ∧
      state.cursor.rest = found :: after.cursor.rest ∧ after.unknowns = state.unknowns := by
  rw [punct, satisfying_run] at run
  split at run
  · rename_i isMark
    cases run
    cases rest : state.cursor.rest with
    | nil =>
      rw [Cursor.peek, rest] at isMark
      cases isMark
    | cons token others =>
      have peek : state.cursor.peek = token := Cursor.peek_of_cons rest
      have next : state.cursor.next.rest = others := Cursor.rest_next_of_cons rest
      exact ⟨isMark, by rw [peek, next], rfl⟩
  · cases run

/-- Names of results end with an equals sign, if there are any. -/
theorem resultNames_some {input : Input} {state after : State} {names : List Token}
    (run : resultNames input state = (some names, after)) :
    names = [] ∧ after = state ∨ ∃ middle equal, state.Charges middle ∧
      equal.isPunct .equal = true ∧
      middle.cursor.rest = equal :: after.cursor.rest ∧ after.unknowns = middle.unknowns := by
  have parts : resultNames input state =
      (if state.cursor.atKind .value then
        separated (token .value "a result name") >>= fun found => punct .equal >>= fun _ =>
          Pure.pure (found.1 :: found.2)
      else Pure.pure [] : Parser (List Token)) input state := rfl
  rw [parts] at run
  split at run
  · have charged :=
      inherited_charged.separated (inherited_charged.token .value "a result name") input state
    rw [bind_run] at run
    cases first : separated (token .value "a result name") input state with
    | mk outcome middle =>
      rw [first] at run charged
      cases outcome with
      | none => cases run
      | some found =>
        dsimp only at run
        rw [bind_run] at run
        cases second : punct .equal input middle with
        | mk outcome last =>
          rw [second] at run
          cases outcome with
          | none => cases run
          | some equal =>
            cases run
            exact .inr ⟨middle, equal, charged, punct_some second⟩
  · cases run
    exact .inl ⟨rfl, rfl⟩

/-- A report at the keyword behind an equals sign is charged to the equals sign. -/
theorem State.Owes.paid {before middle after : State} {equal : Token} (owes : middle.Owes after)
    (isEqual : equal.isPunct .equal = true)
    (rest : before.cursor.rest = equal :: middle.cursor.rest)
    (same : middle.unknowns = before.unknowns) : before.Charges after := by
  obtain ⟨keyword, others, split, _, unknowns⟩ := owes.unknowns
  refine ⟨[equal], [keyword.span], ?_, by rw [unknowns, same], ?_⟩
  · rw [owes.cursor, rest]
    rfl
  · rw [owes.cursor, split, charges, charge, if_pos isEqual, List.append_assoc]
    exact List.singleton_sublist.2 (List.mem_append_left _ (List.mem_singleton_self _))

theorem owing_operation
    (regions : ∀ kind implicitTerminator, Charged (region kind implicitTerminator)) :
    Owing (operation region) := by
  intro input state
  have run : operation region input state =
      (resultNames >>= fun names => attempt (fromKeyword region) >>= fun read =>
        names.mapM (define .value) >>= fun results => endOperation state.cursor results read)
          input state := rfl
  have ended : ∀ results read, Charged (endOperation state.cursor results read) := by
    intro results read
    cases read with
    | none => exact inherited_charged.fail
    | some found =>
      exact inherited_charged.bind inherited_charged.cursor fun _ => inherited_charged.pure _
  have finished : ∀ (names : List Token) (read : Option (Nat × Form × Body (Region Operation))),
      Charged (names.mapM (define .value) >>= fun results =>
        endOperation state.cursor results read) :=
    fun names read => inherited_charged.bind (inherited_charged.mapM_define names) fun _ =>
      ended _ _
  rw [run, bind_run]
  have named := inherited_charged.resultNames input state
  cases names : resultNames input state with
  | mk outcome after =>
    rw [names] at named
    cases outcome with
    | none => exact .inl named
    | some names_ =>
      dsimp only
      rw [attempt_bind_run]
      have owing := owing_fromKeyword regions input after
      cases read : fromKeyword region input after with
      | mk result last =>
        rw [read] at owing
        dsimp only
        have rest := finished names_ result input last
        rcases owing with charged | ⟨isNone, owes⟩
        · exact .inl ((named.trans charged).trans rest)
        · rcases resultNames_some names with ⟨rfl, rfl⟩ | ⟨middle, equal, before,
            isEqual, split, same⟩
          · -- Nothing has been consumed, and the keyword comes next.
            change result = none at isNone
            subst isNone
            exact .inr ⟨rfl, owes⟩
          · exact .inl ((before.trans (owes.paid isEqual split same)).trans rest)

/-! ## Regions -/

/-- A report at the next token is charged to it when it is skipped. -/
theorem State.Owes.skipped {before after : State} (owes : before.Owes after)
    (live : before.halted = false)
    (input : Input) : before.Charges (resynchronize before.cursor input after).2 := by
  obtain ⟨keyword, rest, split, isKeyword, unknowns⟩ := owes.unknowns
  have run : (resynchronize before.cursor input after).2 =
      { after with cursor := before.cursor.next.toBoundary } := by
    change (if after.halted then after else _) = _
    rw [owes.halted, live, owes.cursor]
    simp
  obtain ⟨count, beyond⟩ : ∃ count, before.cursor.next.toBoundary.rest = rest.drop count := by
    refine ⟨before.cursor.next.rest.length - (Cursor.fromBoundary 0 before.cursor.next.rest).length,
      ?_⟩
    rw [Cursor.toBoundary, Cursor.advanceTo, Cursor.rest_advance, Cursor.rest_next, split]
    rfl
  rw [run]
  refine ⟨keyword :: rest.take count, [keyword.span], ?_, unknowns, ?_⟩
  · rw [split, beyond, List.cons_append, List.take_append_drop]
  · rw [charges, charge, if_pos isKeyword]
    exact List.singleton_sublist.2 (by simp)

theorem charged_skipUnit (start : Cursor) (progress : Progress) :
    Charged (skipUnit start progress) :=
  inherited_charged.bind (inherited_charged.resynchronize start) fun _ => inherited_charged.pure _

/-- An operation with an unknown keyword is skipped, so that its report is paid for. -/
theorem charged_blockStep
    (regions : ∀ kind implicitTerminator, Charged (region kind implicitTerminator))
    (kind : RegionKind) (opening : Span) (progress : Progress) :
    Charged (blockStep region kind opening progress) := by
  intro input state
  have run : blockStep region kind opening progress input state =
      (if state.halted then fail
      else if state.cursor.atPunct .rightBrace then
        skip >>= fun _ => Pure.pure (.done (progress.blocks, state.cursor.peek.span))
      else if state.cursor.atEnd then reportUnclosed kind opening >>= fun _ => fail
      else if Cursor.startsBlock state.cursor.rest then
        attempt (blockHeader region) >>= afterHeader state.cursor progress
      else
        attempt (operation region) >>= afterOperation kind state.cursor progress :
        Parser (Step Progress (List (Block Operation) × Span))) input state := rfl
  rw [run]
  split
  · exact inherited_charged.fail input state
  rename_i live
  split
  · exact inherited_charged.bind inherited_charged.skip (fun _ => inherited_charged.pure _)
      input state
  split
  · have unclosed : Charged (reportUnclosed kind opening) :=
      inherited_charged.bind inherited_charged.peek fun _ =>
        inherited_charged.bind (inherited_charged.report rfl) fun _ => inherited_charged.halt
    exact inherited_charged.bind unclosed (fun _ => inherited_charged.fail) input state
  split
  · refine inherited_charged.bind (inherited_charged.attempt inherited_charged.blockHeader)
      ?_ input state
    intro draft
    cases draft with
    | none => exact charged_skipUnit _ _
    | some draft => exact inherited_charged.pure _
  · have owing := owing_operation regions input state
    rw [attempt_bind_run]
    cases read : operation region input state with
    | mk outcome after =>
      rw [read] at owing
      rcases owing with charged | ⟨isNone, owes⟩
      · refine charged.trans ?_
        cases outcome with
        | none => exact charged_skipUnit _ _ input after
        | some op => exact inherited_charged.map _ (inherited_charged.place kind
            progress op) input after
      · change outcome = none at isNone
        subst isNone
        exact owes.skipped (Bool.eq_false_iff.2 live) input

/-! ## Source units -/

theorem owing_declaration
    (regions : ∀ kind implicitTerminator, Charged (region kind implicitTerminator)) :
    Owing (declaration region) := by
  intro input state
  have run : declaration region input state =
      (if startsDeclaration state.cursor.peek then operation region
      else expected "`cir.func` or `cir.global`" : Parser Operation) input state := rfl
  rw [run]
  split
  · exact owing_operation regions input state
  · exact .inl (inherited_charged.expected _ input state)

theorem charged_itemStep
    (regions : ∀ kind implicitTerminator, Charged (region kind implicitTerminator))
    (braced : Bool) : Charged (itemStep region braced) := by
  intro input state
  rw [itemStep_run]
  split
  · exact .refl state
  rename_i live
  split
  · exact .ofReaches (.refl _) (unknowns_push rfl state)
  rw [nextItem_run]
  split
  · exact .refl state
  have resumed : ∀ start item, Charged (afterItem start item) := by
    intro start item
    cases item with
    | none =>
      exact inherited_charged.bind (inherited_charged.resynchronize start) fun _ =>
        inherited_charged.bind inherited_charged.halted fun _ => inherited_charged.pure _
    | some op => exact inherited_charged.pure _
  rcases owing_declaration regions input state with charged | ⟨isNone, owes⟩
  · exact charged.trans (resumed _ _ input _)
  · rw [isNone]
    exact owes.skipped (Bool.eq_false_iff.2 live) input

theorem charged_sourceUnit (levels : Nat) : Charged (sourceUnit (regionWithin levels)) :=
  inherited_charged.sourceUnit charged_blockStep charged_itemStep levels

end Parser

end CirText
