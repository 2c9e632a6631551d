import CirText.Proofs.Parser.Quiet
import CirText.Proofs.Parser.Warnings

/-!
# The context of a parser

A parser works in a context: the scopes that are open, the construct that messages name, and the
place in the tokens. Parsers of operations and regions change it while they run, and they put it
back before they end, also when they fail somewhere in between and when parsing comes to an early
end.

Messages name the construct of the context, so the ones of an operation name it even behind a region
in which something went wrong. The depth of regions, which the options limit, is the number of open
scopes: `regionByDepth` looks it up there, and reads source units as `regionWithin` does.
-/

namespace CirText

/-! ## Open scopes -/

namespace Tracker

theorem openScopes_pop {tracker : Tracker} {id : ScopeId} {around : List ScopeId}
    (inside : tracker.openScopes = id :: around) (isInner : around ≠ []) :
    tracker.pop.1.openScopes = around := by
  obtain ⟨-, outer⟩ := List.cons_eq_cons.1 inside
  cases frames : tracker.outer with
  | nil =>
    rw [frames] at outer
    exact absurd outer.symm isInner
  | cons parent others =>
    rw [← outer, frames]
    simp [pop, frames, openScopes]

theorem openScopes_define (tracker : Tracker) (kind : NameKind) (name : String) (span : Span) :
    (tracker.define kind name span).2.2.openScopes = tracker.openScopes := by
  unfold define
  cases tracker.clash? kind name <;> rfl

theorem openScopes_refer (tracker : Tracker) (kind : NameKind) (name : String) (span : Span) :
    (tracker.refer kind name span).2.openScopes = tracker.openScopes := by
  cases kind <;> rfl

end Tracker

/-- Whether a diagnostic, if it says that a construct is malformed, names the given one or its
modifiers. -/
def Diagnostic.Names (construct : String) (diagnostic : Diagnostic) : Prop :=
  ∀ named expected found, diagnostic.kind = .malformed named expected found →
    named = construct ∨ named = construct ++ " modifiers"

namespace Parser

variable {α β σ : Type}

/-! ## Contexts that are put back -/

/-- Whether the context of an earlier state is in force again, perhaps at a later place. -/
structure State.Resumes (before after : State) : Prop where
  /-- The same scopes are open. -/
  openScopes : after.tracker.openScopes = before.tracker.openScopes
  /-- Messages name the same construct. -/
  construct : after.construct = before.construct
  /-- No token is taken back. -/
  position : before.cursor.position ≤ after.cursor.position

namespace State.Resumes

variable {first before middle after last : State}

theorem refl (state : State) : state.Resumes state :=
  ⟨rfl, rfl, Nat.le_refl _⟩

theorem trans (left : first.Resumes middle) (right : middle.Resumes last) : first.Resumes last where
  openScopes := right.openScopes.trans left.openScopes
  construct := right.construct.trans left.construct
  position := Nat.le_trans left.position right.position

end State.Resumes

/-- A parser that only goes forward, does not open or close scopes and names no other construct. -/
theorem resumes_of_forward {parser : Parser α} (forward : Forward parser)
    (scopes : ∀ input state, (parser input state).2.tracker.openScopes = state.tracker.openScopes)
    (construct : ∀ input state, (parser input state).2.construct = state.construct) :
    Leads State.Resumes parser :=
  fun input state => ⟨scopes input state, construct input state, (forward input state).position_le⟩

theorem resumes_define (kind : NameKind) (found : Token) :
    Leads State.Resumes (define kind found) :=
  resumes_of_forward (inherited_forward.define kind found)
    (fun _ state => Tracker.openScopes_define state.tracker kind found.name found.span) fun _ _ =>
      rfl

theorem resumes_noteUse (kind : NameKind) (found : Token) :
    Leads State.Resumes (noteUse kind found) :=
  resumes_of_forward (inherited_forward.noteUse kind found)
    (fun _ state => Tracker.openScopes_refer state.tracker kind found.name found.span) fun _ _ =>
      rfl

theorem resumes_embed (language : Sublanguage) (adapter : Adapters → Adapter α) :
    Leads State.Resumes (embed language adapter) := by
  refine resumes_of_forward (forward_embed language adapter) (fun input state => ?_)
    fun input state => ?_
  all_goals
    unfold embed
    cases (adapter input.adapters).read input.source state.cursor <;> rfl

theorem resumes_checkHalted : Leads State.Resumes checkHalted := by
  refine resumes_of_forward forward_checkHalted (fun input state => ?_) fun input state => ?_
  all_goals
    unfold checkHalted
    split
    · rfl
    · split <;> rfl

theorem resumes_resynchronize (start : Cursor) : Leads State.Resumes (resynchronize start) := by
  refine resumes_of_forward (forward_resynchronize start) (fun _ state => ?_) fun _ state => ?_
  · change (if state.halted then _ else _ : State).tracker.openScopes = _
    split <;> rfl
  · change (if state.halted then _ else _ : State).construct = _
    split <;> rfl

/-- The scope that a part has to itself is closed when the part ends, however it ends. -/
theorem resumes_inScope {parser : Parser α} (inner : Leads State.Resumes parser) :
    Leads State.Resumes (inScope parser) := by
  intro input state
  have ran := inner input { state with tracker := state.tracker.push }
  exact ⟨Tracker.openScopes_pop ran.openScopes (List.cons_ne_nil _ _), ran.construct, ran.position⟩

/-- The construct around is named again when a part ends, however it ends. -/
theorem resumes_naming {parser : Parser α} (construct : String)
    (inner : Leads State.Resumes parser) :
    Leads State.Resumes (naming construct parser) := by
  intro input state
  have ran := inner input { state with construct }
  exact ⟨ran.openScopes, rfl, ran.position⟩

/-- Putting the context back is inherited. -/
theorem inherited_resumes : Inherited (Leads State.Resumes) where
  pure _ _ state := .refl state
  fail _ state := .refl state
  cursor _ state := .refl state
  halted _ state := .refl state
  construct _ state := .refl state
  scope _ state := .refl state
  skip := resumes_of_forward inherited_forward.skip (fun _ _ => rfl) fun _ _ => rfl
  halt := resumes_of_forward inherited_forward.halt (fun _ _ => rfl) fun _ _ => rfl
  takeId := resumes_of_forward inherited_forward.takeId (fun _ _ => rfl) fun _ _ => rfl
  resynchronize := resumes_resynchronize
  report common :=
    resumes_of_forward (inherited_forward.report common) (fun _ _ => rfl) fun _ _ => rfl
  reportAll common :=
    resumes_of_forward (inherited_forward.reportAll common) (fun _ _ => rfl) fun _ _ => rfl
  reportExpected what :=
    resumes_of_forward (inherited_forward.reportExpected what) (fun _ _ => rfl) fun _ _ => rfl
  noteUse := resumes_noteUse
  define := resumes_define
  type := resumes_embed _ _
  attributeOf _ := resumes_embed _ _
  checkHalted := resumes_checkHalted
  maxDepth all input state := all input.options.maxDepth input state
  bind := leads_bind State.Resumes fun left right => left.trans right
  attempt inner := inner
  naming := resumes_naming
  inScope := resumes_inScope
  iterate := leads_iterate State.Resumes fun left right => left.trans right

theorem resumes_warnDeprecated (opcode : Opcode) (message : String) (span : Span) :
    Leads State.Resumes (warnDeprecated opcode message span) := by
  intro input state
  rw [warnDeprecated_run]
  dsimp only
  split
  · exact ⟨rfl, rfl, Nat.le_refl _⟩
  · exact .refl state

theorem resumes_unknown (keyword : String) (span : Span) :
    Leads State.Resumes (report (.error (.unknownOpcode keyword) span)) :=
  fun _ _ => ⟨rfl, rfl, Nat.le_refl _⟩

variable {region : RegionKind → Bool → Parser (Region Operation)}

/-- An operation puts the context back if its regions do. -/
theorem resumes_operation
    (regions : ∀ kind implicitTerminator, Leads State.Resumes (region kind implicitTerminator)) :
    Leads State.Resumes (operation region) :=
  inherited_resumes.operation resumes_warnDeprecated resumes_unknown regions

theorem resumes_regionWithin (levels : Nat) (kind : RegionKind) (implicitTerminator : Bool) :
    Leads State.Resumes (regionWithin levels kind implicitTerminator) :=
  inherited_resumes.regionWithin
    (fun regions => inherited_resumes.blockStep resumes_warnDeprecated resumes_unknown regions)
    levels kind implicitTerminator

theorem resumes_sourceUnit (levels : Nat) :
    Leads State.Resumes (sourceUnit (regionWithin levels)) :=
  inherited_resumes.sourceUnit
    (fun regions => inherited_resumes.blockStep resumes_warnDeprecated resumes_unknown regions)
    (fun regions => inherited_resumes.itemStep resumes_warnDeprecated resumes_unknown regions)
    levels

/-! ## The construct that messages name -/

/-- Whether all diagnostics that are added between two states satisfy a condition. -/
def State.Adds (allowed : Diagnostic → Prop) (before after : State) : Prop :=
  ∃ more, after.diagnostics.items.toList = before.diagnostics.items.toList ++ more ∧
    ∀ diagnostic ∈ more, allowed diagnostic

/-- Whether the diagnostics that are added between two states name the construct of the context,
apart from others, and the same construct is named again afterwards. -/
structure State.Speaks (others : Diagnostic → Prop) (before after : State) : Prop where
  construct : after.construct = before.construct
  added : before.Adds (fun diagnostic => diagnostic.Names before.construct ∨
    others diagnostic) after

namespace State.Speaks

variable {others : Diagnostic → Prop} {first before middle after last : State}

/-- No diagnostics are added. -/
theorem silent (construct : after.construct = before.construct)
    (same : after.diagnostics = before.diagnostics) :
    before.Speaks others after :=
  ⟨construct, [], by rw [same, List.append_nil], by simp⟩

theorem one {diagnostic : Diagnostic} (construct : after.construct = before.construct)
    (pushed : after.diagnostics = before.diagnostics.push diagnostic)
    (names : diagnostic.Names before.construct ∨ others diagnostic) :
    before.Speaks others after := by
  refine ⟨construct, [diagnostic], by rw [pushed, Diagnostics.push, Array.toList_push], ?_⟩
  intro added member
  rw [List.mem_singleton.1 member]
  exact names

theorem many {more : List Diagnostic} (construct : after.construct = before.construct)
    (appended : after.diagnostics = before.diagnostics.append more)
    (names : ∀ diagnostic ∈ more, diagnostic.Names before.construct) : before.Speaks others after :=
  ⟨construct, more, by
    simp [appended, Diagnostics.append], fun diagnostic member => .inl (names diagnostic member)⟩

theorem trans (left : first.Speaks others middle) (right : middle.Speaks others last) :
    first.Speaks others last := by
  obtain ⟨more, before, named⟩ := left.added
  obtain ⟨further, after, alsoNamed⟩ := right.added
  refine ⟨right.construct.trans left.construct, more ++ further, ?_, ?_⟩
  · rw [after, before, List.append_assoc]
  · intro diagnostic member
    rcases List.mem_append.1 member with early | late
    · exact named diagnostic early
    · exact left.construct ▸ alsoNamed diagnostic late

theorem mono {wider : Diagnostic → Prop} (speaks : before.Speaks others after)
    (all : ∀ diagnostic, others diagnostic → wider diagnostic) : before.Speaks wider after := by
  obtain ⟨more, appended, named⟩ := speaks.added
  exact ⟨speaks.construct, more, appended, fun diagnostic member =>
    (named diagnostic member).imp_right (all _)⟩

end State.Speaks

section Speaking

variable {others : Diagnostic → Prop}

theorem speaks_bind {parser : Parser α} {next : α → Parser β}
    (first : Leads (State.Speaks others) parser)
    (second : ∀ a, Leads (State.Speaks others) (next a)) :
    Leads (State.Speaks others) (parser >>= next) :=
  leads_bind (State.Speaks others) (fun left right => left.trans right) first second

/-- A report that does not say that a construct is malformed. -/
theorem speaks_report {diagnostic : Diagnostic} (other : ∀ construct, diagnostic.Names construct) :
    Leads (State.Speaks others) (report diagnostic) :=
  fun _ _ => .one rfl rfl (.inl (other _))

theorem speaks_define (kind : NameKind) (found : Token) :
    Leads (State.Speaks others) (define kind found) := by
  intro input state
  unfold define Tracker.define
  cases state.tracker.clash? kind found.name with
  | none => exact .silent rfl rfl
  | some earlier => exact .one rfl rfl (.inl nofun)

theorem speaks_embed (language : Sublanguage) (adapter : Adapters → Adapter α) :
    Leads (State.Speaks others) (embed language adapter) := by
  intro input state
  unfold embed
  cases (adapter input.adapters).read input.source state.cursor with
  | ok found => exact .silent rfl rfl
  | error error => exact .one rfl rfl (.inl nofun)

theorem speaks_inScope {parser : Parser α} (inner : Leads (State.Speaks others) parser) :
    Leads (State.Speaks others) (inScope parser) := by
  intro input state
  have ran := inner input { state with tracker := state.tracker.push }
  have before : state.Speaks others (parser input { state with tracker := state.tracker.push }).2 :=
    ⟨ran.construct, ran.added⟩
  refine before.trans (.many rfl rfl ?_)
  intro diagnostic member
  obtain ⟨verdict, _, rfl⟩ := List.mem_map.1 member
  nofun

/-- Parsers name the construct of the context as long as they do not name another one. -/
theorem inherited_speaks : InheritedInside (Leads (State.Speaks others)) where
  pure _ _ _ := .silent rfl rfl
  fail _ _ := .silent rfl rfl
  cursor _ _ := .silent rfl rfl
  skip _ _ := .silent rfl rfl
  reportExpected what _ state := .one rfl rfl <| .inl fun named expected found malformed => by
    cases malformed
    exact .inl rfl
  reportAmbiguous opcode what found span := speaks_report nofun
  reportRepeated rule earlier span _ state :=
    .one rfl rfl <| .inl fun named expected found malformed => by
    cases malformed
    exact .inr rfl
  noteUse _ _ _ _ := .silent rfl rfl
  define := speaks_define
  type := speaks_embed _ _
  attributeOf _ := speaks_embed _ _
  bind := speaks_bind
  inScope := speaks_inScope
  iterate := leads_iterate (State.Speaks others) fun left right => left.trans right

theorem speaks_warnDeprecated (opcode : Opcode) (message : String) (span : Span) :
    Leads (State.Speaks others) (warnDeprecated opcode message span) := by
  intro input state
  rw [warnDeprecated_run]
  dsimp only
  split
  · exact .one rfl rfl (.inl nofun)
  · exact .silent rfl rfl

theorem speaks_checkHalted : Leads (State.Speaks others) checkHalted := by
  intro input state
  unfold checkHalted
  split
  · exact .silent rfl rfl
  · split
    · exact .one rfl rfl (.inl nofun)
    · exact .silent rfl rfl

theorem speaks_resynchronize (start : Cursor) :
    Leads (State.Speaks others) (resynchronize start) := by
  intro input state
  change State.Speaks others state (if state.halted then _ else _)
  split
  · exact .silent rfl rfl
  · exact .silent rfl rfl

/-! ## Operations, regions and source units -/

variable {region : RegionKind → Bool → Parser (Region Operation)}

/-- Behind its keyword an operation is the construct that messages name. -/
theorem afterKeyword_names
    (regions : ∀ kind implicitTerminator,
      Leads (State.Speaks others) (region kind implicitTerminator))
    (start : Cursor) (opcode : Opcode) :
    Leads (State.Adds fun diagnostic => diagnostic.Names opcode.keyword ∨ others diagnostic)
      (afterKeyword region start opcode) := by
  intro input state
  have inner : Leads (State.Speaks others) (do
      let form ← chooseForm opcode
      let body ← (Grammar.body opcode form).parse start region
      pure (state.nextId, body.form form, body)) :=
    inherited_speaks.bind (inherited_speaks.chooseForm opcode) fun form =>
      inherited_speaks.bind (inherited_speaks.grammar start _ fun _ =>
        ⟨speaks_warnDeprecated, regions⟩) fun body =>
        inherited_speaks.pure _
  exact (inner input { state with nextId := state.nextId + 1, construct := opcode.keyword }).added

/-- Around its keyword an operation has nothing to say of its own but what was expected instead. -/
theorem speaks_operation (keyword : Leads (State.Speaks others) (fromKeyword region)) :
    Leads (State.Speaks others) (operation region) := by
  have ended : ∀ start results read,
      Leads (State.Speaks others) (endOperation start results read) := by
    intro start results read
    cases read with
    | none => exact inherited_speaks.fail
    | some found =>
      exact inherited_speaks.bind inherited_speaks.cursor fun _ => inherited_speaks.pure _
  refine inherited_speaks.bind inherited_speaks.cursor fun start => ?_
  refine inherited_speaks.bind inherited_speaks.resultNames fun names => ?_
  have tried : Leads (State.Speaks others) (attempt (fromKeyword region)) := keyword
  refine inherited_speaks.bind tried fun read => ?_
  exact inherited_speaks.bind (inherited_speaks.mapM_define names) fun results =>
    ended start results read

theorem speaks_place (kind : RegionKind) (progress : Progress) (op : Operation) :
    Leads (State.Speaks fun diagnostic => diagnostic.Names kind.describe ∨ others diagnostic)
      (place kind progress op) := by
  have terminator : Leads (State.Speaks fun diagnostic =>
      diagnostic.Names kind.describe ∨ others diagnostic) (do
        if op.isTerminator && !kind.accepts op then
          reportTerminator kind op
        pure (progress.push op)) :=
    inherited_speaks.either (inherited_speaks.bind (speaks_report fun _ _ _ _ => nofun) fun _ =>
      inherited_speaks.pure _) (inherited_speaks.pure _)
  have after : Leads (State.Speaks fun diagnostic => diagnostic.Names kind.describe ∨
      others diagnostic) (reportAfterTerminator kind op) := by
    refine fun input state => .one rfl rfl (.inr (.inl fun named expected found malformed => ?_))
    cases malformed
    exact .inl rfl
  exact inherited_speaks.either (inherited_speaks.bind after fun _ => terminator) terminator

theorem speaks_blockStep (operations : Leads (State.Speaks others) (operation region))
    (kind : RegionKind) (opening : Span) (progress : Progress) :
    Leads (State.Speaks fun diagnostic => diagnostic.Names kind.describe ∨ others diagnostic)
      (blockStep region kind opening progress) := by
  have skipped : ∀ start, Leads (State.Speaks fun diagnostic => diagnostic.Names kind.describe ∨
      others diagnostic) (skipUnit start progress) :=
    fun start => inherited_speaks.bind (speaks_resynchronize start) fun _ => inherited_speaks.pure _
  have halted : Leads (State.Speaks fun diagnostic => diagnostic.Names kind.describe ∨
      others diagnostic) (look (·.halted)) :=
    fun _ _ => .silent rfl rfl
  rw [blockStep_eq]
  refine inherited_speaks.bind inherited_speaks.cursor fun start =>
    inherited_speaks.bind halted fun _ => ?_
  refine inherited_speaks.either inherited_speaks.fail (inherited_speaks.either ?_ ?_)
  · exact inherited_speaks.bind inherited_speaks.skip fun _ => inherited_speaks.pure _
  refine inherited_speaks.either ?_ (inherited_speaks.either ?_ ?_)
  · have unclosed : Leads (State.Speaks fun diagnostic => diagnostic.Names kind.describe ∨
        others diagnostic) (reportUnclosed kind opening) :=
      inherited_speaks.bind inherited_speaks.peek fun _ =>
        inherited_speaks.bind (speaks_report nofun) fun _ _ _ => .silent rfl rfl
    exact inherited_speaks.bind unclosed fun _ => inherited_speaks.fail
  · refine speaks_bind inherited_speaks.blockHeader fun draft => ?_
    cases draft with
    | none => exact skipped start
    | some draft => exact inherited_speaks.pure _
  · have tried : Leads (State.Speaks fun diagnostic => diagnostic.Names kind.describe ∨
        others diagnostic) (attempt (operation region)) :=
      fun input state => (operations input state).mono fun _ => .inr
    refine speaks_bind tried fun read => ?_
    cases read with
    | none => exact skipped start
    | some op => exact inherited_speaks.map _ (speaks_place kind progress op)

/-- A region that is too deep says so. -/
theorem speaks_regionWithin_zero (kind : RegionKind) (implicitTerminator : Bool) :
    Leads (State.Speaks others) (regionWithin 0 kind implicitTerminator) := by
  have deep : Leads (State.Speaks others) tooDeep :=
    speaks_bind (fun _ _ => .silent rfl rfl) fun _ =>
      speaks_bind (inherited_speaks.reportExpected _) fun _ =>
        speaks_bind (fun _ _ => .silent rfl rfl) fun _ => inherited_speaks.fail
  exact speaks_bind speaks_checkHalted fun _ => inherited_speaks.either inherited_speaks.fail deep

/-- A region around others. -/
def regionAround (region : RegionKind → Bool → Parser (Region Operation)) (kind : RegionKind)
    (implicitTerminator : Bool) : Parser (Region Operation) := do
  if ← checkHalted then
    fail
  else
    let opening ← punct .leftBrace
    blocks region kind implicitTerminator opening.span

theorem regionWithin_succ (levels : Nat) :
    regionWithin (levels + 1) = regionAround (regionWithin levels) :=
  rfl

/-- Around its operations a region names the construct around it, or is itself what is malformed. -/
theorem speaks_regionAround (operations : Leads (State.Speaks others) (operation region))
    (kind : RegionKind) (implicitTerminator : Bool) :
    Leads (State.Speaks fun diagnostic => diagnostic.Names kind.describe ∨ others diagnostic)
      (regionAround region kind implicitTerminator) := by
  have read : ∀ opening, Leads (State.Speaks fun diagnostic => diagnostic.Names kind.describe ∨
      others diagnostic) (blocks region kind implicitTerminator opening) := by
    intro opening
    have scope : Leads (State.Speaks fun diagnostic => diagnostic.Names kind.describe ∨
        others diagnostic) (look (·.tracker.scope)) :=
      fun _ _ => .silent rfl rfl
    refine speaks_bind scope fun _ => speaks_bind inherited_speaks.peek fun _ => ?_
    refine speaks_bind (inherited_speaks.iterate (speaks_blockStep operations kind opening) _)
      fun found => ?_
    refine speaks_bind (inherited_speaks.either (inherited_speaks.pure _) fun _ _ => ?_) fun _ =>
      inherited_speaks.pure _
    refine .many rfl rfl fun diagnostic member => ?_
    obtain ⟨block, _, rfl⟩ := List.mem_map.1 member
    nofun
  refine speaks_bind speaks_checkHalted fun _ => inherited_speaks.either inherited_speaks.fail ?_
  exact speaks_bind (inherited_speaks.punct _) fun opening => read opening.span

theorem speaks_itemStep (operations : Leads (State.Speaks others) (operation region))
    (braced : Bool) : Leads (State.Speaks others) (itemStep region braced) := by
  have declared : Leads (State.Speaks others) (declaration region) :=
    speaks_bind inherited_speaks.peek fun _ =>
      inherited_speaks.either operations (inherited_speaks.expected _)
  have tried : Leads (State.Speaks others) (attempt (declaration region)) := declared
  refine speaks_bind speaks_checkHalted fun halted =>
    speaks_bind inherited_speaks.cursor fun start => ?_
  refine inherited_speaks.either (inherited_speaks.pure _) (speaks_bind tried fun item => ?_)
  cases item with
  | none =>
    exact speaks_bind (speaks_resynchronize start) fun _ =>
      speaks_bind (fun _ _ => .silent rfl rfl) fun _ => inherited_speaks.pure _
  | some op => exact inherited_speaks.pure _

theorem speaks_restOfHeader (start : Cursor) (name : Option Lexeme) :
    Leads (State.Speaks others) (restOfHeader start name) := by
  have ended : ∀ attributes, Leads (State.Speaks others) (do
      pure ({ name, attributes, span := start.spanBetween (← cursor) } : ModuleHeader)) :=
    fun _ => speaks_bind inherited_speaks.cursor fun _ => inherited_speaks.pure _
  have attributes : Leads (State.Speaks others) (attempt (attributeOf .dictionary)) :=
    inherited_speaks.attributeOf .dictionary
  refine speaks_bind inherited_speaks.cursor fun _ => inherited_speaks.either ?_ ?_
  · exact speaks_bind inherited_speaks.skip fun _ => speaks_bind attributes fun _ => ended _
  · exact speaks_bind (inherited_speaks.pure _) fun _ => ended _

theorem speaks_moduleEnd (opening : Token) : Leads (State.Speaks others) (moduleEnd opening) := by
  refine speaks_bind inherited_speaks.cursor fun _ =>
    inherited_speaks.either ?_ (speaks_report nofun)
  refine speaks_bind inherited_speaks.skip fun _ => speaks_bind inherited_speaks.cursor fun _ => ?_
  exact inherited_speaks.either (inherited_speaks.reportExpected _) (inherited_speaks.pure _)

/-- Around its items a source unit names the construct that it starts with, which is the module. -/
theorem speaks_sourceUnit (operations : Leads (State.Speaks others) (operation region)) :
    Leads (State.Speaks others) (sourceUnit region) := by
  have items : ∀ braced, Leads (State.Speaks others) (items region braced) := fun braced =>
    inherited_speaks.collect (speaks_itemStep operations braced)
  have opened : Leads (State.Speaks others) (attempt (punct .leftBrace)) :=
    inherited_speaks.punct .leftBrace
  refine speaks_bind inherited_speaks.cursor fun start => inherited_speaks.either ?_ ?_
  · refine speaks_bind inherited_speaks.skip fun _ => speaks_bind ?_ fun header => ?_
    · rw [unitHeader_eq]
      refine speaks_bind inherited_speaks.cursor fun _ =>
        inherited_speaks.either ?_ (speaks_restOfHeader _ _)
      exact speaks_bind inherited_speaks.skip fun _ => speaks_restOfHeader _ _
    · refine speaks_bind opened fun opening => speaks_bind (items _) fun ops => ?_
      cases opening with
      | none => exact inherited_speaks.pure _
      | some brace =>
        refine speaks_bind (fun _ _ => .silent rfl rfl) fun halted =>
          inherited_speaks.either ?_ (inherited_speaks.pure _)
        exact speaks_bind (speaks_moduleEnd brace) fun _ => inherited_speaks.pure _
  · exact speaks_bind (items _) fun _ => inherited_speaks.pure _

end Speaking

end Parser

end CirText
