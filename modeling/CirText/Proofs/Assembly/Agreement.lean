import CirText.Proofs.Assembly.Cached
import CirText.Proofs.Parser.Headway

/-!
# Caches make no difference

A parser with caches comes to an end and gives what the parser without them gives. Since parsing
only goes forward, and since what could be read is behind the cursor from then on, nothing is ever
found in a cache. And since no loop goes on without having read a token, no loop needs to be kept
from running forever.
-/

namespace CirText

open CirText.Parser

variable {α β σ κ : Type}

/-- Whether everything in the caches starts before a place. -/
structure Caches.Behind (caches : Caches) (bound : Nat) : Prop where
  types : ∀ entry ∈ caches.types, entry.1 < bound
  attributes : ∀ entry ∈ caches.attributes, entry.1.1 < bound

theorem Caches.Behind.mono {caches : Caches} {bound further : Nat} (behind : caches.Behind bound)
    (le : bound ≤ further) : caches.Behind further where
  types entry member := Nat.lt_of_lt_of_le (behind.types entry member) le
  attributes entry member := Nat.lt_of_lt_of_le (behind.attributes entry member) le

/-- No type is found at the next token. -/
theorem Caches.Behind.lookup_types {caches : Caches} {place : Nat} (behind : caches.Behind place) :
    caches.types.lookup place = none := by
  rw [List.lookup_eq_none_iff]
  intro entry member
  exact bne_iff_ne.2 (Nat.ne_of_gt (behind.types entry member))

/-- No attribute is found at the next token. -/
theorem Caches.Behind.lookup_attributes {caches : Caches} {place : Nat}
    (behind : caches.Behind place)
    (form : AttributeForm) : caches.attributes.lookup (place, form) = none := by
  rw [List.lookup_eq_none_iff]
  intro entry member
  refine bne_iff_ne.2 fun same => ?_
  have earlier := behind.attributes entry member
  rw [← same] at earlier
  exact Nat.lt_irrefl _ earlier

theorem Caches.Behind.add_type {caches : Caches} {place bound stop : Nat} {found : TypeText}
    (behind : caches.Behind bound) (before : place < bound) :
    Caches.Behind { caches with types := (place, found, stop) :: caches.types } bound where
  types := List.forall_mem_cons.2 ⟨before, behind.types⟩
  attributes := behind.attributes

theorem Caches.Behind.add_attribute {caches : Caches} {place bound stop : Nat}
    {form : AttributeForm} {found : AttributeText} (behind : caches.Behind bound)
    (before : place < bound) :
    Caches.Behind { caches with attributes := ((place, form), found, stop) :: caches.attributes }
      bound where
  types := behind.types
  attributes := List.forall_mem_cons.2 ⟨before, behind.attributes⟩

/-- Whether a parser with caches comes to an end with the outcome of a parser without them, if that
only goes forward and if everything in the caches starts behind. -/
structure Agrees (parser : Parser α) (cached : Cached α) : Prop where
  forward : Forward parser
  runs (input : Input) (state : State) {caches : Caches}
    (behind : caches.Behind state.cursor.position) :
    ∃ after : Caches, after.Behind (parser input state).2.cursor.position ∧
      cached input (state, caches) =
      Part.some ((parser input state).1, (parser input state).2, after)

namespace Agrees

variable {parser : Parser α} {cached : Cached α}

/-! ## Parts and ways to put them together -/

theorem part (forward : Forward parser) : Agrees parser (Assembles.part parser) where
  forward := forward
  runs input state caches behind := ⟨caches, behind.mono (forward input state).position_le, rfl⟩

theorem pure (a : α) : Agrees (Pure.pure a) (Pure.pure a) where
  forward := inherited_forward.pure a
  runs _ _ caches behind := ⟨caches, behind, rfl⟩

theorem bind {next : α → Parser β} {nextCached : α → Cached β} (first : Agrees parser cached)
    (second : ∀ a, Agrees (next a) (nextCached a)) :
    Agrees (parser >>= next) (cached >>= nextCached) where
  forward := inherited_forward.bind first.forward fun a => (second a).forward
  runs input state caches behind := by
    obtain ⟨middle, behindMiddle, run⟩ := first.runs input state behind
    rw [bind_run]
    cases outcome : parser input state with
    | mk result later =>
      rw [outcome] at behindMiddle run
      cases result with
      | none => exact ⟨middle, behindMiddle, Cached.bind_of_none run⟩
      | some a =>
        obtain ⟨last, behindLast, ended⟩ := (second a).runs input later behindMiddle
        exact ⟨last, behindLast, (Cached.bind_of_some run).trans ended⟩

theorem map (f : α → β) (inner : Agrees parser cached) : Agrees (f <$> parser) (f <$> cached) :=
  inner.bind fun a => pure (f a)

theorem ite {condition : Prop} [Decidable condition] {yes no : Parser α}
    {yesCached noCached : Cached α}
    (first : Agrees yes yesCached) (second : Agrees no noCached) :
    Agrees (if condition then yes else no) (if condition then yesCached else noCached) := by
  split
  · exact first
  · exact second

theorem attempt (inner : Agrees parser cached) :
    Agrees (Parser.attempt parser) (Assembles.attempt cached) where
  forward := inherited_forward.attempt inner.forward
  runs input state caches behind := by
    obtain ⟨after, behindAfter, run⟩ := inner.runs input state behind
    refine ⟨after, behindAfter, ?_⟩
    change (cached input (state, caches)).map _ = _
    rw [run, Part.map_some]
    rfl

theorem naming (construct : String) (inner : Agrees parser cached) :
    Agrees (Parser.naming construct parser) (Assembles.naming construct cached) where
  forward := inherited_forward.naming construct inner.forward
  runs input state caches behind := by
    obtain ⟨after, behindAfter, run⟩ := inner.runs input { state with construct } behind
    refine ⟨after, behindAfter, ?_⟩
    change (cached input ({ state with construct }, caches)).map _ = _
    rw [run, Part.map_some]
    rfl

theorem inScope (inner : Agrees parser cached) :
    Agrees (Parser.inScope parser) (Assembles.inScope cached) where
  forward := inherited_forward.inScope inner.forward
  runs input state caches behind := by
    obtain ⟨after, behindAfter, run⟩ :=
      inner.runs input { state with tracker := state.tracker.push } behind
    refine ⟨after, behindAfter, ?_⟩
    change (cached input ({ state with tracker := state.tracker.push }, caches)).map _ = _
    rw [run, Part.map_some]
    rfl

/-- A loop of which the steps stride comes to an end. -/
theorem iterate {step : σ → Parser (Step σ β)} {stepCached : σ → Cached (Step σ β)}
    (steps : ∀ accumulated, Agrees (step accumulated) (stepCached accumulated))
    (strides : ∀ accumulated, Strides Step.GoesOn (step accumulated)) (accumulated : σ) :
    Agrees (Parser.iterate step accumulated) (Assembles.iterate stepCached accumulated) where
  forward := inherited_forward.iterate (fun accumulated => (steps accumulated).forward) accumulated
  runs input state caches behind := by
    induction accumulated, state using iterate_induction step input generalizing caches with
    | failed accumulated state final run ran | done accumulated state result final run ran =>
      obtain ⟨after, behindAfter, cached⟩ := (steps accumulated).runs input state behind
      rw [run] at behindAfter cached
      rw [ran]
      exact ⟨after, behindAfter, Cached.iterate_of_inl cached rfl⟩
    | stuck accumulated state further final run stuck ran =>
      have fewer := strides accumulated input state
      rw [run] at fewer
      exact absurd (fewer _ rfl trivial) stuck
    | again accumulated state further next run fewer ran ih =>
      obtain ⟨after, behindAfter, cached⟩ := (steps accumulated).runs input state behind
      rw [run] at behindAfter cached
      rw [ran]
      obtain ⟨last, behindLast, loop⟩ := ih after behindAfter
      exact ⟨last, behindLast, (Cached.iterate_of_inr cached rfl).trans loop⟩

/-! ## Types and attributes -/

theorem reuse [BEq κ] {cache : Caches → Cache κ α} {key : Nat → κ}
    (update : Caches → Cache κ α → Caches) (forward : Forward parser)
    (strides : Strides (fun _ => True) parser)
    (fresh : ∀ {caches : Caches} {place}, caches.Behind place →
      (cache caches).lookup (key place) = none)
    (added : ∀ {caches : Caches} {place further found}, caches.Behind further → place < further →
      (update caches ((key place, found, further) :: cache caches)).Behind further) :
    Agrees parser (Cached.reuse cache update key parser) where
  forward := forward
  runs input state caches behind := by
    have reaches := forward input state
    have fewer := strides input state
    cases run : parser input state with
    | mk result after =>
      rw [run] at reaches fewer
      cases result with
      | none => exact ⟨caches, behind.mono reaches.position_le,
          Cached.reuse_of_none (fresh behind) run⟩
      | some found =>
        exact ⟨_, added (behind.mono reaches.position_le)
          (reaches.position_lt (fewer found rfl trivial)),
          Cached.reuse_of_some (fresh behind) run⟩

theorem type : Agrees Parser.type Assembles.type :=
  reuse (fun caches types => { caches with types }) inherited_forward.type Strides.type
    Caches.Behind.lookup_types Caches.Behind.add_type

theorem attributeOf (form : AttributeForm) :
    Agrees (Parser.attributeOf form) (Assembles.attributeOf form) :=
  reuse (fun caches attributes => { caches with attributes }) (inherited_forward.attributeOf form)
    (Strides.attributeOf form) (fun behind => behind.lookup_attributes form)
    Caches.Behind.add_attribute

/-! ## Lists -/

section Lists

variable {item : Parser α} {itemCached : Cached α}

theorem collect {step : Parser (Option α × Bool)} {stepCached : Cached (Option α × Bool)}
    (inner : Agrees step stepCached) (strides : Strides (·.2 = true) step) :
    Agrees (Parser.collect step) (Assembly.collect stepCached) :=
  map _ <| iterate (fun _ => inner.bind fun _ => pure _)
    (fun items => .collecting inner.forward strides items) _

theorem eat (mark : Punct) : Agrees (Parser.eat mark) (Assembles.part (Parser.eat mark)) :=
  part (inherited_forward.eat mark)

theorem cursor : Agrees Parser.cursor (Assembles.part Parser.cursor) :=
  part inherited_forward.cursor

variable (inner : Agrees item itemCached)

include inner

theorem separated : Agrees (Parser.separated item) (Assembly.separated itemCached) := by
  refine inner.bind fun head => bind (collect ?_ (.followingItem inner.forward)) fun tail => pure _
  exact (eat .comma).bind fun _ => ite (inner.bind fun _ => pure _) (pure _)

theorem listed : Agrees (Parser.listed item) (Assembly.listed itemCached) :=
  cursor.bind fun _ => ite (pure _) (inner.separated.bind fun _ => pure _)

theorem listedWithEllipsis :
    Agrees (Parser.listedWithEllipsis item) (Assembly.listedWithEllipsis itemCached) := by
  refine cursor.bind fun _ =>
    ite (pure _) (iterate (fun items => ?_) (.itemOrEllipsis inner.forward) _)
  refine (eat .ellipsis).bind fun _ => ite (pure _) (inner.bind fun _ => ?_)
  exact (eat .comma).bind fun _ => ite (pure _) (pure _)

variable (strides : Strides (fun _ => True) item)

include strides

theorem bracketed (separator : Separator) :
    Agrees (Parser.bracketed separator item) (Assembly.bracketed separator itemCached) := by
  refine (part (inherited_forward.punct _)).bind fun _ =>
    collect ?_ (.bracketedItem inner.forward separator strides)
  refine (eat .rightBracket).bind fun _ =>
    ite (pure _) (cursor.bind fun _ => ite ?_ (inner.bind fun _ => ?_))
  · exact part (inherited_forward.expected _)
  · exact ite ((eat .comma).bind fun _ => pure _) (pure _)

theorem repeated (next : Guard) :
    Agrees (Parser.repeated next item) (Assembly.repeated next itemCached) := by
  refine collect ?_ (.repeatedItem inner.forward next strides)
  exact cursor.bind fun _ => ite (inner.bind fun _ => (eat .comma).bind fun _ => pure _) (pure _)

end Lists

/-! ## Attributes and modifiers -/

theorem namedAttribute : Agrees Parser.namedAttribute Assembly.namedAttribute :=
  cursor.bind fun _ =>
    ite (attributeOf _) (ite (attributeOf _) (part (inherited_forward.expected _)))

theorem trailingAttribute : Agrees Parser.trailingAttribute Assembly.trailingAttribute :=
  cursor.bind fun _ => ite ((attributeOf _).map _) (ite ((attributeOf _).map _) (pure _))

theorem argumentOf (kind : ArgumentKind) :
    Agrees (Parser.argumentOf kind) (Assembly.argumentOf kind) := by
  cases kind with
  | «attribute» => exact namedAttribute.map _
  | _ => exact part (inherited_forward.argumentOf _)

theorem modifierArgument (form : Option ArgumentSyntax) :
    Agrees (Parser.modifierArgument form) (Assembly.modifierArgument form) := by
  cases form with
  | none => exact pure _
  | some form =>
    refine cursor.bind fun _ => ite (pure _) ((part (inherited_forward.punct _)).bind fun _ => ?_)
    exact (argumentOf _).bind fun _ => (part (inherited_forward.punct _)).bind fun _ => pure _

theorem modifierRun (rules : List ModifierRule) :
    Agrees (Parser.modifierRun rules) (Assembly.modifierRun rules) := by
  refine iterate (fun modifiers => cursor.bind fun start => ?_) (fun modifiers =>
    .modifier rules modifiers ?_) _
  · cases rules.find? fun rule => start.atWord rule.keyword with
    | none => exact pure _
    | some rule =>
      refine (part inherited_forward.skip).bind fun _ => (modifierArgument _).bind fun _ => ?_
      cases ModifierTable.filling? modifiers rule.slot with
      | none => exact pure _
      | some earlier =>
        exact cursor.bind fun _ => (part (inherited_forward.reportRepeated _ _ _)).bind fun _ =>
          pure _
  · intro rule start
    refine inherited_forward.bind (inherited_forward.modifierArgument _) fun _ => ?_
    cases ModifierTable.filling? modifiers rule.slot with
    | none => exact inherited_forward.pure _
    | some earlier =>
      exact inherited_forward.bind inherited_forward.cursor fun _ =>
        inherited_forward.bind (inherited_forward.reportRepeated _ _ _) fun _ =>
          inherited_forward.pure _

/-! ## Grammars -/

theorem satisfying (condition : Token → Bool) (what : String) :
    Agrees (Parser.satisfying condition what) (Assembles.part (Parser.satisfying condition what)) :=
  part (inherited_forward.satisfying condition what)

theorem define (kind : NameKind) (found : Token) :
    Agrees (Parser.define kind found) (Assembles.part (Parser.define kind found)) :=
  part (inherited_forward.define kind found)

theorem parse {R : Type} {region : RegionKind → Bool → Parser R}
    {regionCached : RegionKind → Bool → Cached R}
    (regions : ∀ kind implicitTerminator,
      Agrees (region kind implicitTerminator) (regionCached kind implicitTerminator))
    (start : Cursor) (grammar : Grammar R α) (steady : grammar.steady = true) :
    Agrees (grammar.parse start region) (Assembly.parse start regionCached grammar) := by
  have strides : ∀ {β : Type} (inner : Grammar R β), inner.steady = true → inner.consumes = true →
      Strides (fun _ => True) (inner.parse start region) :=
    fun inner steady consumes => strides_parse
      (fun kind implicitTerminator => (regions kind implicitTerminator).forward) start
      inner steady consumes
  induction grammar with
  | blank => exact pure _
  | punct mark => exact (satisfying _ _).bind fun _ => pure _
  | word text => exact (satisfying _ _).bind fun _ => pure _
  | lexeme kind what => exact (satisfying _ _).bind fun _ => pure _
  | oneOf words what => exact (satisfying _ _).bind fun _ => pure _
  | name kind => exact part (inherited_forward.refer kind)
  | definition kind => exact (satisfying _ _).bind fun _ => define _ _
  | type => exact type
  | attributeOf form => exact attributeOf form
  | namedAttribute => exact namedAttribute
  | trailingAttribute => exact trailingAttribute
  | seq first second ihFirst ihSecond =>
    obtain ⟨steadyFirst, steadySecond⟩ := Bool.and_eq_true_iff.1 steady
    exact (ihFirst steadyFirst).bind fun _ => (ihSecond steadySecond).bind fun _ => pure _
  | view as inner ih => exact (ih steady).map _
  | optional present inner ih => exact cursor.bind fun _ => ite ((ih steady).map _) (pure _)
  | choice isFirst first second ihFirst ihSecond =>
    obtain ⟨steadyFirst, steadySecond⟩ := Bool.and_eq_true_iff.1 steady
    exact cursor.bind fun _ => ite ((ihFirst steadyFirst).map _) ((ihSecond steadySecond).map _)
  | separated item ih => exact (ih steady).separated
  | listed item ih => exact (ih steady).listed
  | listedWithEllipsis item ih => exact (ih steady).listedWithEllipsis
  | bracketed separator item ih =>
    obtain ⟨consumes, steady⟩ := Bool.and_eq_true_iff.1 steady
    exact (ih steady).bracketed (strides item steady consumes) separator
  | repeated next item ih =>
    obtain ⟨consumes, steady⟩ := Bool.and_eq_true_iff.1 steady
    exact (ih steady).repeated (strides item steady consumes) next
  | modifierRun table => exact (modifierRun _).map _
  | spanned inner ih =>
    exact cursor.bind fun _ => (ih steady).bind fun _ => cursor.bind fun _ => pure _
  | binder what inner ih =>
    exact (satisfying _ _).bind fun _ => (ih steady).bind fun _ => (define _ _).bind fun _ => pure _
  | inScope inner ih => exact (ih steady).inScope
  | region kind implicitTerminator => exact regions kind implicitTerminator
  | recommended opcode warning inner ih =>
    refine (ih steady).bind fun _ => ite (cursor.bind fun _ => ?_) (pure _)
    exact (part (forward_warnDeprecated _ _ _)).bind fun _ => pure _

/-! ## Operations -/

section Operations

variable {region : RegionKind → Bool → Parser (Region Operation)}
  {regionCached : RegionKind → Bool → Cached (Region Operation)}
  (regions : ∀ kind implicitTerminator,
    Agrees (region kind implicitTerminator) (regionCached kind implicitTerminator))

theorem resultNames : Agrees Parser.resultNames Assembly.resultNames := by
  have names : Agrees (Parser.separated (Parser.token .value "a result name"))
      (Assembly.separated (Assembles.part (Parser.token .value "a result name"))) :=
    (satisfying _ _).separated
  exact cursor.bind fun _ =>
    ite (names.bind fun _ => (satisfying _ _).bind fun _ => pure _) (pure _)

include regions

theorem fromKeyword : Agrees (Parser.fromKeyword region) (Assembly.fromKeyword regionCached) := by
  refine cursor.bind fun start => ite ?_ (part (inherited_forward.expected _))
  cases Opcode.ofKeyword? start.peek.text with
  | none => exact (part (forward_of_eq fun _ _ => rfl)).bind fun _ => part inherited_forward.fail
  | some opcode =>
    refine (part inherited_forward.skip).bind fun _ => (part inherited_forward.takeId).bind fun _ =>
      naming _ ?_
    refine (part (inherited_forward.chooseForm opcode)).bind fun form => ?_
    exact (parse regions start _ (Grammar.body_steady opcode form)).bind fun _ => pure _

theorem operation : Agrees (Parser.operation region) (Assembly.operation regionCached) := by
  refine cursor.bind fun start => resultNames.bind fun names =>
    (fromKeyword regions).attempt.bind fun read => ?_
  refine (part (inherited_forward.mapM_define names)).bind fun results => ?_
  cases read with
  | none => exact part inherited_forward.fail
  | some found => exact cursor.bind fun _ => pure _

/-! ## Regions -/

theorem blockHeader : Agrees (Parser.blockHeader region) (Assembly.blockHeader regionCached) :=
  cursor.bind fun start => (parse regions start _ Grammar.blockHeader_steady).bind fun _ =>
    cursor.bind fun _ => pure _

theorem blockStep (kind : RegionKind) (opening : Span) (progress : Progress) :
    Agrees (Parser.blockStep region kind opening progress)
      (Assembly.blockStep regionCached kind opening progress) := by
  refine cursor.bind fun start => (part inherited_forward.halted).bind fun _ =>
    ite (part inherited_forward.fail) ?_
  refine ite ((part inherited_forward.skip).bind fun _ => pure _) (ite ?_ (ite ?_ ?_))
  · exact (part (forward_of_eq fun _ _ => rfl)).bind fun _ => part inherited_forward.fail
  · refine (blockHeader regions).attempt.bind fun read => ?_
    cases read with
    | none => exact (part (forward_resynchronize start)).bind fun _ => pure _
    | some draft => exact pure _
  · refine (operation regions).attempt.bind fun read => ?_
    cases read with
    | none => exact (part (forward_resynchronize start)).bind fun _ => pure _
    | some op => exact (part (inherited_forward.place kind progress op)).map _

theorem blocks (kind : RegionKind) (implicitTerminator : Bool) (opening : Span) :
    Agrees (Parser.blocks region kind implicitTerminator opening)
      (Assembly.blocks regionCached kind implicitTerminator opening) := by
  refine (part inherited_forward.scope).bind fun _ => (part inherited_forward.peek).bind fun _ => ?_
  refine (iterate (blockStep regions kind opening) (fun progress => ?_) _).bind fun _ => ?_
  · exact Strides.blockStep (fun kind implicitTerminator =>
      (regions kind implicitTerminator).forward) _ _ _
  · exact (part (inherited_forward.reportUnterminated _ _ _ _)).bind fun _ => pure _

/-! ## Source units -/

omit regions in
theorem unitHeader (start : Cursor) :
    Agrees (Parser.unitHeader start) (Assembly.unitHeader start) := by
  have ended : ∀ (name : Option Lexeme) (attributes : Option AttributeText),
      Agrees
        (do
          Pure.pure
            ({ name, attributes, span := start.spanBetween (← Parser.cursor) } : ModuleHeader))
        (do
          Pure.pure
            { name, attributes, span := start.spanBetween (← Assembles.part Parser.cursor) }) :=
    fun _ _ => cursor.bind fun _ => pure _
  have rest : ∀ name : Option Lexeme, Agrees (restOfHeader start name) (do
      let attributes ←
        if (← Assembles.part Parser.cursor).atWord "attributes" then do
          Assembles.part Parser.skip
          Assembles.attempt (Assembles.attributeOf .dictionary)
        else
          Pure.pure none
      Pure.pure
        { name
          attributes
          span := start.spanBetween (← Assembles.part Parser.cursor) }) := by
    intro name
    refine cursor.bind fun _ => ite ?_ ((pure none).bind fun _ => ended name _)
    exact (part inherited_forward.skip).bind fun _ => (attributeOf _).attempt.bind fun _ =>
      ended name _
  refine cursor.bind fun here => ite ?_ ((pure none).bind rest)
  exact (part inherited_forward.skip).bind fun _ => (pure _).bind rest

theorem declaration : Agrees (Parser.declaration region) (Assembly.declaration regionCached) :=
  (part inherited_forward.peek).bind fun _ =>
    ite (operation regions) (part (inherited_forward.expected _))

theorem items (braced : Bool) :
    Agrees (Parser.items region braced) (Assembly.items regionCached braced) := by
  refine collect ?_
    (Strides.itemStep (fun kind implicitTerminator => (regions kind implicitTerminator).forward)
      braced)
  refine (part forward_checkHalted).bind fun _ => cursor.bind fun start => ite (pure _) ?_
  refine (declaration regions).attempt.bind fun read => ?_
  cases read with
  | none =>
    exact (part (forward_resynchronize start)).bind fun _ =>
      (part inherited_forward.halted).bind fun _ => pure _
  | some op => exact pure _

theorem sourceUnit : Agrees (Parser.sourceUnit region) (Assembly.sourceUnit regionCached) := by
  refine cursor.bind fun start => ite ?_ ((items regions false).bind fun _ => pure _)
  refine (part inherited_forward.skip).bind fun _ => (unitHeader start).bind fun _ => ?_
  refine (satisfying _ _).attempt.bind fun opening => (items regions _).bind fun ops => ?_
  cases opening with
  | none => exact pure _
  | some brace =>
    refine (part inherited_forward.halted).bind fun _ => ite ?_ (pure _)
    exact (part (inherited_forward.moduleEnd brace)).bind fun _ => pure _

end Operations

theorem regionWithin (levels : Nat) (kind : RegionKind) (implicitTerminator : Bool) :
    Agrees (Parser.regionWithin levels kind implicitTerminator)
      (Assembly.regionWithin levels kind implicitTerminator) := by
  induction levels generalizing kind implicitTerminator with
  | zero =>
    refine (part forward_checkHalted).bind fun _ => ite (part inherited_forward.fail) (part ?_)
    exact forward_of_eq fun _ _ => rfl
  | succ levels ih =>
    refine (part forward_checkHalted).bind fun _ => ite (part inherited_forward.fail) ?_
    exact (satisfying _ _).bind fun _ => blocks ih kind implicitTerminator _

end Agrees

end CirText
