import CirText.Parser.Module
import CirText.Proofs.Grammar.Mentions
import CirText.Proofs.Grammar.Tables
import CirText.Proofs.Parser.Trail

/-!
# Every reference of the result is a noted use

Whatever a parser gives, the names that it refers to have been noted as uses on the way, also when
other parts of the source unit are malformed. For grammars this goes by the pieces of the result;
from there it is carried over to operations, regions and source units.
-/

namespace CirText

variable {R α β : Type}

/-! ## Lawful grammars -/

/-- Whether all modifier tables of a grammar are lawful. -/
def Grammar.Lawful : {α : Type} → Grammar R α → Prop
  | _, .seq first second => first.Lawful ∧ second.Lawful
  | _, .choice _ first second => first.Lawful ∧ second.Lawful
  | _, .modifierRun table => table.Lawful
  | _, .view _ inner | _, .optional _ inner | _, .separated inner | _, .listed inner
  | _, .listedWithEllipsis inner | _, .bracketed _ inner | _, .repeated _ inner
  | _, .spanned inner | _, .binder _ inner | _, .inScope inner
  | _, .recommended _ _ inner => inner.Lawful
  | _, _ => True

open Grammar in
theorem Grammar.body_lawful (opcode : Opcode) (form : Form) :
    (body (R := R) opcode form).Lawful := by
  unfold body
  split
  all_goals repeat' first
    | exact trivial
    | apply And.intro
    | exact ModifierTable.beforeFunctionName_lawful
    | exact ModifierTable.afterFunctionSignature_lawful
    | exact ModifierTable.afterCall_lawful
    | exact ModifierTable.afterTryCall_lawful
    | exact ModifierTable.ofMemoryAccess_lawful
    | exact ModifierTable.beforeGlobalName_lawful

theorem Grammar.blockHeader_lawful : (Grammar.blockHeader (R := R)).Lawful :=
  ⟨⟨trivial, trivial, ⟨trivial, trivial, trivial, trivial⟩, trivial⟩, trivial⟩

/-! ## Lists -/

namespace Parser.Traced

variable {item : Parser α} {holds : List Reference → α → Prop}

theorem separated (grows : Grows holds) (h : Traced item holds) :
    Traced (Parser.separated item) fun uses found => ∀ a ∈ found.1 :: found.2, holds uses a := by
  apply h.bind
  intro uses head headHolds
  refine (collect grows ?_).bind fun more tail tailHolds => .pure ?_
  · refine (eat .comma).andThen fun _ _ => ite (fun _ => ?_) fun _ => .pure (by rintro _ ⟨⟩)
    refine h.bind fun more a found => .pure ?_
    rintro _ ⟨⟩
    exact grows _ _ _ found (by simp)
  · intro a member
    rcases List.mem_cons.1 member with rfl | later
    · exact grows _ _ _ headHolds (by simp)
    · exact grows _ _ _ (tailHolds a later) (by simp)

theorem listed (grows : Grows holds) (h : Traced item holds) :
    Traced (Parser.listed item) fun uses items => ∀ a ∈ items, holds uses a := by
  refine look fun here => ite (fun _ => .pure (by simp)) fun _ => ?_
  refine (separated grows h).bind fun uses found all => .pure ?_
  rw [List.append_nil]
  exact all

theorem listedWithEllipsis (grows : Grows holds) (h : Traced item holds) :
    Traced (Parser.listedWithEllipsis item) fun uses found => ∀ a ∈ found.1, holds uses a := by
  refine look fun here => ite (fun _ => .pure (by simp)) fun _ => ?_
  let allHold : List Reference → List α → Prop := fun uses items => ∀ a ∈ items, holds uses a
  have start : allHold [] [] := by
    intro a member
    cases member
  apply iterate start
  intro uses items all
  refine (eat .ellipsis).andThen fun more stops => ite (fun _ => .pure ?_) fun _ => ?_
  · intro a member
    exact grows _ _ _ (all a (List.mem_reverse.1 member)) (by simp)
  · refine h.bind fun others a found => (eat .comma).andThen fun _ goesOn => ?_
    have both : ∀ uses', uses ⊆ uses' → others ⊆ uses' → allHold uses' (a :: items) := by
      intro uses' old new b member
      rcases List.mem_cons.1 member with rfl | earlier
      · exact grows _ _ _ found new
      · exact grows _ _ _ (all b earlier) old
    refine ite (fun _ => .pure ?_) fun _ => .pure ?_
    · exact both _ (by simp) fun _ inside => by simp [inside]
    · intro b member
      exact both _ (by simp) (fun _ inside => by simp [inside]) b (List.mem_reverse.1 member)

theorem bracketed (separator : Separator) (grows : Grows holds) (h : Traced item holds) :
    Traced (Parser.bracketed separator item) fun uses items => ∀ a ∈ items, holds uses a := by
  refine (punct .leftBracket).andThen fun uses _ => ?_
  refine (collect grows ?_).mono fun more items all a member =>
    grows _ _ _ (all a member) (by simp)
  refine (eat .rightBracket).andThen fun _ stops =>
    ite (fun _ => .pure (by rintro _ ⟨⟩)) fun _ => ?_
  refine look fun here => ite (fun _ => expected _) fun _ => ?_
  refine h.bind fun more a found => ?_
  have known : ∀ others, holds (more ++ others) a := fun others => grows _ _ _ found (by simp)
  refine ite (fun _ => ?_) fun _ => ?_
  · refine (eat .comma).andThen fun _ _ => .pure ?_
    rintro _ ⟨⟩
    exact grows _ _ _ found (by simp)
  · refine .pure ?_
    rintro _ ⟨⟩
    exact grows _ _ _ found (by simp)

theorem repeated (next : Guard) (grows : Grows holds) (h : Traced item holds) :
    Traced (Parser.repeated next item) fun uses items => ∀ a ∈ items, holds uses a := by
  refine collect grows ?_
  refine look fun here => ite (fun _ => ?_) fun _ => .pure (by rintro _ ⟨⟩)
  refine h.bind fun uses a found => (eat .comma).andThen fun _ _ => .pure ?_
  rintro _ ⟨⟩
  exact grows _ _ _ found (by simp)

/-! ## Attributes and modifiers -/

theorem namedAttribute : Traced Parser.namedAttribute fun _ _ => True := by
  refine look fun here => ite (fun _ => ?_) fun _ => ite (fun _ => ?_) fun _ => expected _
  · exact (attributeOf _).weaken
  · exact (attributeOf _).weaken

theorem trailingAttribute : Traced Parser.trailingAttribute fun _ _ => True := by
  refine look fun here => ite (fun _ => ?_) fun _ => ite (fun _ => ?_) fun _ => .pure trivial
  · exact (attributeOf _).map fun _ _ _ => trivial
  · exact (attributeOf _).map fun _ _ _ => trivial

/-- Whether an argument refers to noted uses only. -/
def NotedArgument (uses : List Reference) (argument : Argument) : Prop :=
  ∀ reference, argument = .symbol reference → reference ∈ uses

theorem argumentOf (kind : ArgumentKind) :
    Traced (Parser.argumentOf kind) fun uses argument =>
      kind.Takes argument ∧ NotedArgument uses argument := by
  cases kind with
  | word => exact (token _ _).bind fun _ _ _ => .pure ⟨trivial, by rintro _ ⟨⟩⟩
  | integer => exact (token _ _).bind fun _ _ _ => .pure ⟨trivial, by rintro _ ⟨⟩⟩
  | «symbol» =>
    apply (refer .symbol).map
    rintro uses reference ⟨noted, kind⟩
    refine ⟨kind, ?_⟩
    rintro _ ⟨⟩
    exact noted
  | «attribute» => exact namedAttribute.map fun _ _ _ => ⟨trivial, by rintro _ ⟨⟩⟩

theorem modifierArgument (form : Option ArgumentSyntax) :
    Traced (Parser.modifierArgument form) fun uses given =>
      ArgumentSyntax.Admits form given ∧ ∀ argument ∈ given, NotedArgument uses argument := by
  cases form with
  | none => exact .pure ⟨trivial, by rintro _ ⟨⟩⟩
  | some form =>
    refine look fun here => ite (fun leftOut => .pure ⟨?_, by rintro _ ⟨⟩⟩) fun _ => ?_
    · simp only [Bool.and_eq_true] at leftOut
      exact leftOut.1
    · refine (punct _).andThen fun _ _ => (argumentOf form.kind).bind fun uses argument found => ?_
      refine (punct _).andThen fun _ _ => .pure ⟨found.1, ?_⟩
      rintro _ ⟨⟩ reference same
      simp [found.2 reference same]

theorem reportRepeated (rule earlier : ModifierRule) (span : Span) :
    Traced (Parser.reportRepeated rule earlier span) fun _ _ => True :=
  look fun _ => report rfl

/-- The modifiers read are a run of the table, and their arguments refer to noted uses. -/
theorem modifierRun (rules : List ModifierRule) :
    Traced (Parser.modifierRun rules) fun uses modifiers =>
      ModifierTable.Run rules modifiers ∧
        ∀ modifier ∈ modifiers, ∀ argument ∈ modifier.argument, NotedArgument uses argument := by
  let invariant : List Reference → List Modifier → Prop := fun uses modifiers =>
    ModifierTable.Run rules modifiers ∧
      ∀ modifier ∈ modifiers, ∀ argument ∈ modifier.argument, NotedArgument uses argument
  have start : invariant [] [] := ⟨⟨by simp, by simp⟩, by simp⟩
  apply iterate start
  intro uses modifiers ⟨run, noted⟩
  have grown : ∀ more, invariant (uses ++ more) modifiers := fun more =>
    ⟨run, fun modifier member argument given reference same =>
      List.mem_append_left _ (noted modifier member argument given reference same)⟩
  refine look fun here => ?_
  cases found : rules.find? fun rule => here.atWord rule.keyword with
  | none => exact .pure (grown [])
  | some rule =>
    refine skip.andThen fun skipped _ =>
      (modifierArgument rule.argument).bind fun more given read => ?_
    cases filling : ModifierTable.filling? modifiers rule.slot with
    | some earlier =>
      refine look fun now => (reportRepeated rule earlier.rule _).andThen fun others _ => .pure ?_
      exact grown _
    | none =>
      refine .pure ⟨run.concat (List.mem_of_find?_eq_some found) read.1 filling, ?_⟩
      · intro modifier member argument given reference same
        rcases List.mem_append.1 member with old | new
        · exact List.mem_append_left _ (noted modifier old argument given reference same)
        · rw [List.mem_singleton.1 new] at given
          simp [read.2 argument given reference same]

end Parser.Traced

namespace Grammar

/-! ## Grammars -/

/-- Whether a name or region is known: references have been noted as uses, and what is asked of
regions holds. -/
def Known (region : List Reference → R → Prop) (uses : List Reference) : Mention R → Prop
  | .definition _ => True
  | .reference used => used ∈ uses
  | .region inner => region uses inner

/-- Whether all names and regions among pieces are known. -/
def AllKnown (region : List Reference → R → Prop) (uses : List Reference)
    (pieces : List (Piece R)) : Prop :=
  ∀ mention ∈ mentions pieces, Known region uses mention

variable {region : List Reference → R → Prop}

theorem allKnown_grows (grows : Parser.Traced.Grows region) (grammar : Grammar R α) :
    Parser.Traced.Grows fun uses a => AllKnown region uses (grammar.pieces a) := by
  intro uses more a known larger mention member
  have before := known mention member
  cases mention with
  | definition defined => trivial
  | reference used => exact larger before
  | region inner => exact grows uses more inner before larger

theorem allKnown_append {uses : List Reference} {left right : List (Piece R)}
    (first : AllKnown region uses left) (second : AllKnown region uses right) :
    AllKnown region uses (left ++ right) := by
  intro mention member
  rw [mentions_append] at member
  exact (List.mem_append.1 member).elim (first mention) (second mention)

theorem allKnown_arrange {uses : List Reference} (separator : Separator)
    {items : List (List (Piece R))} (all : ∀ item ∈ items, AllKnown region uses item) :
    AllKnown region uses (Piece.arrange separator items) := by
  intro mention member
  rw [mentions_arrange] at member
  obtain ⟨item, inItems, inItem⟩ := List.mem_flatMap.1 member
  exact all item inItems mention inItem

theorem allKnown_arrange_map {uses : List Reference} (separator : Separator) {items : List α}
    {pieces : α → List (Piece R)} (all : ∀ a ∈ items, AllKnown region uses (pieces a)) :
    AllKnown region uses (Piece.arrange separator (items.map pieces)) := by
  apply allKnown_arrange separator
  intro item member
  obtain ⟨a, inItems, rfl⟩ := List.mem_map.1 member
  exact all a inItems

theorem allKnown_flatMap {uses : List Reference} {items : List α} {pieces : α → List (Piece R)}
    (all : ∀ item ∈ items, AllKnown region uses (pieces item)) :
    AllKnown region uses (items.flatMap pieces) := by
  intro mention member
  rw [mentions_flatMap] at member
  obtain ⟨item, inItems, inItem⟩ := List.mem_flatMap.1 member
  exact all item inItems mention inItem

theorem allKnown_modifier {uses : List Reference} {modifier : Modifier}
    (noted : ∀ argument ∈ modifier.argument, Parser.Traced.NotedArgument uses argument) :
    AllKnown region uses modifier.pieces := by
  obtain ⟨rule, _ | argument⟩ := modifier
  · rintro mention ⟨⟩
  · cases form : rule.argument with
    | none =>
      intro mention member
      simp [Modifier.pieces, form] at member
    | some form =>
      cases argument with
      | lexeme word =>
        intro mention member
        simp [Modifier.pieces, form, Argument.piece] at member
      | «symbol» used =>
        intro mention member
        simp only [Modifier.pieces, form, Argument.piece, mentions_word, mentions_punct, mentions,
          List.mem_singleton] at member
        rw [member]
        exact noted _ rfl used rfl
      | «attribute» value =>
        intro mention member
        simp [Modifier.pieces, form, Argument.piece] at member

open CirText.Parser in
/-- The parser of a grammar gives what the grammar can build, and all names in it are known. -/
theorem parse_traced (start : Cursor) {inner : RegionKind → Bool → Parser R}
    (grows : Traced.Grows region)
    (regions : ∀ kind implicitTerminator, (inner kind implicitTerminator).Traced region)
    {α : Type} (grammar : Grammar R α) (lawful : grammar.Lawful) :
    (grammar.parse start inner).Traced fun uses a =>
      grammar.Builds a ∧ AllKnown region uses (grammar.pieces a) := by
  have nothing : ∀ uses, AllKnown region uses ([] : List (Piece R)) := by
    rintro uses mention ⟨⟩
  induction grammar with
  | blank => exact .pure ⟨trivial, nothing _⟩
  | punct mark => exact (Traced.punct mark).andThen fun _ _ => .pure ⟨trivial, nothing _⟩
  | word text => exact (Traced.word text).andThen fun _ _ => .pure ⟨trivial, nothing _⟩
  | lexeme kind what => exact (Traced.token kind what).bind fun _ _ _ => .pure ⟨trivial, nothing _⟩
  | oneOf words what =>
    exact (Traced.satisfying _ what).bind fun _ _ _ => .pure ⟨trivial, nothing _⟩
  | name kind =>
    apply (Traced.refer kind).mono
    rintro uses used ⟨noted, _⟩
    refine ⟨trivial, ?_⟩
    rintro mention member
    rw [List.mem_singleton.1 member]
    exact noted
  | definition kind =>
    apply (Traced.definition kind _).mono
    intro uses defined _
    refine ⟨trivial, ?_⟩
    rintro mention member
    rw [List.mem_singleton.1 member]
    trivial
  | type => exact Traced.type.mono fun _ _ _ => ⟨trivial, nothing _⟩
  | attributeOf form => exact (Traced.attributeOf form).mono fun _ _ _ => ⟨trivial, nothing _⟩
  | namedAttribute => exact Traced.namedAttribute.mono fun _ _ _ => ⟨trivial, nothing _⟩
  | trailingAttribute =>
    apply Traced.trailingAttribute.mono
    intro uses found _
    refine ⟨trivial, ?_⟩
    intro mention member
    cases found <;> cases member
  | seq first second ihFirst ihSecond =>
    refine (ihFirst lawful.1).bind fun uses a knownFirst =>
      (ihSecond lawful.2).bind fun more b knownSecond => .pure ⟨trivial, ?_⟩
    apply allKnown_append
    · exact allKnown_grows grows first _ _ _ knownFirst.2 (by simp)
    · exact allKnown_grows grows second _ _ _ knownSecond.2 (by simp)
  | view as inner ih =>
    apply (ih lawful).map
    rintro uses a ⟨_, known⟩
    refine ⟨⟨a, rfl⟩, ?_⟩
    rw [pieces_view]
    exact known
  | optional present inner ih =>
    refine .look fun here => .ite (fun _ => ?_) fun _ => .pure ⟨trivial, nothing _⟩
    exact (ih lawful).map fun _ _ known => ⟨trivial, known.2⟩
  | choice isFirst first second ihFirst ihSecond =>
    refine .look fun here => .ite (fun _ => ?_) fun _ => ?_
    · exact (ihFirst lawful.1).map fun _ _ known => ⟨trivial, known.2⟩
    · exact (ihSecond lawful.2).map fun _ _ known => ⟨trivial, known.2⟩
  | separated item ih =>
    apply (Traced.separated (allKnown_grows grows item)
      ((ih lawful).mono fun _ _ known => known.2)).mono
    rintro uses ⟨head, tail⟩ known
    exact ⟨trivial, allKnown_arrange_map .comma known⟩
  | listed item ih =>
    apply (Traced.listed (allKnown_grows grows item)
      ((ih lawful).mono fun _ _ known => known.2)).mono
    intro uses items known
    exact ⟨trivial, allKnown_arrange_map .comma known⟩
  | listedWithEllipsis item ih =>
    apply (Traced.listedWithEllipsis (allKnown_grows grows item)
      ((ih lawful).mono fun _ _ known => known.2)).mono
    rintro uses ⟨items, ellipsis⟩ known
    refine ⟨trivial, allKnown_arrange .comma ?_⟩
    intro pieces member
    rcases List.mem_append.1 member with inItems | last
    · obtain ⟨a, inside, rfl⟩ := List.mem_map.1 inItems
      exact known a inside
    · cases ellipsis
      · cases last
      · rw [List.mem_singleton.1 last]
        exact nothing uses
  | bracketed separator item ih =>
    apply (Traced.bracketed separator (allKnown_grows grows item)
      ((ih lawful).mono fun _ _ known => known.2)).mono
    intro uses items known
    refine ⟨trivial, ?_⟩
    have inside := allKnown_append (allKnown_arrange_map separator known) (nothing uses)
    rw [List.append_nil] at inside
    intro mention member
    apply inside
    simpa [pieces] using member
  | repeated next item ih =>
    apply (Traced.repeated next (allKnown_grows grows item)
      ((ih lawful).mono fun _ _ known => known.2)).mono
    intro uses items known
    exact ⟨trivial, allKnown_arrange_map .comma known⟩
  | modifierRun table =>
    apply (Traced.modifierRun table.rules).map
    rintro uses modifiers ⟨run, noted⟩
    refine ⟨trivial, allKnown_flatMap ?_⟩
    intro modifier member
    exact allKnown_modifier (noted modifier ((lawful modifiers run).mem_iff.1 member))
  | spanned inner ih =>
    refine .look fun before => (ih lawful).bind fun uses a known => .look fun after => .pure ?_
    rw [List.append_nil]
    exact ⟨trivial, known.2⟩
  | binder what inner ih =>
    refine (Traced.token _ what).bind fun _ found _ => (ih lawful).bind fun uses a known => ?_
    refine (Traced.define (by decide) found).bind fun more defined _ => .pure ⟨trivial, ?_⟩
    intro mention member
    rcases List.mem_cons.1 member with rfl | inside
    · trivial
    · exact allKnown_grows grows inner _ _ _ known.2 (by simp) mention inside
  | inScope inner ih => exact (ih lawful).inScope.mono fun _ _ known => ⟨trivial, known.2⟩
  | region kind implicitTerminator =>
    apply (regions kind implicitTerminator).mono
    intro uses inner known
    refine ⟨trivial, ?_⟩
    intro mention member
    rw [List.mem_singleton.1 member]
    exact known
  | recommended opcode warning inner ih =>
    refine (ih lawful).bind fun uses a known => ?_
    have grown : ∀ more, AllKnown region (uses ++ more) (inner.pieces a) := fun more =>
      allKnown_grows grows inner _ _ _ known.2 (by simp)
    refine .ite (fun _ => .look fun now => ?_) fun _ => .pure ⟨trivial, grown _⟩
    exact (Traced.warnDeprecated _ _ _).andThen fun more _ => .pure ⟨trivial, grown _⟩

end Grammar

/-! ## Operations and regions -/

/-- An operation refers to noted uses only, and so do all operations inside it. -/
def Operation.Covered (uses : List Reference) (op : Operation) : Prop :=
  ∀ inner ∈ op.preorder, ∀ reference ∈ inner.references, reference ∈ uses

/-- The operations of a region refer to noted uses only. -/
def Region.Covered (uses : List Reference) (region : Region Operation) : Prop :=
  ∀ op ∈ region.ops, op.Covered uses

theorem Operation.covered_grows : Parser.Traced.Grows Operation.Covered :=
  fun _ _ _ covered larger inner inside reference member =>
    larger (covered inner inside reference member)

theorem Region.covered_grows : Parser.Traced.Grows Region.Covered :=
  fun _ _ _ covered larger op inside => Operation.covered_grows _ _ _ (covered op inside) larger

/-- An operation whose body is known is covered. -/
theorem Operation.covered_of_known {op : Operation} {uses : List Reference} {opcode : Opcode}
    {form : Form} (built : (Grammar.body opcode form).Builds ⟨op.payload, op.extra⟩)
    (known : Grammar.AllKnown Region.Covered uses
      ((Grammar.body opcode form).pieces ⟨op.payload, op.extra⟩)) :
    op.Covered uses := by
  have mentioned : ∀ mention ∈ op.payload.mentions, Grammar.Known Region.Covered uses mention :=
    fun mention member =>
      known mention (((Grammar.body_describes opcode form).mentions _ built).mem_iff.2 member)
  intro inner inside reference member
  rw [Operation.preorder_eq] at inside
  rcases List.mem_cons.1 inside with rfl | below
  · have listed : reference ∈ inner.payload.references :=
      inner.node.references_perm.mem_iff.1 member
    exact mentioned (.reference reference) (by simp [Payload.mentions, listed])
  · obtain ⟨child, inChildren, inChild⟩ := List.mem_flatMap.1 below
    obtain ⟨region, inRegions, inRegion⟩ := List.mem_flatMap.1 inChildren
    have listed : region ∈ op.payload.regions := inRegions
    have covered : region.Covered uses :=
      mentioned (.region region) (by simp [Payload.mentions, listed])
    exact covered child inRegion inner inChild reference member

namespace Parser.Traced

theorem resultNames : Traced Parser.resultNames fun _ _ => True := by
  refine look fun here => ite (fun _ => ?_) fun _ => .pure trivial
  refine (separated (fun _ _ _ _ _ => trivial) (token _ _).weaken).weaken.andThen fun _ _ => ?_
  exact (punct .equal).andThen fun _ _ => .pure trivial

theorem chooseForm (opcode : Opcode) : Traced (Parser.chooseForm opcode) fun _ _ => True := by
  refine look fun here => ?_
  cases Form.choose opcode here with
  | ok form => exact .pure trivial
  | error what => exact look fun found => (report rfl).andThen fun _ _ => fail

theorem takeId : Traced Parser.takeId fun _ _ => True :=
  fun _ state =>
    ⟨[], [], [], ⟨⟨0, rfl⟩, rfl, by simp [Parser.takeId], [], [], .refl, List.nil_sublist _, rfl⟩,
    fun _ _ => trivial⟩

/-- What a parser of regions gives is covered. -/
def Regions (region : RegionKind → Bool → Parser (Region Operation)) : Prop :=
  ∀ kind implicitTerminator, Traced (region kind implicitTerminator) Region.Covered

variable {region : RegionKind → Bool → Parser (Region Operation)}

/-- A body that is known. -/
def KnownBody (uses : List Reference) (body : Body (Region Operation)) : Prop :=
  ∃ opcode form, (Grammar.body opcode form).Builds body ∧
    Grammar.AllKnown Region.Covered uses ((Grammar.body opcode form).pieces body)

theorem fromKeyword (regions : Regions region) :
    Traced (Parser.fromKeyword region) fun uses found => KnownBody uses found.2.2 := by
  refine look fun start => ite (fun _ => ?_) fun _ => expected _
  cases Opcode.ofKeyword? start.peek.text with
  | none => exact (report rfl).andThen fun _ _ => fail
  | some opcode =>
    refine skip.andThen fun _ _ => takeId.andThen fun _ id => naming ?_
    refine (chooseForm opcode).andThen fun _ form => ?_
    refine (Grammar.parse_traced start Region.covered_grows regions _
      (Grammar.body_lawful opcode form)).bind fun uses body found => .pure ?_
    refine ⟨opcode, form, found.1, ?_⟩
    exact Grammar.allKnown_grows Region.covered_grows _ _ _ _ found.2 fun _ inside => by
      simp [inside]

theorem mapM_define (names : List Token) :
    Traced (names.mapM (Parser.define .value)) fun _ _ => True := by
  suffices loop : ∀ done, Traced (List.mapM.loop (Parser.define .value) names done) fun _ _ =>
      True from
    loop []
  induction names with
  | nil => exact fun done => .pure trivial
  | cons name names ih => exact fun done => (define (by decide) name).weaken.andThen fun _ _ => ih _

theorem operation (regions : Regions region) :
    Traced (Parser.operation region) Operation.Covered := by
  refine look fun start => resultNames.andThen fun _ names => ?_
  refine (fromKeyword regions).attempt.bind fun uses read known => ?_
  refine (mapM_define names).andThen fun _ results => ?_
  cases read with
  | none => exact fail
  | some found =>
    obtain ⟨id, form, body⟩ := found
    refine look fun now => .pure ?_
    obtain ⟨opcode, selected, built, allKnown⟩ := known _ rfl
    exact Operation.covered_grows _ _ _ (Operation.covered_of_known built allKnown)
      fun _ inside => by simp [inside]

/-! ## Regions -/

theorem blockHeader (regions : Regions region) :
    Traced (Parser.blockHeader region) fun _ draft => draft.ops = [] := by
  refine look fun start => ?_
  refine (Grammar.parse_traced start Region.covered_grows regions _
    Grammar.blockHeader_lawful).weaken.andThen fun _ found => ?_
  obtain ⟨label, args⟩ := found
  exact look fun now => .pure rfl

theorem reportAfterTerminator (kind : RegionKind) (op : Operation) :
    Traced (Parser.reportAfterTerminator kind op) fun _ _ => True :=
  report rfl

theorem reportTerminator (kind : RegionKind) (op : Operation) :
    Traced (Parser.reportTerminator kind op) fun _ _ => True :=
  report rfl

theorem reportUnterminated (kind : RegionKind) (implicitTerminator : Bool)
    (blocks : List (Block Operation)) (closing : Span) :
    Traced (Parser.reportUnterminated kind implicitTerminator blocks closing)
      fun _ _ => True := by
  refine ite (fun _ => .pure trivial) fun _ input state => ?_
  let found := (blocks.filter (·.terminator.isNone)).map (unterminatedBlock kind closing)
  have others : found.filter Diagnostic.isUnresolved = [] := by
    apply List.filter_eq_nil_iff.2
    intro diagnostic member
    obtain ⟨block, _, rfl⟩ := List.mem_map.1 member
    exact Bool.false_ne_true
  refine ⟨[], [], found, ⟨⟨0, rfl⟩, rfl, ?_, [], [], .refl, List.nil_sublist _, others⟩,
    fun _ _ => trivial⟩
  simp [Parser.change, Diagnostics.append, found]

theorem reportUnclosed (kind : RegionKind) (opening : Span) :
    Traced (Parser.reportUnclosed kind opening) fun _ _ => True :=
  look fun _ => (report rfl).andThen fun _ _ => halt

/-- The operations read so far are covered. -/
def CoveredProgress (uses : List Reference) (progress : Progress) : Prop :=
  (∀ block ∈ progress.closed, ∀ op ∈ block.ops, op.Covered uses) ∧
    ∀ op ∈ progress.current.ops, op.Covered uses

theorem coveredProgress_grows : Grows CoveredProgress := by
  rintro uses more progress ⟨closed, current⟩ larger
  constructor
  · exact fun block inside op member =>
      Operation.covered_grows _ _ _ (closed block inside op member) larger
  · exact fun op member => Operation.covered_grows _ _ _ (current op member) larger

theorem coveredProgress_next {uses : List Reference} {progress : Progress} {draft : BlockDraft}
    (covered : CoveredProgress uses progress) (fresh : draft.ops = []) :
    CoveredProgress uses (progress.next draft) := by
  constructor
  · intro block member op inside
    rcases List.mem_cons.1 member with rfl | old
    · exact covered.2 op (List.mem_reverse.1 inside)
    · exact covered.1 block old op inside
  · intro op inside
    rw [Progress.next, fresh] at inside
    cases inside

theorem coveredProgress_nextLabeled {uses : List Reference} {progress : Progress}
    {draft : BlockDraft} (covered : CoveredProgress uses progress) (fresh : draft.ops = []) :
    CoveredProgress uses (progress.nextLabeled draft) := by
  unfold Progress.nextLabeled
  split
  · refine ⟨covered.1, ?_⟩
    intro op inside
    rw [fresh] at inside
    cases inside
  · exact coveredProgress_next covered fresh

theorem coveredProgress_push {uses : List Reference} {progress : Progress} {op : Operation}
    (covered : CoveredProgress uses progress) (new : op.Covered uses) :
    CoveredProgress uses (progress.push op) := by
  have pushed : ∀ {progress : Progress}, CoveredProgress uses progress →
      CoveredProgress uses { progress with current := progress.current.push op } := by
    rintro progress ⟨closed, current⟩
    refine ⟨closed, ?_⟩
    intro other member
    rcases List.mem_cons.1 member with rfl | old
    · exact new
    · exact current other old
  unfold Progress.push
  split
  · exact pushed (coveredProgress_next covered rfl)
  · exact pushed covered

theorem covered_blocks {uses : List Reference} {progress : Progress}
    (covered : CoveredProgress uses progress) :
    ∀ block ∈ progress.blocks, ∀ op ∈ block.ops, op.Covered uses := by
  intro block member op inside
  rcases List.mem_cons.1 (List.mem_reverse.1 member) with rfl | closed
  · exact covered.2 op (List.mem_reverse.1 inside)
  · exact covered.1 block closed op inside

theorem place (kind : RegionKind) {progress : Progress} {op : Operation} {uses : List Reference}
    (covered : CoveredProgress uses progress) (new : op.Covered uses) :
    Traced (Parser.place kind progress op) fun more progress =>
      CoveredProgress (uses ++ more) progress := by
  have pushed : ∀ more, CoveredProgress (uses ++ more) (progress.push op) := fun more =>
    coveredProgress_grows _ _ _ (coveredProgress_push covered new) (by simp)
  refine ite (fun _ => (reportAfterTerminator kind op).andThen fun _ _ => ?_) fun _ => ?_
  · exact ite (fun _ => (reportTerminator kind op).andThen fun _ _ => .pure (pushed _))
      fun _ => .pure (pushed _)
  · exact ite (fun _ => (reportTerminator kind op).andThen fun _ _ => .pure (pushed _))
      fun _ => .pure (pushed _)

/-- The operations of the blocks of a region are covered. -/
def CoveredBlocks (uses : List Reference) (read : List (Block Operation) × Span) : Prop :=
  ∀ block ∈ read.1, ∀ op ∈ block.ops, op.Covered uses

/-- One step through the blocks of a region keeps all operations covered. -/
theorem blockStep (regions : Regions region) (kind : RegionKind) (opening : Span)
    {uses : List Reference} {progress : Progress} (covered : CoveredProgress uses progress) :
    Traced (Parser.blockStep region kind opening progress) fun more outcome =>
      Ends CoveredProgress CoveredBlocks (uses ++ more) outcome := by
  have grown : ∀ more, CoveredProgress (uses ++ more) progress := fun more =>
    coveredProgress_grows _ _ _ covered (by simp)
  refine look fun start => look fun halted => ite (fun _ => fail) fun _ => ?_
  refine ite (fun _ => skip.andThen fun _ _ => .pure (covered_blocks (grown _))) fun _ => ?_
  refine ite (fun _ => (reportUnclosed kind opening).andThen fun _ _ => fail) fun _ => ?_
  refine ite (fun _ => ?_) fun _ => ?_
  · refine (blockHeader regions).attempt.bind fun others read fresh => ?_
    cases read with
    | some draft =>
      exact .pure (coveredProgress_nextLabeled (grown _) (fresh draft rfl))
    | none => exact (resynchronize start).andThen fun _ _ => .pure (grown _)
  · refine (operation regions).attempt.bind fun others read new => ?_
    cases read with
    | some op =>
      refine (place kind (grown others) ?_).map fun more progress known => ?_
      · exact Operation.covered_grows _ _ _ (new op rfl) (by simp)
      · rw [← List.append_assoc]
        exact known
    | none => exact (resynchronize start).andThen fun _ _ => .pure (grown _)

theorem blocks (regions : Regions region) (kind : RegionKind) (implicitTerminator : Bool)
    (opening : Span) :
    Traced (Parser.blocks region kind implicitTerminator opening) Region.Covered := by
  refine look fun scope => look fun first => ?_
  have start : CoveredProgress [] { current := .startingAt first.span.start } :=
    ⟨by simp, by simp [BlockDraft.startingAt]⟩
  refine (iterate start fun uses progress covered =>
    blockStep regions kind opening covered).bind fun uses found covered => ?_
  obtain ⟨blocks, closing⟩ := found
  refine (reportUnterminated kind implicitTerminator blocks closing).andThen fun more _ => .pure ?_
  intro op inside
  obtain ⟨block, member, inBlock⟩ := List.mem_flatMap.1 inside
  exact Operation.covered_grows _ _ _ (covered block member op inBlock) (by simp)

theorem tooDeep {post : List Reference → Region Operation → Prop} :
    Traced Parser.tooDeep post :=
  options.andThen fun _ _ => (reportExpected _).andThen fun _ _ => halt.andThen fun _ _ => fail

theorem regionWithin (levels : Nat) : Regions (Parser.regionWithin levels) := by
  induction levels with
  | zero =>
    intro kind implicitTerminator
    exact checkHalted.andThen fun _ halted => ite (fun _ => fail) fun _ => tooDeep
  | succ levels ih =>
    intro kind implicitTerminator
    refine checkHalted.andThen fun _ halted => ite (fun _ => fail) fun _ => ?_
    refine (punct .leftBrace).andThen fun _ opening => ?_
    refine (blocks ih kind implicitTerminator opening.span).mono
      fun uses region covered op inside => ?_
    exact Operation.covered_grows _ _ _ (covered op inside) (by simp)

/-! ## Source units -/

theorem declaration (regions : Regions region) :
    Traced (Parser.declaration region) Operation.Covered :=
  look fun _ => ite (fun _ => operation regions) fun _ => expected _

theorem items (regions : Regions region) (braced : Bool) :
    Traced (Parser.items region braced) fun uses items => ∀ op ∈ items, op.Covered uses := by
  apply collect Operation.covered_grows
  refine checkHalted.andThen fun _ halted => look fun start => ?_
  refine ite (fun _ => .pure (by rintro _ ⟨⟩)) fun _ => ?_
  refine (declaration regions).attempt.bind fun uses read covered => ?_
  cases read with
  | some op =>
    refine .pure ?_
    rintro _ ⟨⟩
    exact Operation.covered_grows _ _ _ (covered op rfl) (by simp)
  | none =>
    exact (resynchronize start).andThen fun _ _ => look fun _ => .pure (by rintro _ ⟨⟩)

theorem unitHeader (start : Cursor) : Traced (Parser.unitHeader start) fun _ _ => True := by
  refine look fun here => ite (fun _ => skip.andThen fun _ _ => ?_) fun _ => ?_
  all_goals
    refine andThen (.pure trivial) fun _ name => look fun now => ?_
    refine ite (fun _ => skip.andThen fun _ _ => ?_) fun _ => ?_
  · exact (attributeOf _).attempt.weaken.andThen fun _ _ => look fun _ => .pure trivial
  · exact andThen (.pure trivial) fun _ _ => look fun _ => .pure trivial
  · exact (attributeOf _).attempt.weaken.andThen fun _ _ => look fun _ => .pure trivial
  · exact andThen (.pure trivial) fun _ _ => look fun _ => .pure trivial

theorem moduleEnd (opening : Token) : Traced (Parser.moduleEnd opening) fun _ _ => True := by
  refine look fun here => ite (fun _ => ?_) fun _ => report rfl
  refine skip.andThen fun _ _ => look fun now => ite (fun _ => ?_) fun _ => .pure trivial
  exact reportExpected _

theorem sourceUnit (regions : Regions region) :
    Traced (Parser.sourceUnit region) fun uses found => ∀ op ∈ found.2, op.Covered uses := by
  refine look fun start => ite (fun _ => ?_) fun _ => ?_
  · refine skip.andThen fun _ _ => (unitHeader start).andThen fun _ header => ?_
    refine (punct .leftBrace).attempt.weaken.andThen fun _ opening => ?_
    refine (items regions opening.isSome).bind fun uses ops covered => ?_
    cases opening with
    | none =>
      exact .pure fun op member =>
        Operation.covered_grows _ _ _ (covered op member) fun _ inside => by simp [inside]
    | some brace =>
      refine look fun halted => ite (fun _ => (moduleEnd brace).andThen fun _ _ => ?_) fun _ => ?_
      · exact .pure fun op member =>
          Operation.covered_grows _ _ _ (covered op member) fun _ inside => by simp [inside]
      · exact .pure fun op member =>
          Operation.covered_grows _ _ _ (covered op member) fun _ inside => by simp [inside]
  · refine (items regions false).bind fun uses ops covered => .pure ?_
    rw [List.append_nil]
    exact covered

end Parser.Traced

end CirText
