import CirText.Proofs.Grammar.Laid
import CirText.Proofs.Grammar.Reads
import CirText.Proofs.Parser.Uses

/-!
# What the parser of a grammar sees

Whatever a grammar gives, whether the source text is well-formed or not, is laid in the text that
has been read for it. This goes by the constructors of grammars, with a rule for each kind of list.
-/

namespace CirText

namespace Parser

variable {α : Type} {text : List Char} {facts : SymbolTable → Region Operation → Prop}
  {before after : Stage}

/-! ## Items of lists -/

/-- Items that are laid one after the other. -/
def LaidAll (text : List Char) (facts : SymbolTable → Region Operation → Prop)
    (extents : α → List Extent) (entries : α → List (Entry (Region Operation))) (before : Stage)
    (items : List α) (after : Stage) : Prop :=
  Laid text facts before (items.flatMap extents) (items.flatMap entries) after

namespace LaidAll

variable {extents : α → List Extent} {entries : α → List (Entry (Region Operation))}
    {middle : Stage}
  {items : List α}

theorem nil (stretch : Stage.Stretch text before after) :
    LaidAll text facts extents entries before [] after :=
  Laid.nil stretch

theorem trans {more : List α} (left : LaidAll text facts extents entries before items middle)
    (right : LaidAll text facts extents entries middle more after) :
    LaidAll text facts extents entries before (items ++ more) after := by
  unfold LaidAll
  rw [List.flatMap_append, List.flatMap_append]
  exact Laid.trans left right

theorem one {a : α} (laid : Laid text facts before (extents a) (entries a) after) :
    LaidAll text facts extents entries before [a] after := by
  unfold LaidAll
  rw [List.flatMap_singleton, List.flatMap_singleton]
  exact laid

theorem concat {a : α} (left : LaidAll text facts extents entries before items middle)
    (right : Laid text facts middle (extents a) (entries a) after) :
    LaidAll text facts extents entries before (items ++ [a]) after :=
  left.trans (one right)

theorem onward (laid : LaidAll text facts extents entries before items middle)
    (stretch : Stage.Stretch text middle after) :
    LaidAll text facts extents entries before items after :=
  Laid.onward laid stretch

end LaidAll

namespace Sees

variable {item : Parser α} {extents : α → List Extent}
  {entries : α → List (Entry (Region Operation))}

/-- What an item of a list is found to be from a stage on. -/
def LaysItem (text : List Char) (facts : SymbolTable → Region Operation → Prop) (item : Parser α)
    (extents : α → List Extent) (entries : α → List (Entry (Region Operation))) (stage : Stage) :
    Prop :=
  Sees text stage item fun a after => Laid text facts stage (extents a) (entries a) after

/-- The items after the first one, each with a comma in front. -/
theorem tail (each : ∀ stage, before.Onward stage →
    LaysItem text facts item extents entries stage) :
    Sees text before
      (Parser.collect do
        if ← Parser.eat .comma then
          Pure.pure (some (← item), true)
        else
          Pure.pure (none, false))
      (LaidAll text facts extents entries before) := by
  apply ofPlaced
  intro placed
  apply collect (LaidAll.nil (.refl placed))
  intro items stage onward sofar
  apply eat.bind
  intro eaten middle placedMiddle toMiddle _
  have stretch : Stage.Stretch text stage middle := ⟨sofar.stretch.stop, placedMiddle, toMiddle⟩
  apply ite
  · intro _
    apply (each middle (onward.trans toMiddle)).bind
    intro a last _ _ laid
    exact pure ((sofar.onward stretch).concat laid)
  · intro _
    apply pure
    rw [Option.toList_none, List.append_nil]
    exact sofar.onward stretch

/-- A list of at least one item is not empty if its items are not. -/
theorem separated {consumes : Prop}
    (each : ∀ stage, before.Onward stage → Sees text stage item fun a after =>
      Laid text facts stage (extents a) (entries a) after ∧
        (consumes → after.rest.length < stage.rest.length)) :
    Sees text before (Parser.separated item) fun found after =>
      LaidAll text facts extents entries before (found.1 :: found.2) after ∧
        (consumes → after.rest.length < before.rest.length) := by
  apply (each before (.refl before)).bind
  intro head middle _ onward first
  apply (tail fun stage further => (each stage (onward.trans further)).mono
    fun a after _ _ found => found.1).bind
  intro rest last _ toLast others
  exact pure ⟨(LaidAll.one first.1).trans others,
    fun consumes => Nat.lt_of_le_of_lt toLast.length_le (first.2 consumes)⟩

theorem listed
    (each : ∀ stage, before.Onward stage → LaysItem text facts item extents entries stage) :
    Sees text before (Parser.listed item) (LaidAll text facts extents entries before) := by
  apply ofPlaced
  intro placed
  apply cursor
  apply ite
  · intro _
    exact pure (LaidAll.nil (.refl placed))
  · intro _
    have both : ∀ stage, before.Onward stage → Sees text stage item fun a after =>
        Laid text facts stage (extents a) (entries a) after ∧
          (False → after.rest.length < stage.rest.length) := fun stage onward =>
      (each stage onward).mono fun a after _ _ laid => ⟨laid, False.elim⟩
    apply (separated both).bind
    intro found last _ _ laid
    exact pure laid.1

theorem listedWithEllipsis
    (each : ∀ stage, before.Onward stage → LaysItem text facts item extents entries stage) :
    Sees text before (Parser.listedWithEllipsis item) fun found after =>
      LaidAll text facts extents entries before found.1 after := by
  apply ofPlaced
  intro placed
  let sofar : List α → Stage → Prop := fun items after =>
    LaidAll text facts extents entries before items.reverse after
  have start : sofar [] before := LaidAll.nil (.refl placed)
  apply cursor
  apply ite
  · intro _
    exact pure start
  · intro _
    apply iterate start
    intro items stage onward laid
    apply eat.bind
    intro ended middle placedMiddle toMiddle _
    have stretch : Stage.Stretch text stage middle := ⟨laid.stretch.stop, placedMiddle, toMiddle⟩
    apply ite
    · intro _
      exact pure (laid.onward stretch)
    · intro _
      apply (each middle (onward.trans toMiddle)).bind
      intro a next _ toNext last
      have both : sofar (a :: items) next := by
        unfold sofar
        rw [List.reverse_cons]
        exact (laid.onward stretch).concat last
      apply eat.bind
      intro comma further placedFurther toFurther _
      have rest : sofar (a :: items) further :=
        both.onward ⟨both.stretch.stop, placedFurther, toFurther⟩
      apply ite
      · intro _
        exact pure rest
      · intro _
        exact pure rest

theorem bracketed {separator : Separator}
    (each : ∀ stage, before.Onward stage → LaysItem text facts item extents entries stage) :
    Sees text before (Parser.bracketed separator item) fun items after =>
      LaidAll text facts extents entries before items after ∧
        after.rest.length < before.rest.length := by
  apply ofPlaced
  intro placed
  apply punct.bind
  rintro opening inside placedInside onward ⟨_, passes⟩
  have shorter := Grammar.progresses_passes passes
  suffices loop :
      Sees text inside (Parser.collect _) (LaidAll text facts extents entries before) from
    loop.mono fun items after _ toAfter laid =>
      ⟨laid, Nat.lt_of_le_of_lt toAfter.length_le shorter⟩
  apply collect (LaidAll.nil ⟨placed, placedInside, onward⟩)
  intro items stage onwardStage sofar
  apply eat.bind
  intro ended middle placedMiddle toMiddle _
  have stretch : Stage.Stretch text stage middle := ⟨sofar.stretch.stop, placedMiddle, toMiddle⟩
  apply ite
  · intro _
    apply pure
    rw [Option.toList_none, List.append_nil]
    exact sofar.onward stretch
  · intro _
    apply cursor
    apply ite
    · intro _
      exact expected
    · intro _
      apply (each middle ((onward.trans onwardStage).trans toMiddle)).bind
      intro a next _ toNext laid
      have both := (sofar.onward stretch).concat laid
      apply ite
      · intro _
        apply eat.bind
        intro comma further placedFurther toFurther _
        exact pure (both.onward ⟨both.stretch.stop, placedFurther, toFurther⟩)
      · intro _
        exact pure both

theorem repeated {next : Guard}
    (each : ∀ stage, before.Onward stage → LaysItem text facts item extents entries stage) :
    Sees text before (Parser.repeated next item) (LaidAll text facts extents entries before) := by
  apply ofPlaced
  intro placed
  apply collect (LaidAll.nil (.refl placed))
  intro items stage onward sofar
  apply cursor
  apply ite
  · intro _
    apply (each stage onward).bind
    intro a middle _ toMiddle laid
    have both := sofar.concat laid
    apply eat.bind
    intro comma further placedFurther toFurther _
    exact pure (both.onward ⟨both.stretch.stop, placedFurther, toFurther⟩)
  · intro _
    apply pure
    rw [Option.toList_none, List.append_nil]
    exact sofar

/-! ## Places and names -/

theorem keeps_token (placed : before.Placed text) {found : Token}
    (passes : before.Passes found after) :
    Stage.Keeps text before after (Lexeme.extent ⟨found.text, found.span⟩) where
  covers := placed.covers passes
  text := by
    rintro _ ⟨⟩
    exact (placed.passes passes).1.text

theorem namedAttribute : Sees text before Parser.namedAttribute fun value after =>
    Stage.Keeps text before after value.extent ∧ after.rest.length < before.rest.length := by
  have ofForm : ∀ form, Sees text before (Parser.attributeOf form) fun value after =>
      Stage.Keeps text before after value.extent ∧ after.rest.length < before.rest.length :=
    fun form => attributeOf.mono fun value after _ _ read =>
      ⟨⟨read.1.1, by rintro _ ⟨⟩; exact read.1.2⟩, read.2⟩
  apply cursor
  apply ite
  · intro _
    exact ofForm .aliasName
  · intro _
    apply ite
    · intro _
      exact ofForm .dialect
    · intro _
      exact expected

theorem trailingAttribute : Sees text before Parser.trailingAttribute fun found after =>
    ∀ value ∈ found, Stage.Keeps text before after value.extent := by
  have ofForm : ∀ form, Sees text before (some <$> Parser.attributeOf form) fun found after =>
      ∀ value ∈ found, Stage.Keeps text before after value.extent := by
    intro form
    apply map
    apply attributeOf.mono
    rintro value after _ _ read _ ⟨⟩
    exact ⟨read.1.1, by rintro _ ⟨⟩; exact read.1.2⟩
  apply cursor
  apply ite
  · intro _
    exact ofForm .aliasName
  · intro _
    apply ite
    · intro _
      exact ofForm .dictionary
    · intro _
      exact pure (by rintro _ ⟨⟩)

/-- A use of a name that has been noted is one of the current scope. -/
theorem names_of_refers (placed : before.Placed text) {kind : NameKind} {used : Reference}
    (refers : before.Refers kind used after) :
    Stage.Names text before after (.here (.reference used)) ∧
      after.rest.length < before.rest.length := by
  obtain ⟨found, _, rest, rfl, rfl⟩ := refers
  have passes : before.Passes found before.next := ⟨rest, rfl⟩
  have covered := placed.covers passes
  have noted : (before.tracker.refer kind found.name found.span).1 =
      ⟨kind, found.name, found.span, before.scope⟩ := by
    cases kind <;> rfl
  have shorter := Grammar.progresses_passes passes
  rw [noted]
  refine ⟨⟨?_, ?_, rfl, by rintro _ ⟨⟩⟩, shorter⟩
  · rintro _ (_ | ⟨_, ⟨⟩⟩)
    exact ⟨covered.on, covered.start, covered.stop⟩
  · rintro _ ⟨⟩
    rfl

/-- A name that has been defined, at a token that has been passed before. -/
theorem names_of_define {first middle : Stage} (placed : first.Placed text) {kind : NameKind}
    {found : Token} (passes : first.Passes found middle) {defined : Definition}
    (span : defined.span = found.span) (scope : kind ≠ .symbol → defined.scope = first.scope) :
    ∀ entry ∈ (Grammar.definition (R := Region Operation) kind).entries defined,
      Stage.Names text first middle entry := by
  have covered : Stage.Covers text first middle defined.span := span ▸ placed.covers passes
  have known : ∀ {entry : Entry (Region Operation)}, entry.mentions = [.definition defined] →
      ∀ mention ∈ entry.mentions, Stage.Covers text first middle mention.span := by
    intro entry only mention member
    rw [only] at member
    rw [List.mem_singleton.1 member]
    exact covered
  intro entry member
  cases kind with
  | value | label =>
    rw [List.mem_singleton.1 member]
    refine ⟨known rfl, ?_, rfl, by rintro _ ⟨⟩⟩
    rintro _ ⟨⟩
    exact scope (by rintro ⟨⟩)
  | «symbol» =>
    rw [List.mem_singleton.1 member]
    exact ⟨known rfl, by rintro _ ⟨⟩, rfl, by rintro _ ⟨⟩⟩

/-! ## Modifiers -/

/-- Whether a modifier has been read between two stages. -/
def ReadsModifier (text : List Char) (before after : Stage) (modifier : Modifier) : Prop :=
  (∀ extent ∈ modifier.extents, Stage.Keeps text before after extent) ∧
    ∀ entry ∈ modifier.entries, Stage.Names text before after entry

theorem ReadsModifier.widen {first last : Stage} {modifier : Modifier}
    (reads : ReadsModifier text before after modifier) (left : Stage.Stretch text first before)
    (right : Stage.Stretch text after last) : ReadsModifier text first last modifier :=
  ⟨fun extent member => (reads.1 extent member).widen left right,
    fun entry member => (reads.2 entry member).widen left right⟩

theorem argumentOf (kind : ArgumentKind) :
    Sees text before (Parser.argumentOf kind) fun argument after =>
      (∀ extent ∈ argument.extents, Stage.Keeps text before after extent) ∧
        ∀ entry ∈ argument.entries, Stage.Names text before after entry := by
  apply ofPlaced
  intro placed
  have ofToken : ∀ kind what, kind ≠ .endOfInput →
      Sees text before (do
        let found ← Parser.token kind what
        Pure.pure (Argument.lexeme ⟨found.text, found.span⟩)) fun argument after =>
        (∀ extent ∈ argument.extents, Stage.Keeps text before after extent) ∧
          ∀ entry ∈ argument.entries, Stage.Names text before after entry := by
    intro kind what real
    apply (token real).bind
    rintro found after _ _ ⟨_, passes⟩
    refine pure ⟨?_, by rintro _ ⟨⟩⟩
    rintro _ (_ | ⟨_, ⟨⟩⟩)
    exact keeps_token placed passes
  cases kind with
  | word => exact ofToken _ _ (by rintro ⟨⟩)
  | integer => exact ofToken _ _ (by rintro ⟨⟩)
  | «symbol» =>
    apply map
    apply refer.mono
    intro used after _ _ refers
    refine ⟨by rintro _ ⟨⟩, ?_⟩
    rintro _ (_ | ⟨_, ⟨⟩⟩)
    exact (names_of_refers placed refers).1
  | «attribute» =>
    apply map
    apply namedAttribute.mono
    intro value after _ _ read
    refine ⟨?_, by rintro _ ⟨⟩⟩
    rintro _ (_ | ⟨_, ⟨⟩⟩)
    exact read.1

theorem modifierArgument (rule : ModifierRule) :
    Sees text before (Parser.modifierArgument rule.argument) fun argument after =>
      ReadsModifier text before after ⟨rule, argument⟩ := by
  have bare : ∀ after, ReadsModifier text before after ⟨rule, none⟩ := fun _ =>
    ⟨by rintro _ ⟨⟩, by rintro _ ⟨⟩⟩
  cases form : rule.argument with
  | none => exact pure (bare _)
  | some brackets =>
    apply ofPlaced
    intro placed
    apply cursor
    apply ite
    · intro _
      exact pure (bare _)
    · intro _
      apply punct.bind
      intro opening inside placedInside toInside _
      apply (argumentOf brackets.kind).bind
      intro argument middle placedMiddle _ read
      apply punct.bind
      intro closing after placedAfter toAfter _
      have left : Stage.Stretch text before inside := ⟨placed, placedInside, toInside⟩
      have right : Stage.Stretch text middle after := ⟨placedMiddle, placedAfter, toAfter⟩
      apply pure
      constructor
      · intro extent member
        have inArgument : extent ∈ argument.extents := by simpa [Modifier.extents] using member
        exact (read.1 extent inArgument).widen left right
      · intro entry member
        have inArgument : entry ∈ argument.entries := by
          simpa [Modifier.entries, form] using member
        exact (read.2 entry inArgument).widen left right

theorem reportRepeated (rule earlier : ModifierRule) {span : Span} (on : span.On text) :
    Sees text before (Parser.reportRepeated rule earlier span) fun _ after => after = before := by
  apply look
  intro construct
  exact report (Diagnostic.on_errorWithFix on on (by rintro _ _ ⟨⟩))

/-- Every modifier that is kept has been read, and each slot is filled once. -/
theorem modifierRun (rules : List ModifierRule) :
    Sees text before (Parser.modifierRun rules) fun modifiers after =>
      (∀ modifier ∈ modifiers, ReadsModifier text before after modifier) ∧
        ModifierTable.Run rules modifiers := by
  let sofar : List Modifier → Stage → Prop := fun modifiers after =>
    Stage.Stretch text before after ∧ ∀ modifier ∈ modifiers,
      ReadsModifier text before after modifier
  suffices loop : Sees text before (Parser.modifierRun rules) sofar from
    (loop.andTraced (Traced.modifierRun rules)).mono fun modifiers after _ _ found =>
      ⟨found.1.2, found.2.elim fun _ traced => traced.1⟩
  apply ofPlaced
  intro placed
  have start : sofar [] before := ⟨.refl placed, by rintro _ ⟨⟩⟩
  apply iterate start
  intro modifiers stage onward read
  apply cursor
  cases rules.find? fun rule => stage.cursor.atWord rule.keyword with
  | none => exact pure read
  | some rule =>
    apply skip.bind
    rintro _ next placedNext toNext rfl
    apply (modifierArgument rule).bind
    intro argument last placedLast toLast found
    have skipped : Stage.Stretch text stage stage.next := ⟨read.1.stop, placedNext, toNext⟩
    have rest : Stage.Stretch text stage last := ⟨read.1.stop, placedLast, toNext.trans toLast⟩
    have earlier : sofar modifiers last :=
      ⟨read.1.trans rest, fun modifier member =>
        (read.2 modifier member).widen (.refl placed) rest⟩
    cases ModifierTable.filling? modifiers rule.slot with
    | some filled =>
      apply cursor
      apply (reportRepeated rule filled.rule (rest.onward.spanBetween_on rest.start)).bind
      rintro _ _ _ _ rfl
      exact pure earlier
    | none =>
      apply pure
      refine ⟨earlier.1, ?_⟩
      intro modifier member
      rcases List.mem_append.1 member with old | new
      · exact earlier.2 modifier old
      · rw [List.mem_singleton.1 new]
        exact found.widen (read.1.trans skipped) (.refl placedLast)

end Sees

end Parser

namespace Grammar

variable {R : Type}

/-- Whether a grammar never asks for the end of input, gives a place only to what is not empty, and
has at most one region in each scope of its own. -/
def orderly : {α : Type} → Grammar R α → Bool
  | _, .lexeme kind _ => kind != .endOfInput
  | _, .spanned inner => inner.consumes && inner.orderly
  | _, .inScope inner => inner.flat true && inner.orderly
  | _, .seq first second | _, .choice _ first second => first.orderly && second.orderly
  | _, .view _ inner | _, .optional _ inner | _, .separated inner | _, .listed inner
  | _, .listedWithEllipsis inner | _, .bracketed _ inner | _, .repeated _ inner
  | _, .binder _ inner | _, .recommended _ _ inner => inner.orderly
  | _, _ => true

theorem body_orderly (opcode : Opcode) (form : Form) :
    (body (R := R) opcode form).orderly = true := by
  unfold body
  split <;> rfl

theorem blockHeader_orderly : (blockHeader (R := R)).orderly = true :=
  rfl

section Sees

open CirText.Parser

variable {text : List Char} {facts : SymbolTable → Region Operation → Prop} {start : Cursor}
  {region : RegionKind → Bool → Parser (Region Operation)} {before : Stage} {α β : Type}
  {first inner : Grammar (Region Operation) α} {second : Grammar (Region Operation) β}

/-- Whether whatever the parser of a grammar gives from a stage on is laid in the text that has been
read for it. -/
def SeesFrom (text : List Char) (facts : SymbolTable → Region Operation → Prop) (start : Cursor)
    (region : RegionKind → Bool → Parser (Region Operation))
    (grammar : Grammar (Region Operation) α)
    (before : Stage) : Prop :=
  Sees text before (grammar.parse start region) fun a after =>
    Laid text facts before (grammar.extents a) (grammar.entries a) after ∧
      (grammar.consumes = true → after.rest.length < before.rest.length)

/-! ### Tokens and names -/

theorem sees_blank : SeesFrom text facts start region blank before := by
  apply Sees.ofPlaced
  intro here
  exact .pure ⟨.nil (.refl here), by rintro ⟨⟩⟩

theorem sees_punct (mark : Punct) : SeesFrom text facts start region (punct mark) before := by
  apply Sees.ofPlaced
  intro here
  apply Sees.punct.bind
  rintro found after there further ⟨_, passes⟩
  exact .pure ⟨.nil ⟨here, there, further⟩, fun _ => progresses_passes passes⟩

theorem sees_word (word : String) : SeesFrom text facts start region (.word word) before := by
  apply Sees.ofPlaced
  intro here
  apply Sees.word.bind
  rintro found after there further ⟨_, passes⟩
  exact .pure ⟨.nil ⟨here, there, further⟩, fun _ => progresses_passes passes⟩

theorem sees_lexeme {kind : TokenKind} (what : String) (real : kind ≠ .endOfInput) :
    SeesFrom text facts start region (lexeme kind what) before := by
  apply Sees.ofPlaced
  intro here
  apply (Sees.token real).bind
  rintro found after there further ⟨_, passes⟩
  exact .pure ⟨.extent ⟨here, there, further⟩ (Sees.keeps_token here passes), fun _ =>
    progresses_passes passes⟩

theorem sees_oneOf (words : List String) (what : String) :
    SeesFrom text facts start region (oneOf words what) before := by
  have real : ∀ offset, words.any (Token.endAt offset).isWord = false := by
    intro offset
    rw [List.any_eq_false]
    intro word _
    exact Bool.false_ne_true
  apply Sees.ofPlaced
  intro here
  apply (Sees.satisfying real).bind
  rintro found after there further ⟨_, passes⟩
  exact .pure ⟨.extent ⟨here, there, further⟩ (Sees.keeps_token here passes), fun _ =>
    progresses_passes passes⟩

theorem sees_name (kind : NameKind) : SeesFrom text facts start region (name kind) before := by
  apply Sees.ofPlaced
  intro here
  apply Sees.refer.mono
  intro used after there further refers
  have found := Sees.names_of_refers here refers
  exact ⟨.name ⟨here, there, further⟩ found.1, fun _ => found.2⟩

theorem sees_definition (kind : NameKind) :
    SeesFrom text facts start region (definition kind) before := by
  apply Sees.ofPlaced
  intro here
  apply (Sees.token (Means.nameToken_ne kind)).bind
  rintro found middle there further ⟨_, passes⟩
  have token := here.passes passes
  apply (Sees.define token.1.span).mono
  intro defined after placedAfter toAfter found
  have stretch : Stage.Stretch text before middle := ⟨here, there, further⟩
  have rest : Stage.Stretch text middle after := ⟨there, placedAfter, toAfter⟩
  have scope : kind ≠ .symbol → defined.scope = before.scope := fun notSymbol =>
    (found.2.1 notSymbol).trans further.scope_eq
  have names := Sees.names_of_define here passes found.1 scope
  exact ⟨(Laid.ofNames stretch (by rintro _ ⟨⟩) names).onward rest,
    fun _ => Nat.lt_of_le_of_lt toAfter.length_le (progresses_passes passes)⟩

/-! ### Types and attributes -/

theorem sees_type : SeesFrom text facts start region type before := by
  apply Sees.ofPlaced
  intro here
  apply Sees.type.mono
  intro written after there further read
  refine ⟨.extent ⟨here, there, further⟩ ⟨read.1.1, ?_⟩, fun _ => read.2⟩
  rintro _ ⟨⟩
  exact read.1.2

theorem sees_attributeOf (form : AttributeForm) :
    SeesFrom text facts start region (attributeOf form) before := by
  apply Sees.ofPlaced
  intro here
  apply Sees.attributeOf.mono
  intro written after there further read
  refine ⟨.extent ⟨here, there, further⟩ ⟨read.1.1, ?_⟩, fun _ => read.2⟩
  rintro _ ⟨⟩
  exact read.1.2

theorem sees_namedAttribute : SeesFrom text facts start region namedAttribute before := by
  apply Sees.ofPlaced
  intro here
  apply Sees.namedAttribute.mono
  intro value after there further read
  exact ⟨.extent ⟨here, there, further⟩ read.1, fun _ => read.2⟩

theorem sees_trailingAttribute : SeesFrom text facts start region trailingAttribute before := by
  apply Sees.ofPlaced
  intro here
  apply Sees.trailingAttribute.mono
  intro found after there further read
  refine ⟨Laid.ofNames ⟨here, there, further⟩ ?_ (by rintro _ ⟨⟩), by rintro ⟨⟩⟩
  intro extent member
  obtain ⟨value, given, rfl⟩ := List.mem_map.1 member
  exact read value (Option.mem_toList.1 given)

theorem sees_modifierRun {S : Type} {table : ModifierTable S}
    (lawful : (modifierRun (R := Region Operation) table).Lawful) :
    SeesFrom text facts start region (modifierRun table) before := by
  apply Sees.ofPlaced
  intro here
  apply Sees.map
  apply (Sees.modifierRun table.rules).mono
  rintro modifiers after there further ⟨read, run⟩
  have same := lawful modifiers run
  refine ⟨.ofNames ⟨here, there, further⟩ ?_ ?_, by rintro ⟨⟩⟩
  · intro extent member
    obtain ⟨modifier, listed, inside⟩ := List.mem_flatMap.1 member
    exact (read modifier (same.mem_iff.1 listed)).1 extent inside
  · intro entry member
    obtain ⟨modifier, listed, inside⟩ := List.mem_flatMap.1 member
    exact (read modifier (same.mem_iff.1 listed)).2 entry inside

/-! ### Combinations -/

theorem sees_seq (seesFirst : SeesFrom text facts start region first before)
    (seesSecond : ∀ {middle}, before.Onward middle →
      SeesFrom text facts start region second middle) :
    SeesFrom text facts start region (seq first second) before := by
  apply seesFirst.bind
  rintro a middle _ toMiddle ⟨laidFirst, fewerFirst⟩
  apply (seesSecond toMiddle).bind
  rintro b after _ toAfter ⟨laidSecond, fewerSecond⟩
  refine .pure ⟨laidFirst.trans laidSecond, fun consumes => ?_⟩
  rcases Bool.or_eq_true_iff.1 consumes with consumes | consumes
  · exact Nat.lt_of_le_of_lt toAfter.length_le (fewerFirst consumes)
  · exact Nat.lt_of_lt_of_le (fewerSecond consumes) toMiddle.length_le

theorem sees_optional (present : Guard) (sees : SeesFrom text facts start region inner before) :
    SeesFrom text facts start region (optional present inner) before := by
  apply Sees.ofPlaced
  intro here
  apply Sees.cursor
  apply Sees.ite
  · intro _
    apply Sees.map
    exact sees.mono fun a after _ _ found => ⟨found.1, by rintro ⟨⟩⟩
  · intro _
    exact .pure ⟨.nil (.refl here), by rintro ⟨⟩⟩

theorem sees_choice (isFirst : Guard) (seesFirst : SeesFrom text facts start region first before)
    (seesSecond : SeesFrom text facts start region second before) :
    SeesFrom text facts start region (choice isFirst first second) before := by
  apply Sees.cursor
  apply Sees.ite
  · intro _
    apply Sees.map
    exact seesFirst.mono fun a after _ _ found =>
      ⟨found.1, fun consumes => found.2 (Bool.and_eq_true_iff.1 consumes).1⟩
  · intro _
    apply Sees.map
    exact seesSecond.mono fun a after _ _ found =>
      ⟨found.1, fun consumes => found.2 (Bool.and_eq_true_iff.1 consumes).2⟩

theorem sees_spanned (consumes : inner.consumes = true)
    (sees : SeesFrom text facts start region inner before) :
    SeesFrom text facts start region (spanned inner) before := by
  apply Sees.cursor
  apply sees.bind
  rintro a after _ _ ⟨laid, fewer⟩
  apply Sees.cursor
  exact .pure ⟨laid.consExtent ⟨laid.stretch.covers (fewer consumes), by rintro _ ⟨⟩⟩, fewer⟩

theorem sees_binder (what : String)
    (sees : ∀ {middle}, before.Onward middle → SeesFrom text facts start region inner middle) :
    SeesFrom text facts start region (binder what inner) before := by
  apply Sees.ofPlaced
  intro here
  apply (Sees.token (by rintro ⟨⟩)).bind
  rintro found middle there further ⟨_, passes⟩
  apply (sees further).bind
  rintro a next _ toNext ⟨laid, _⟩
  apply (Sees.define (here.passes passes).1.span).bind
  intro defined after placedAfter toAfter known
  have scope : NameKind.value ≠ .symbol → defined.scope = before.scope := fun notSymbol =>
    (known.2.1 notSymbol).trans (further.trans toNext).scope_eq
  have names := Sees.names_of_define here passes known.1 scope
  have head : Laid text facts before [] ((definition .value).entries defined) middle :=
    Laid.ofNames ⟨here, there, further⟩ (by rintro _ ⟨⟩) names
  refine .pure ⟨(head.trans laid).onward ⟨laid.stretch.stop, placedAfter, toAfter⟩, fun _ => ?_⟩
  exact Nat.lt_of_le_of_lt (toNext.trans toAfter).length_le (progresses_passes passes)

theorem sees_inScope (isFlat : inner.flat true = true)
    (sees : SeesFrom text facts start region inner before.opened) :
    SeesFrom text facts start region (inScope inner) before := by
  apply Sees.ofPlaced
  intro here
  let closed : α → Stage → Prop := fun a after => ∃ inside, after = inside.closed ∧
    before.Encloses inside ∧
      Laid text facts before.opened (inner.extents a) (inner.entries a) inside ∧
        (inner.consumes = true → inside.rest.length < before.rest.length)
  suffices opened : Sees text before (Parser.inScope (inner.parse start region)) closed by
    apply opened.mono
    rintro a _ there further ⟨inside, rfl, encloses, laid, fewer⟩
    exact ⟨laid.inScope (inner.entries_flat isFlat a) encloses ⟨here, there, further⟩, fewer⟩
  apply sees.inScope
  intro a inside _ encloses found
  exact ⟨inside, rfl, encloses, found.1, found.2⟩

theorem sees_recommended {inner : Grammar (Region Operation) (Option α)} (opcode : Opcode)
    (warning : String)
    (placed : ∀ {after}, before.Onward after → (start.spanBetween after.cursor).On text)
    (sees : SeesFrom text facts start region inner before) :
    SeesFrom text facts start region (recommended opcode warning inner) before := by
  apply sees.bind
  intro found after _ toAfter read
  apply Sees.ite
  · intro _
    apply Sees.cursor
    apply (Sees.warnDeprecated (placed toAfter)).bind
    rintro _ _ _ _ rfl
    exact .pure read
  · intro _
    exact .pure read

/-! ### Grammars -/

/-- Whatever the parser of a grammar gives is laid in the text that has been read for it. -/
theorem parse_sees (regions : ∀ kind implicitTerminator before,
      Sees text before (region kind implicitTerminator) (Stage.Contains text facts before))
    (placed : start.Placed text) (grammar : Grammar (Region Operation) α) (lawful : grammar.Lawful)
    (orderly : grammar.orderly = true) {before : Stage}
    (moved : ∃ count, before.cursor = start.advance count) :
    Sees text before (grammar.parse start region) fun a after =>
      Laid text facts before (grammar.extents a) (grammar.entries a) after ∧
        (grammar.consumes = true → after.rest.length < before.rest.length) := by
  have later : ∀ {before after : Stage}, (∃ count, before.cursor = start.advance count) →
      before.Onward after → ∃ count, after.cursor = start.advance count := by
    rintro before after ⟨count, moved⟩ onward
    obtain ⟨more, goneOn⟩ := onward.moved
    exact ⟨count + more, by rw [goneOn, moved, Cursor.advance_add]⟩
  induction grammar generalizing before with
  | blank => exact sees_blank
  | punct mark => exact sees_punct mark
  | word text => exact sees_word text
  | lexeme kind what => exact sees_lexeme what (bne_iff_ne.1 orderly)
  | oneOf words what => exact sees_oneOf words what
  | name kind => exact sees_name kind
  | definition kind => exact sees_definition kind
  | type => exact sees_type
  | attributeOf form => exact sees_attributeOf form
  | namedAttribute => exact sees_namedAttribute
  | trailingAttribute => exact sees_trailingAttribute
  | seq first second ihFirst ihSecond =>
    obtain ⟨left, right⟩ := Bool.and_eq_true_iff.1 orderly
    exact sees_seq (ihFirst lawful.1 left moved) fun toMiddle =>
      ihSecond lawful.2 right (later moved toMiddle)
  | view as inner ih =>
    apply Sees.map
    apply (ih lawful orderly moved).mono
    rintro a after _ _ ⟨laid, fewer⟩
    rw [extents_view, entries_view]
    exact ⟨laid, fewer⟩
  | optional present inner ih => exact sees_optional present (ih lawful orderly moved)
  | choice isFirst first second ihFirst ihSecond =>
    obtain ⟨left, right⟩ := Bool.and_eq_true_iff.1 orderly
    exact sees_choice isFirst (ihFirst lawful.1 left moved) (ihSecond lawful.2 right moved)
  | separated item ih =>
    exact Sees.separated fun stage further => ih lawful orderly (later moved further)
  | listed item ih =>
    apply (Sees.listed fun stage further => (ih lawful orderly (later moved further)).mono
      fun a after _ _ found => found.1).mono
    exact fun items after _ _ laid => ⟨laid, by rintro ⟨⟩⟩
  | listedWithEllipsis item ih =>
    apply (Sees.listedWithEllipsis fun stage further =>
      (ih lawful orderly (later moved further)).mono
      fun a after _ _ found => found.1).mono
    exact fun items after _ _ laid => ⟨laid, by rintro ⟨⟩⟩
  | bracketed separator item ih =>
    apply (Sees.bracketed fun stage further => (ih lawful orderly (later moved further)).mono
      fun a after _ _ found => found.1).mono
    exact fun items after _ _ found => ⟨found.1, fun _ => found.2⟩
  | repeated next item ih =>
    apply (Sees.repeated fun stage further => (ih lawful orderly (later moved further)).mono
      fun a after _ _ found => found.1).mono
    exact fun items after _ _ laid => ⟨laid, by rintro ⟨⟩⟩
  | modifierRun table => exact sees_modifierRun lawful
  | spanned inner ih =>
    obtain ⟨consumes, orderly⟩ := Bool.and_eq_true_iff.1 orderly
    exact sees_spanned consumes (ih lawful orderly moved)
  | binder what inner ih =>
    exact sees_binder what fun further => ih lawful orderly (later moved further)
  | inScope inner ih =>
    obtain ⟨isFlat, orderly⟩ := Bool.and_eq_true_iff.1 orderly
    exact sees_inScope isFlat (ih lawful orderly moved)
  | region kind implicitTerminator =>
    apply Sees.ofPlaced
    intro here
    apply (regions kind implicitTerminator before).mono
    exact fun inner after there further contains =>
      ⟨.region ⟨here, there, further⟩ contains, by rintro ⟨⟩⟩
  | recommended opcode warning inner ih =>
    refine sees_recommended opcode warning (fun toAfter => ?_) (ih lawful orderly moved)
    obtain ⟨count, reached⟩ := later moved toAfter
    rw [reached]
    exact placed.spanBetween_on count

end Sees

end Grammar

end CirText
