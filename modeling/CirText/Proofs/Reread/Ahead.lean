import CirText.Proofs.Grammar.Reads
import CirText.Proofs.Reread.Kindred

/-!
# What may come next

A grammar tells which tokens can come first of what it describes, and which tokens must not come
behind it lest they be taken for more of it. A grammar in which nothing comes behind a part that
must not come there is foreseen: what its lookahead decides does not depend on the order of
modifiers or on commas.
-/

namespace CirText

open CirText.Parser CirText.Reader

variable {R α : Type}

/-! ## Conditions that exclude each other -/

namespace Guard

/-- The class of the tokens that satisfy the condition. -/
def class_ : Guard → TokenKind
  | punct mark => .punct mark
  | word _ => .identifier
  | kind class_ => class_

/-- Whether no token satisfies both conditions. -/
def excludes (guard other : Guard) : Bool :=
  guard.class_ != other.class_ ||
    match guard, other with
    | .word text, .word another => text != another
    | _, _ => false

theorem class_of_holds {guard : Guard} {cursor : Cursor} (holds : guard.holds cursor = true) :
    cursor.peek.kind = guard.class_ := by
  cases guard with
  | punct mark => exact eq_of_beq holds
  | kind kind => exact eq_of_beq holds
  | word text => exact eq_of_beq (Bool.and_eq_true_iff.1 holds).1

theorem holds_of_class {kind : TokenKind} {cursor : Cursor} (same : cursor.peek.kind = kind) :
    (Guard.kind kind).holds cursor = true :=
  beq_iff_eq.2 same

theorem holds_of_excludes {guard other : Guard} {cursor : Cursor}
    (excludes : guard.excludes other = true) (holds : guard.holds cursor = true) :
    other.holds cursor = false := by
  by_contra both
  have both := Bool.eq_true_of_not_eq_false both
  have same := (class_of_holds holds).symm.trans (class_of_holds both)
  rcases Bool.or_eq_true_iff.1 excludes with different | different
  · exact bne_iff_ne.1 different same
  · cases guard with
    | word text =>
      cases other with
      | word another =>
        have isText := eq_of_beq (Bool.and_eq_true_iff.1 holds).2
        have isOther := eq_of_beq (Bool.and_eq_true_iff.1 both).2
        exact bne_iff_ne.1 different (isText.symm.trans isOther)
      | _ => cases different
    | _ => cases different

/-- A condition depends on what is still to be read. -/
theorem holds_of_rest (guard : Guard) {cursor other : Cursor} (same : other.rest = cursor.rest) :
    guard.holds other = guard.holds cursor := by
  have peek : other.peek.kind = cursor.peek.kind ∧ other.peek.text = cursor.peek.text := by
    rw [Cursor.peek, Cursor.peek, same]
    cases cursor.rest <;> exact ⟨rfl, rfl⟩
  cases guard <;>
    simp only [holds, Cursor.atPunct, Cursor.atWord, Cursor.atKind, Token.isPunct, Token.isWord,
      peek]

end Guard

/-- What must not come at a place. -/
inductive Bar where
  /-- A token that satisfies a condition. -/
  | guard (guard : Guard)
  /-- A modifier. -/
  | modifier

/-- Whether what must not come comes next. -/
def Bar.holds (bar : Bar) (cursor : Cursor) : Bool :=
  match bar with
  | .guard condition => condition.holds cursor
  | .modifier => modifierWords.any cursor.atWord

/-- Whether no token that satisfies the condition must not come. -/
def Guard.avoids (guard : Guard) : Bar → Bool
  | .guard other => guard.excludes other
  | .modifier => guard.class_ != .identifier ||
    match guard with
    | .word _ => guard.isPlain
    | _ => false

theorem Guard.holds_of_avoids {guard : Guard} {bar : Bar} {cursor : Cursor}
    (avoids : guard.avoids bar = true) (holds : guard.holds cursor = true) :
    bar.holds cursor = false := by
  cases bar with
  | guard other => exact holds_of_excludes avoids holds
  | modifier =>
    have kind := class_of_holds holds
    rw [Bar.holds, List.any_eq_false]
    intro word member isWord
    obtain ⟨isIdentifier, isText⟩ := Bool.and_eq_true_iff.1 isWord
    rcases Bool.or_eq_true_iff.1 avoids with noWord | plain
    · exact bne_iff_ne.1 noWord (kind.symm.trans (eq_of_beq isIdentifier))
    · cases guard with
      | word text =>
        have same : text = word :=
          (eq_of_beq (Bool.and_eq_true_iff.1 holds).2).symm.trans (eq_of_beq isText)
        have noModifier : text ∉ modifierWords := by
          simpa [isPlain] using plain
        exact noModifier (same ▸ member)
      | _ => cases plain

theorem Bar.holds_of_rest {bar : Bar} {cursor other : Cursor} (same : other.rest = cursor.rest) :
    bar.holds other = bar.holds cursor := by
  cases bar with
  | guard guard => exact guard.holds_of_rest same
  | modifier =>
    have words : other.atWord = cursor.atWord :=
      funext fun word => Guard.holds_of_rest (.word word) same
    rw [holds, holds, words]

/-! ## First tokens of types and attributes -/

/-- The classes of tokens that a type starts with. -/
def TypeText.heads : List TokenKind :=
  [.typeName, .identifier, .punct .leftParen]

/-- The classes of tokens that an attribute of a form starts with. -/
def AttributeForm.heads : AttributeForm → List TokenKind
  | .value =>
    [.attributeName, .integer, .float, .string, .symbol, .punct .leftBracket, .punct .leftBrace] ++
      TypeText.heads
  | .dialect | .aliasName => [.attributeName]
  | .dictionary => [.punct .leftBrace]

namespace Reader

variable {tokens : List Token}

theorem type_heads {left : { rest : List Token // rest.length < tokens.length }}
    (given : type tokens = .ok left) : (tokens.headD (.endAt 0)).kind ∈ TypeText.heads := by
  unfold type at given
  split at given
  · cases given
  · rename_i token rest
    change token.kind ∈ _
    split at given
    · rename_i kind
      simp [kind, TypeText.heads]
    · rename_i kind
      simp [kind, TypeText.heads]
    · rename_i kind
      simp [kind, TypeText.heads]
    · cases given

theorem value_heads {left : { rest : List Token // rest.length < tokens.length }}
    (given : value tokens = .ok left) :
    (tokens.headD (.endAt 0)).kind ∈ AttributeForm.heads .value := by
  have typed : ∀ {left}, typeValue tokens = .ok left →
      (tokens.headD (.endAt 0)).kind ∈ AttributeForm.heads .value := by
    intro left given
    unfold typeValue at given
    split at given
    · rename_i found
      exact List.mem_append_right _ (type_heads found)
    · cases given
  cases tokens with
  | nil => exact absurd left.2 (Nat.not_lt_zero _)
  | cons token rest =>
    change token.kind ∈ _
    unfold value at given
    split at given
    iterate 7
      · rename_i kind
        simp [kind, AttributeForm.heads, TypeText.heads]
    · rename_i kind
      simp [kind, AttributeForm.heads]
    · exact typed given

theorem ofForm_heads {form : AttributeForm}
    {left : { rest : List Token // rest.length < tokens.length }}
    (given : ofForm form tokens = .ok left) : (tokens.headD (.endAt 0)).kind ∈ form.heads := by
  cases form with
  | value => exact value_heads given
  | dialect =>
    change dialect tokens = .ok left at given
    unfold dialect at given
    split at given
    · cases given
    · split at given
      · rename_i isDialect
        exact List.mem_singleton.2 isDialect.1
      · cases given
  | aliasName =>
    change aliasName tokens = .ok left at given
    unfold aliasName at given
    split at given
    · cases given
    · split at given
      · rename_i isAlias
        rw [startsWithAlias_cons, Bool.and_eq_true, Bool.and_eq_true] at isAlias
        exact List.mem_singleton.2 (beq_iff_eq.1 isAlias.1.1)
      · cases given
  | dictionary =>
    change dictionary tokens = .ok left at given
    unfold dictionary at given
    split at given
    · cases given
    · split at given
      · rename_i isOpening
        exact List.mem_singleton.2 (beq_iff_eq.1 isOpening)
      · cases given

end Reader

/-! ## First tokens of grammars -/

namespace Grammar

/-- The conditions of which one is satisfied by the first token of what a grammar describes. -/
def heads : {α : Type} → Grammar R α → List Guard
  | _, .blank => []
  | _, .punct mark => [.punct mark]
  | _, .word text => [.word text]
  | _, .lexeme kind _ => [.kind kind]
  | _, .oneOf words _ => words.map .word
  | _, .name kind | _, .definition kind => [.kind (nameToken kind)]
  | _, .type => TypeText.heads.map .kind
  | _, .attributeOf form => form.heads.map .kind
  | _, .namedAttribute => [.kind .attributeName]
  | _, .trailingAttribute => [.kind .attributeName, .punct .leftBrace]
  | _, .seq first second => first.heads ++ if first.consumes then [] else second.heads
  | _, .optional present _ => [present]
  | _, .choice _ first second => first.heads ++ second.heads
  | _, .bracketed _ _ => [.punct .leftBracket]
  | _, .repeated next _ => [next]
  | _, .modifierRun table => table.rules.map fun rule => .word rule.keyword
  | _, .binder _ _ => [.kind .value]
  | _, .region _ _ => [.punct .leftBrace]
  | _, .separated item | _, .listed item => item.heads ++ [.punct .comma]
  | _, .listedWithEllipsis item => item.heads ++ [.punct .comma, .punct .ellipsis]
  | _, .view _ inner | _, .spanned inner | _, .inScope inner | _, .recommended _ _ inner =>
    inner.heads

/-- Whether the first token is one that a grammar can start with. -/
def Starts (grammar : Grammar R α) (cursor : Cursor) : Prop :=
  ∃ guard ∈ grammar.heads, guard.holds cursor = true

variable {region : RegionKind → Bool → Meaning R} {source : List Char} {before after : Stage}

theorem peek_of_passes {found : Token} (passes : before.Passes found after) :
    before.cursor.peek = found :=
  Cursor.peek_of_cons passes.1

theorem headD_kind (cursor : Cursor) : (cursor.rest.headD (.endAt 0)).kind = cursor.peek.kind := by
  rw [Cursor.peek]
  cases cursor.rest <;> rfl

theorem starts_attributeOf {form : AttributeForm} {value : AttributeText}
    (reads : AttributeReads form source before value after) :
    ∃ kind ∈ form.heads, before.cursor.peek.kind = kind := by
  obtain ⟨_, rest, given, _⟩ := reads
  have member := ofForm_heads given
  exact ⟨_, member, (headD_kind before.cursor).symm⟩

/-- Whether what a grammar reads is empty or starts with one of its first tokens. -/
def MeetsHeads (region : RegionKind → Bool → Meaning R) (source : List Char)
    (grammar : Grammar R α) : Prop :=
  ∀ {before after : Stage} {a : α}, grammar.Reads region source before a after →
    grammar.Starts before.cursor ∨ grammar.consumes = false ∧ after.rest = before.rest

section

variable {β : Type} {first inner item : Grammar R α} {second : Grammar R β}

/-- A first token that is accepted for its class. -/
theorem starts_of_kind {grammar : Grammar R α} {kind : TokenKind}
    (member : .kind kind ∈ grammar.heads)
    {found : Token} (sameKind : found.kind = kind) (passes : before.Passes found after) :
    grammar.Starts before.cursor := by
  refine ⟨_, member, Guard.holds_of_class ?_⟩
  rwa [peek_of_passes passes]

theorem meetsHeads_oneOf (words : List String) (what : String) :
    MeetsHeads region source (oneOf (R := R) words what) := by
  intro before after a reads
  obtain ⟨found, ⟨isOne, passes⟩, _⟩ := reads
  obtain ⟨text, member, isWord⟩ := List.any_eq_true.1 isOne
  refine .inl ⟨_, List.mem_map_of_mem member, ?_⟩
  rwa [Guard.holds, Cursor.atWord, peek_of_passes passes]

theorem meetsHeads_type : MeetsHeads region source (type (R := R)) := by
  intro before after a reads
  obtain ⟨rest, given, _⟩ := reads
  have member := type_heads given
  rw [show before.rest = before.cursor.rest from rfl, headD_kind] at member
  exact .inl ⟨_, List.mem_map_of_mem member, Guard.holds_of_class rfl⟩

theorem meetsHeads_namedAttribute : MeetsHeads region source (namedAttribute (R := R)) := by
  intro before after a reads
  unfold Reads NamedAttributeReads at reads
  refine .inl ⟨_, List.mem_singleton_self _, Guard.holds_of_class ?_⟩
  split at reads
  · obtain ⟨kind, member, same⟩ := starts_attributeOf reads
    rwa [List.mem_singleton.1 member] at same
  · exact beq_iff_eq.1 reads.1

theorem meetsHeads_trailingAttribute : MeetsHeads region source (trailingAttribute (R := R)) := by
  intro before after a reads
  unfold Reads TrailingAttributeReads at reads
  split at reads
  · obtain ⟨value, reads, _⟩ := reads
    obtain ⟨kind, member, same⟩ := starts_attributeOf reads
    rw [List.mem_singleton.1 member] at same
    exact .inl ⟨_, List.mem_cons_self, Guard.holds_of_class same⟩
  · split at reads
    · rename_i isBrace
      exact .inl ⟨_, List.mem_cons_of_mem _ List.mem_cons_self, isBrace⟩
    · exact .inr ⟨rfl, congrArg Stage.rest reads.2⟩

theorem meetsHeads_modifierRun {S : Type} (table : ModifierTable S) :
    MeetsHeads region source (modifierRun (R := R) table) := by
  intro before after a reads
  obtain ⟨modifiers, reads, _⟩ := reads
  cases reads with
  | nil => exact .inr ⟨rfl, rfl⟩
  | cons keyword =>
    have here := List.find?_some keyword
    exact .inl ⟨_, List.mem_map_of_mem (List.mem_of_find?_eq_some keyword), here⟩

/-! ### Combinations -/

theorem meetsHeads_seq (meetsFirst : MeetsHeads region source first)
    (meetsSecond : MeetsHeads region source second) :
    MeetsHeads region source (seq first second) := by
  intro before after both reads
  obtain ⟨middle, readsFirst, readsSecond⟩ := reads
  rcases meetsFirst readsFirst with ⟨guard, member, holds⟩ | ⟨empty, same⟩
  · exact .inl ⟨guard, List.mem_append_left _ member, holds⟩
  · rcases meetsSecond readsSecond with ⟨guard, member, holds⟩ | ⟨alsoEmpty, also⟩
    · refine .inl ⟨guard, ?_, (guard.holds_of_rest same).symm.trans holds⟩
      rw [heads, empty]
      exact List.mem_append_right _ member
    · refine .inr ⟨?_, also.trans same⟩
      rw [consumes, empty, alsoEmpty]
      rfl

theorem meetsHeads_optional (present : Guard) :
    MeetsHeads region source (optional present inner) := by
  intro before after found reads
  unfold Reads at reads
  split at reads
  · rename_i holds
    exact .inl ⟨present, List.mem_singleton_self _, holds⟩
  · exact .inr ⟨rfl, congrArg Stage.rest reads.2⟩

theorem meetsHeads_choice (isFirst : Guard) (meetsFirst : MeetsHeads region source first)
    (meetsSecond : MeetsHeads region source second) :
    MeetsHeads region source (choice isFirst first second) := by
  intro before after either reads
  unfold Reads at reads
  split at reads
  · obtain ⟨_, reads, _⟩ := reads
    rcases meetsFirst reads with ⟨guard, member, holds⟩ | ⟨empty, same⟩
    · exact .inl ⟨guard, List.mem_append_left _ member, holds⟩
    · refine .inr ⟨?_, same⟩
      rw [consumes, empty]
      rfl
  · obtain ⟨_, reads, _⟩ := reads
    rcases meetsSecond reads with ⟨guard, member, holds⟩ | ⟨empty, same⟩
    · exact .inl ⟨guard, List.mem_append_right _ member, holds⟩
    · refine .inr ⟨?_, same⟩
      rw [consumes, empty, Bool.and_false]

/-! ### Lists -/

theorem meetsHeads_separated (each : MeetsHeads region source item) :
    MeetsHeads region source (separated item) := by
  intro before after found reads
  obtain ⟨head, tail⟩ := found
  obtain ⟨middle, first, rest⟩ := reads
  rcases each first with ⟨guard, member, holds⟩ | ⟨empty, same⟩
  · exact .inl ⟨guard, List.mem_append_left _ member, holds⟩
  · dsimp only at rest
    cases rest with
    | nil => exact .inr ⟨empty, same⟩
    | cons comma =>
      have here := (Guard.holds_of_rest (.punct .comma) same).symm.trans comma
      exact .inl ⟨_, List.mem_append_right _ List.mem_cons_self, here⟩

theorem meetsHeads_listed (each : MeetsHeads region source item) :
    MeetsHeads region source (listed item) := by
  intro before after items reads
  cases reads with
  | nil => exact .inr ⟨rfl, rfl⟩
  | cons _ all =>
    rcases meetsHeads_separated each all with starts | ⟨_, same⟩
    · exact .inl starts
    · exact .inr ⟨rfl, same⟩

theorem starts_ellipsis (each : MeetsHeads region source item) {found : List α × Bool}
    (reads : EllipsisReads (item.Reads region) source before found after) :
    (listedWithEllipsis item).Starts before.cursor ∨ after.rest = before.rest := by
  cases reads with
  | ellipsis here =>
    have member : Guard.punct .ellipsis ∈ [Guard.punct .comma, .punct .ellipsis] := by simp
    exact .inl ⟨.punct .ellipsis, List.mem_append_right _ member, here⟩
  | last _ only =>
    rcases each only with ⟨guard, member, holds⟩ | ⟨_, same⟩
    · exact .inl ⟨guard, List.mem_append_left _ member, holds⟩
    · exact .inr same
  | more _ first comma =>
    rcases each first with ⟨guard, member, holds⟩ | ⟨_, same⟩
    · exact .inl ⟨guard, List.mem_append_left _ member, holds⟩
    · have here := (Guard.holds_of_rest (.punct .comma) same).symm.trans comma
      exact .inl ⟨_, List.mem_append_right _ List.mem_cons_self, here⟩

theorem meetsHeads_listedWithEllipsis (each : MeetsHeads region source item) :
    MeetsHeads region source (listedWithEllipsis item) := by
  intro before after found reads
  unfold Reads ListedWithEllipsisReads at reads
  split at reads
  · exact .inr ⟨rfl, congrArg Stage.rest reads.2⟩
  · rcases starts_ellipsis each reads with starts | same
    · exact .inl starts
    · exact .inr ⟨rfl, same⟩

theorem meetsHeads_repeated (next : Guard) : MeetsHeads region source (repeated next item) := by
  intro before after items reads
  cases reads with
  | nil => exact .inr ⟨rfl, rfl⟩
  | cons goesOn => exact .inl ⟨next, List.mem_singleton_self _, goesOn⟩

end

/-! ### Grammars -/

/-- What is read by a grammar is empty or starts with one of its first tokens. -/
theorem starts_of_reads
    (braced : ∀ kind implicitTerminator {before after : Stage} {a : R},
      region kind implicitTerminator source before a after →
        before.cursor.atPunct .leftBrace = true)
    {α : Type} (grammar : Grammar R α) {before after : Stage} {a : α}
    (reads : grammar.Reads region source before a after) :
    grammar.Starts before.cursor ∨ grammar.consumes = false ∧ after.rest = before.rest := by
  induction grammar generalizing before after with
  | blank =>
    obtain rfl := reads
    exact .inr ⟨rfl, rfl⟩
  | punct mark =>
    obtain ⟨found, isMark, passes⟩ := reads
    refine .inl ⟨_, List.mem_singleton_self _, ?_⟩
    rwa [Guard.holds, Cursor.atPunct, peek_of_passes passes]
  | word text =>
    obtain ⟨found, isWord, passes⟩ := reads
    refine .inl ⟨_, List.mem_singleton_self _, ?_⟩
    rwa [Guard.holds, Cursor.atWord, peek_of_passes passes]
  | lexeme kind what =>
    obtain ⟨found, ⟨sameKind, passes⟩, _⟩ := reads
    exact .inl (starts_of_kind (List.mem_singleton_self _) sameKind passes)
  | oneOf words what => exact meetsHeads_oneOf words what reads
  | name kind =>
    obtain ⟨found, isName, rest, _⟩ := reads
    refine .inl ⟨_, List.mem_singleton_self _, Guard.holds_of_class ?_⟩
    rwa [Cursor.peek, show before.cursor.rest = found :: after.rest from rest]
  | definition kind =>
    obtain ⟨found, middle, ⟨isName, passes⟩, _⟩ := reads
    exact .inl (starts_of_kind (List.mem_singleton_self _) isName passes)
  | type => exact meetsHeads_type reads
  | attributeOf form =>
    obtain ⟨kind, member, same⟩ := starts_attributeOf reads
    exact .inl ⟨_, List.mem_map_of_mem member, Guard.holds_of_class same⟩
  | namedAttribute => exact meetsHeads_namedAttribute reads
  | trailingAttribute => exact meetsHeads_trailingAttribute reads
  | seq first second ihFirst ihSecond => exact meetsHeads_seq ihFirst ihSecond reads
  | view as inner ih =>
    obtain ⟨_, reads, _⟩ := reads
    exact ih reads
  | optional present inner ih => exact meetsHeads_optional present reads
  | choice isFirst first second ihFirst ihSecond =>
    exact meetsHeads_choice isFirst ihFirst ihSecond reads
  | separated item ih => exact meetsHeads_separated ih reads
  | listed item ih => exact meetsHeads_listed ih reads
  | listedWithEllipsis item ih => exact meetsHeads_listedWithEllipsis ih reads
  | bracketed separator item ih =>
    obtain ⟨opening, middle, ⟨isOpening, passes⟩, _⟩ := reads
    refine .inl ⟨_, List.mem_singleton_self _, ?_⟩
    rwa [Guard.holds, Cursor.atPunct, peek_of_passes passes]
  | repeated next item ih => exact meetsHeads_repeated next reads
  | modifierRun table => exact meetsHeads_modifierRun table reads
  | spanned inner ih => exact ih reads.1
  | binder what inner ih =>
    obtain ⟨found, middle, _, ⟨isValue, passes⟩, _⟩ := reads
    exact .inl (starts_of_kind (List.mem_singleton_self _) isValue passes)
  | inScope inner ih =>
    obtain ⟨inside, reads, _, rfl⟩ := reads
    have starts := ih reads
    exact starts
  | region kind implicitTerminator =>
    exact .inl ⟨_, List.mem_singleton_self _, braced kind implicitTerminator reads⟩
  | recommended opcode warning inner ih => exact ih reads

/-! ## What must not come behind -/

/-- What must not come behind what a grammar describes. Any modifier of a run may be printed as the
last one, so nothing must come behind a run that could go on with a modifier. And a comma behind
names may come or go when they are printed, so nothing must come behind them that could go on with a
name. -/
def bars : {α : Type} → Grammar R α → List Bar
  | _, .trailingAttribute => [.guard (.kind .attributeName)]
  | _, .repeated _ _ => [.guard (.punct .comma), .guard (.punct .colon), .guard (.punct .less)]
  | _, .modifierRun _ => [.guard (.punct .leftParen), .guard (.punct .colon), .modifier]
  | _, .seq first second => second.bars ++ if second.consumes then [] else first.bars
  | _, .choice _ first second => first.bars ++ second.bars
  | _, .view _ inner | _, .optional _ inner | _, .spanned inner | _, .binder _ inner
  | _, .inScope inner | _, .recommended _ _ inner => inner.bars
  | _, _ => []

/-- Whether what a grammar describes is a name or an attribute. -/
def isSingle : {α : Type} → Grammar R α → Bool
  | _, .name _ | _, .attributeOf _ => true
  | _, _ => false

end Grammar

/-- Whether a modifier takes an argument of a kind. -/
def ModifierRule.takes (kind : ArgumentKind) (rule : ModifierRule) : Bool :=
  rule.argument.any (·.kind == kind)

/-- Whether a table has one symbol and one attribute at most, and only parentheses can be left
out. -/
def ModifierTable.isSimple {S : Type} (table : ModifierTable S) : Bool :=
  table.rules.countP (·.takes .symbol) ≤ 1 && table.rules.countP (·.takes .attribute) ≤ 1 &&
    table.rules.all fun rule => modifierWords.contains rule.keyword &&
      rule.argument.all fun form => !(form.optional && form.angled)

namespace Grammar

/-- Whether nothing comes behind a part that must not come there, and all that lookahead asks for is
not about modifiers. -/
def foreseen : {α : Type} → Grammar R α → Bool
  | _, .seq first second => first.foreseen && second.foreseen &&
      first.bars.all fun bar => second.heads.all (·.avoids bar)
  | _, .optional present inner => present.isPlain && inner.foreseen
  | _, .choice isFirst first second => isFirst.isPlain && first.foreseen && second.foreseen
  | _, .separated item | _, .listed item | _, .listedWithEllipsis item
  | _, .bracketed .blank item => item.foreseen && item.bars.isEmpty
  | _, .bracketed .comma item => item.isSingle
  | _, .repeated next item => next.isPlain && item.isSingle
  | _, .modifierRun table => table.isSimple
  | _, .view _ inner | _, .spanned inner | _, .binder _ inner | _, .inScope inner
  | _, .recommended _ _ inner => inner.foreseen
  | _, _ => true

theorem body_foreseen (opcode : Opcode) (form : Form) :
    (body (R := R) opcode form).foreseen = true := by
  unfold body
  split <;> cbv

theorem blockHeader_foreseen : (blockHeader (R := R)).foreseen = true :=
  rfl

/-- The conditions of which one is satisfied by what comes behind an operation. -/
def behindOperation : List Guard :=
  [.kind .value, .kind .keyword, .kind .label, .punct .rightBrace, .kind .endOfInput]

theorem body_bars (opcode : Opcode) (form : Form) :
    ((body (R := R) opcode form).bars.all fun bar =>
      behindOperation.all (·.avoids bar)) = true := by
  unfold body
  split <;> cbv

/-- What must not come behind the first of two parts does not, if it is not behind both of them. -/
theorem not_bars_first {first : Grammar R α} {β : Type} {second : Grammar R β}
    {middle last : Cursor} (foreseen : (seq first second).foreseen = true)
    (barred : ∀ bar ∈ (seq first second).bars, bar.holds last = false)
    (starts : second.Starts middle ∨ second.consumes = false ∧ last.rest = middle.rest) :
    ∀ bar ∈ first.bars, bar.holds middle = false := by
  have apart := (Bool.and_eq_true_iff.1 foreseen).2
  intro bar member
  rcases starts with ⟨head, isHead, holds⟩ | ⟨empty, same⟩
  · have avoids := List.all_eq_true.1 (List.all_eq_true.1 apart bar member) head isHead
    exact Guard.holds_of_avoids avoids holds
  · rw [bars, empty] at barred
    rw [← Bar.holds_of_rest same]
    exact barred bar (List.mem_append_right _ member)

end Grammar

end CirText
