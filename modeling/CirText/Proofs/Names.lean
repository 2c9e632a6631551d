import CirText.Proofs.Parser.Conservation
import CirText.Proofs.Token.Lexer
import Mathlib

/-!
# Names are conserved

In a source unit without errors every name is accounted for: it is defined or used by exactly one
operation, apart from the name of the module and from what stands in types and attributes. And the
definitions of the operations are the entries of the table of the module.
-/

namespace CirText

/-! ## Names in modules -/

namespace Module

/-- The names that the operations of a module define. -/
def definitions (unit : Module) : List Definition :=
  unit.preorder.flatMap Operation.definitions

/-- The names that the operations of a module refer to. -/
def references (unit : Module) : List Reference :=
  unit.preorder.flatMap Operation.references

/-- Where the names stand that the operations of a module define and refer to. -/
def nameSpans (unit : Module) : List Span :=
  unit.definitions.map (·.span) ++ unit.references.map (·.span)

/-- Where the attributes of the header of a module and the types and attributes of its operations
stand. -/
def opaqueSpans (unit : Module) : List Span :=
  (unit.header.bind (·.attributes)).toList.map (·.span) ++
    unit.items.flatMap fun op => op.leaves.flatMap Piece.opaqueSpans

end Module

/-- Where a name stands, if the mention is one. -/
def Mention.nameSpan? {R : Type} : Mention R → Option Span
  | .definition defined => some defined.span
  | .reference used => some used.span
  | .region _ => none

/-! ## Names among leaves -/

/-- Where the names among leaves stand. -/
def nameSpans (leaves : List Leaf) : List Span :=
  (mentions leaves).filterMap Mention.nameSpan?

theorem nameSpans_perm {leaves more : List Leaf}
    (same : leaves.Perm (more.filter Piece.isSignificant)) :
    (nameSpans leaves).Perm (nameSpans more) := by
  rw [nameSpans, nameSpans, ← mentions_filter more, mentions_eq_filterMap, mentions_eq_filterMap]
  exact (same.filterMap _).filterMap _

theorem Token.isSignificant_of_isName {token : Token} (isName : token.kind.isName = true) :
    token.isSignificant = true := by
  unfold isSignificant
  cases kind : token.kind <;> simp_all [TokenKind.isName]

theorem Parser.isName_nameToken (kind : NameKind) : (Parser.nameToken kind).isName = true := by
  cases kind <;> rfl

/-- The name of a leaf, if it is one, stands where its token does. -/
theorem Piece.ReadFrom.nameSpans_sublist {source : List Char} {taken : List Token} {leaf : Leaf}
    (read : leaf.ReadFrom source taken) :
    (nameSpans [leaf]).Sublist ((taken.filter Token.isSignificant).map (·.span)) := by
  have one : ∀ {token : Token} {kind : NameKind}, token.kind = Parser.nameToken kind →
      [token].filter Token.isSignificant = [token] := by
    intro token kind same
    have isName := same ▸ Parser.isName_nameToken kind
    rw [List.filter_singleton, Token.isSignificant_of_isName isName]
    rfl
  cases leaf with
  | reference used =>
    obtain ⟨token, rfl, kind, _, span⟩ := read
    rw [one kind, List.map_singleton, span]
    exact .refl _
  | definition defined =>
    obtain ⟨token, rfl, kind, _, span⟩ := read
    rw [one kind, List.map_singleton, span]
    exact .refl _
  | region inner => cases inner
  | blank => exact List.nil_sublist _
  | token kind text => exact List.nil_sublist _
  | type written => exact List.nil_sublist _
  | «attribute» value => exact List.nil_sublist _

/-- A name among the tokens of a leaf is the name that the leaf is, or it is part of the text of a
type or an attribute. -/
theorem Piece.ReadFrom.name {source : List Char} {taken : List Token} {leaf : Leaf} {offset : Nat}
    (read : leaf.ReadFrom source taken) (ordered : Lexer.Ordered offset taken) {token : Token}
    (member : token ∈ taken) (isName : token.kind.isName = true) :
    token.span ∈ nameSpans [leaf] ∨ ∃ span ∈ leaf.opaqueSpans, token.span.Inside span := by
  have embedded : ∀ {text : String} {span : Span}, Embedded source taken text span →
      token.span.Inside span := by
    rintro text span ⟨_, first, last, starts, ends, rfl⟩
    exact ordered.inside_cover starts ends token member
  cases leaf with
  | reference used =>
    obtain ⟨_, rfl, _, _, span⟩ := read
    rw [List.mem_singleton.1 member, span]
    exact .inl (List.mem_singleton_self _)
  | definition defined =>
    obtain ⟨_, rfl, _, _, span⟩ := read
    rw [List.mem_singleton.1 member, span]
    exact .inl (List.mem_singleton_self _)
  | region inner => cases inner
  | blank =>
    rw [show taken = [] from read] at member
    cases member
  | token kind text =>
    obtain ⟨notName, _, rfl, same, _⟩ := read
    rw [List.mem_singleton.1 member, same, notName] at isName
    cases isName
  | type written => exact .inr ⟨_, List.mem_singleton_self _, embedded read⟩
  | «attribute» value => exact .inr ⟨_, List.mem_singleton_self _, embedded read⟩

/-- The names that leaves account for stand at different places, and they are the names among the
tokens that are not part of the text of a type or an attribute. -/
theorem Covers.names {source : List Char} {leaves : List Leaf} {tokens : List Token} {offset : Nat}
    (covers : Covers source leaves tokens) (ordered : Lexer.Ordered offset tokens) :
    (nameSpans leaves).Nodup ∧
      ∀ token ∈ tokens, token.kind.isName = true →
        (∀ span ∈ leaves.flatMap Piece.opaqueSpans, ¬token.span.Inside span) →
          token.span ∈ nameSpans leaves := by
  obtain ⟨parts, read, leavesPerm, tokensPerm⟩ := covers
  have names := nameSpans_perm leavesPerm
  constructor
  · have distinct : ((tokens.filter Token.isSignificant).map (·.span)).Nodup :=
      List.Nodup.sublist (List.filter_sublist.map _) ordered.nodup_spans
    have sublist : ∀ parts : List (Leaf × List Token),
        (∀ part ∈ parts, part.1.ReadFrom source part.2) →
        (nameSpans (parts.map Prod.fst)).Sublist
          (((parts.flatMap Prod.snd).filter Token.isSignificant).map (·.span)) := by
      intro parts read
      induction parts with
      | nil => exact .refl _
      | cons part parts ih =>
        obtain ⟨here, later⟩ := List.forall_mem_cons.1 read
        have split : nameSpans ((part :: parts).map Prod.fst) =
            nameSpans [part.1] ++ nameSpans (parts.map Prod.fst) := by
          rw [nameSpans, nameSpans, nameSpans, ← List.filterMap_append, ← mentions_append]
          rfl
        rw [split, List.flatMap_cons, List.filter_append, List.map_append]
        exact here.nameSpans_sublist.append (ih later)
    apply names.nodup_iff.1
    apply List.Nodup.sublist (sublist parts fun part member => (read part member).1)
    exact (tokensPerm.map _).nodup_iff.2 distinct
  · intro token member isName outside
    have significant := Token.isSignificant_of_isName isName
    have inParts := tokensPerm.mem_iff.2 (List.mem_filter.2 ⟨member, significant⟩)
    obtain ⟨part, among, here⟩ := List.mem_flatMap.1 (List.mem_filter.1 inParts).1
    obtain ⟨readFrom, within⟩ := read part among
    obtain ⟨start, inOrder⟩ := ordered.infix within
    have isLeaf : part.1 ∈ leaves :=
      (List.mem_filter.1 (leavesPerm.mem_iff.1 (List.mem_map_of_mem among))).1
    rcases readFrom.name inOrder here isName with named | ⟨span, isOpaque, inside⟩
    · apply names.mem_iff.1
      obtain ⟨mention, mentioned, isSpan⟩ := List.mem_filterMap.1 named
      refine List.mem_filterMap.2 ⟨mention, ?_, isSpan⟩
      rw [mentions_eq_filterMap] at mentioned ⊢
      obtain ⟨leaf, only, same⟩ := List.mem_filterMap.1 mentioned
      rw [List.mem_singleton.1 only] at same
      exact List.mem_filterMap.2 ⟨part.1, List.mem_map_of_mem among, same⟩
    · exact absurd inside (outside span (List.mem_flatMap.2 ⟨part.1, isLeaf, isOpaque⟩))

/-! ## Names in source units -/

/-- The names among the leaves of items are the ones that their operations define and refer to. -/
theorem mentions_items {items : List Operation} (whole : ∀ op ∈ items, op.Whole) :
    (mentions (items.flatMap Operation.leaves)).Perm
      (((items.flatMap Operation.preorder).flatMap Operation.definitions).map .definition ++
        ((items.flatMap Operation.preorder).flatMap Operation.references).map .reference) := by
  have each := List.Perm.flatMap_left items fun op member => op.mentions_leaves (whole op member)
  rw [mentions_flatMap]
  apply each.trans
  rw [← List.flatMap_assoc, List.map_flatMap, List.map_flatMap]
  exact (List.flatMap_append_perm _ _ _).symm

/-- The names around the items of a source unit are the name of the module and those in the
attributes of its header. -/
theorem Parser.HeaderTokens.name {source : List Char} {header : Option ModuleHeader}
    {lead trail : List Token} (around : HeaderTokens source header lead trail) {offset : Nat}
    (ordered : Lexer.Ordered offset lead) {token : Token} (member : token ∈ lead ++ trail)
    (isName : token.kind.isName = true) :
    (∃ value, (header.bind (·.attributes)) = some value ∧ token.span.Inside value.span) ∨
      ∃ found name, header = some found ∧ found.name = some name ∧ token.span = name.span := by
  have notName : ∀ {kind : TokenKind}, token.kind = kind → kind.isName = false → False := by
    rintro _ rfl other
    rw [isName] at other
    cases other
  have notWord : ∀ {text : String}, ¬token.isWord text = true := by
    intro text isWord
    exact notName (beq_iff_eq.1 (Bool.and_eq_true_iff.1 isWord).1) rfl
  have notPunct : ∀ {mark : Punct}, ¬token.isPunct mark = true := by
    intro mark isPunct
    exact notName (beq_iff_eq.1 isPunct) rfl
  cases header with
  | none =>
    obtain ⟨rfl, rfl⟩ := around
    cases member
  | some header =>
    obtain ⟨word, name, attributes, opening, closing, rfl, rfl, isModule, isName, isAttributes,
      isOpening, isClosing⟩ := around
    have parts : token = word ∨ token ∈ name ∨ token ∈ attributes ∨ token = opening ∨
        token = closing := by
      simpa [or_assoc] using member
    rcases parts with rfl | inName | inAttributes | rfl | rfl
    · exact absurd isModule notWord
    · right
      unfold NameTokens at isName
      split at isName
      · rw [isName] at inName
        cases inName
      · rename_i found named
        obtain ⟨_, rfl, _, rfl⟩ := isName
        rw [List.mem_singleton.1 inName]
        exact ⟨header, _, rfl, named, rfl⟩
    · left
      unfold AttributeTokens at isAttributes
      split at isAttributes
      · rw [isAttributes] at inAttributes
        cases inAttributes
      · rename_i value given
        obtain ⟨first, taken, rfl, isWord, _, head, last, starts, ends, span⟩ := isAttributes
        rcases List.mem_cons.1 inAttributes with rfl | inTaken
        · exact absurd isWord notWord
        · refine ⟨value, given, ?_⟩
          have within : taken <:+: word :: (name ++ (first :: taken) ++ [opening]) :=
            ⟨word :: (name ++ [first]), [opening], by simp⟩
          obtain ⟨_, inOrder⟩ := ordered.infix within
          rw [span]
          exact inOrder.inside_cover starts ends token inTaken
    · exact absurd isOpening notPunct
    · exact absurd isClosing notPunct

/-- What the operations of a source unit without errors define are the entries of the table. -/
theorem parse_definitions_perm {source : String} {options : Options}
    (clean : (parse source options).hasErrors = false) :
    (parse source options).unit.definitions.Perm (parse source options).unit.symbols.entries := by
  obtain ⟨_, after, reads, finished⟩ := parse_reads clean
  obtain ⟨whole, grows, _⟩ := Parser.sourceUnit_passage reads
  obtain ⟨_, entries⟩ := grows .start
  have table : after.tracker.table = (parse source options).unit.symbols := by
    rw [← Tracker.table_finish, finished]
  rw [table] at entries
  have mapped := (mentions_items whole).filterMap Mention.definition?
  rw [List.filterMap_append, List.filterMap_map, List.filterMap_map] at mapped
  have own : ∀ definitions : List Definition,
      definitions.filterMap (Mention.definition? ∘ Mention.definition (R := Empty)) = definitions :=
    fun definitions => List.filterMap_some
  have none : ∀ references : List Reference,
      references.filterMap (Mention.definition? ∘ Mention.reference (R := Empty)) = [] :=
    fun references => List.filterMap_eq_nil_iff.2 fun _ _ => rfl
  rw [own, none, List.append_nil] at mapped
  exact (entries.trans mapped).symm

/-- Every name in a source unit without errors is defined or referred to exactly once, unless it
names the module or is part of a type or an attribute; and what is defined are the entries of the
table. -/
theorem parse_names {source : String} {options : Options}
    (clean : (parse source options).hasErrors = false) :
    (∀ token ∈ (tokenize source).tokens, token.kind.isName = true →
      (∀ span ∈ (parse source options).unit.opaqueSpans, ¬token.span.Inside span) →
      (∀ header name, (parse source options).unit.header = some header → header.name = some name →
        token.span ≠ name.span) →
      (parse source options).unit.nameSpans.count token.span = 1) ∧
    (parse source options).unit.definitions.Perm (parse source options).unit.symbols.entries := by
  obtain ⟨_, _, reads, _⟩ := parse_reads clean
  obtain ⟨whole, _, lead, tokens, trail, rest, around, covers⟩ :=
    Parser.sourceUnit_passage reads
  have mentioned := mentions_items whole
  have all : (tokenize source).tokens = lead ++ tokens ++ trail := rest
  have ordered := ordered_tokens source
  rw [all] at ordered
  constructor
  · intro token member isName outside notHeader
    obtain ⟨start, inOrder⟩ := ordered.append_left.append_right
    obtain ⟨distinct, named⟩ := covers.names inOrder
    have spans : (nameSpans ((parse source options).unit.items.flatMap Operation.leaves)).Perm
        (parse source options).unit.nameSpans := by
      have mapped := mentioned.filterMap Mention.nameSpan?
      rw [List.filterMap_append, List.filterMap_map, List.filterMap_map] at mapped
      apply mapped.trans
      rw [Module.nameSpans, ← List.filterMap_eq_map, ← List.filterMap_eq_map]
      exact .refl _
    have listed : token ∈ tokens := by
      rw [all] at member
      by_contra absent
      have inHeader : token ∈ lead ++ trail := by
        simp only [List.mem_append] at member ⊢
        tauto
      rcases around.name ordered.append_left.append_left inHeader isName with
        ⟨value, given, inside⟩ | ⟨header, name, found, same, span⟩
      · apply outside value.span _ inside
        apply List.mem_append_left
        rw [given]
        exact List.mem_singleton_self _
      · exact notHeader header name found same span
    rw [← spans.count_eq]
    apply List.count_eq_one_of_mem distinct
    apply named token listed isName
    intro span isOpaque
    apply outside span
    rw [List.flatMap_assoc] at isOpaque
    exact List.mem_append_right _ isOpaque
  · exact parse_definitions_perm clean

/-- A module with a function that returns its argument. -/
def identityModule : String :=
  "module @m { cir.func @f(%a : !t) { cir.return %a : !t } }"

theorem identityModule_clean : (parse identityModule {}).hasErrors = false := by
  cbv

theorem identityModule_read :
    (parse identityModule {}).unit.header = some ⟨some ⟨"@m", ⟨7, 9⟩⟩, none, ⟨0, 9⟩⟩ ∧
      (parse identityModule {}).unit.opaqueSpans = [⟨29, 31⟩, ⟨51, 53⟩] ∧
      (tokenize identityModule).tokens[12]? = some ⟨.value, "%a", ⟨46, 48⟩⟩ :=
  ⟨by cbv, by cbv, by cbv⟩

/-- The argument that is returned there is referred to once. -/
theorem parse_names_identity :
    (parse identityModule {}).hasErrors = false ∧
      (parse identityModule {}).unit.nameSpans.count ⟨46, 48⟩ = 1 ∧
      (parse identityModule {}).unit.definitions.Perm
        (parse identityModule {}).unit.symbols.entries := by
  obtain ⟨counted, defined⟩ := parse_names identityModule_clean
  obtain ⟨header, isOpaque, token⟩ := identityModule_read
  refine ⟨identityModule_clean, counted _ (List.mem_of_getElem? token) rfl ?_ ?_, defined⟩
  · rw [isOpaque]
    decide
  · intro found name same named
    rw [header] at same
    cases same
    cases named
    decide

end CirText
