import CirText.Proofs.Names
import CirText.Proofs.Printed
import CirText.Proofs.Token.Spelling

/-!
# No token is lost when a module is printed

The leaves of a module are printed without running together, so the printed text has the tokens of
its leaves. These are the tokens that the module was read from, commas aside, if every symbol has a
name that can be read back when it is quoted.
-/

namespace CirText

open CirText.Parser

variable {R : Type}

open CirText.Lexer CirText.Shape

/-! ## Tokens by class and text -/

/-- A token by its class and its text. The name of a symbol stands for the ways of quoting it. -/
def Token.key (token : Token) : TokenKind × String :=
  (token.kind, if token.kind = .symbol then token.name else token.text)

/-- Tokens by class and text, without commas. -/
def keys (tokens : List Token) : List (TokenKind × String) :=
  (tokens.filter Token.isSignificant).map Token.key

/-- The keys of the tokens among contents. -/
def keysOf (contents : List (Option (TokenKind × String))) : List (TokenKind × String) :=
  keys (contents.filterMap fun content => content.map fun (kind, text) => ⟨kind, text, .emptyAt 0⟩)

theorem keys_append (left right : List Token) : keys (left ++ right) = keys left ++ keys right := by
  rw [keys, List.filter_append, List.map_append]
  rfl

theorem keysOf_append (left right : List (Option (TokenKind × String))) :
    keysOf (left ++ right) = keysOf left ++ keysOf right := by
  rw [keysOf, List.filterMap_append, keys_append]
  rfl

theorem keysOf_flatMap {α : Type} (items : List α)
    (f : α → List (Option (TokenKind × String))) :
    keysOf (items.flatMap f) = items.flatMap fun a => keysOf (f a) := by
  induction items with
  | nil => rfl
  | cons a items ih => rw [List.flatMap_cons, List.flatMap_cons, keysOf_append, ih]

/-- Keys do not depend on where tokens stand. -/
theorem keysOf_contentsOf (tokens : List Token) : keysOf (contentsOf tokens) = keys tokens := by
  have moved : (contentsOf tokens).filterMap
      (fun content => content.map fun (kind, text) => Token.mk kind text (.emptyAt 0)) =
        tokens.map fun token => { token with span := .emptyAt 0 } := by
    rw [contentsOf, List.filterMap_map, ← List.filterMap_eq_map]
    rfl
  rw [keysOf, moved, keys, List.filter_map, List.map_map]
  rfl

theorem keys_singleton_congr {token other : Token} (same : token.key = other.key) :
    keys [token] = keys [other] := by
  have kind : token.kind = other.kind := congrArg Prod.fst same
  have significant : token.isSignificant = other.isSignificant := by
    rw [Token.isSignificant, Token.isSignificant, kind]
  rw [keys, keys, List.filter_singleton, List.filter_singleton, significant]
  cases other.isSignificant with
  | false => rfl
  | true => exact congrArg (fun key => [key]) same

theorem keysOf_contents (source : String) :
    keysOf (contents source.toList) = keys (tokenize source).tokens := by
  have tokens : (contents source.toList).filter Option.isSome =
      contentsOf (tokenize source).tokens := by
    change ((lexItems source).map content).filter Option.isSome =
      contentsOf (tokensOf (lexItems source))
    induction lexItems source with
    | nil => rfl
    | cons item items ih =>
      cases item with
      | token token => exact congrArg (_ :: ·) ih
      | error error => exact ih
  rw [← keysOf_contentsOf, ← tokens, keysOf, keysOf, List.filterMap_filter]
  congr 2
  funext content
  cases content <;> rfl

/-- Whether the tokens of the text of a leaf are, up to quoting and commas, the given ones, wherever
the text is put. -/
structure Piece.Faithful (leaf : Leaf) (taken : List Token) : Prop where
  isSealed : Sealed leaf.text.toList
  prints : leaf.Prints
  keys : keysOf (contents leaf.text.toList) = keys taken

theorem Piece.Faithful.of_lexed {kind : TokenKind} {leaf : Leaf} {token : Token}
    (lexed : Lexed kind leaf.text.toList)
    (spelled : ∀ printed span, leaf.SpelledBy printed noRegion [⟨kind, leaf.text, span⟩])
    (same : Token.key ⟨kind, leaf.text, .emptyAt 0⟩ = token.key) : leaf.Faithful [token] where
  isSealed := lexed.isSealed
  prints := prints_of_lexed lexed spelled
  keys := by
    rw [lexed.contents, String.ofList_toList]
    exact keys_singleton_congr same

/-- Whether a leaf, if it is a symbol, has a name that can be read when it is quoted. -/
def Piece.Readable : Leaf → Prop
  | .reference used => used.kind = .symbol → ∀ c ∈ used.name.toList, Text.Quoted.isReadable c = true
  | .definition defined =>
    defined.kind = .symbol → ∀ c ∈ defined.name.toList, Text.Quoted.isReadable c = true
  | _ => True

theorem faithful_blank : Piece.Faithful .blank [] where
  isSealed offset later _ := by
    have alone := itemsFrom_trivia trivia_blank offset []
    rw [List.append_nil, itemsFrom_nil] at alone
    exact (itemsFrom_trivia trivia_blank offset later).trans (congrArg (· ++ _) alone.symm)
  prints := prints_blank
  keys := by
    rw [contents_text_blank]
    rfl

theorem faithful_comma {text : String}
    (marked : Piece.Marked (.token (.punct .comma) text : Leaf)) :
    Piece.Faithful (.token (.punct .comma) text) [] := by
  obtain rfl : text = Punct.comma.text := marked
  refine ⟨fun offset later _ => itemsFrom_punct .comma offset later, prints_punct .comma, ?_⟩
  rw [Piece.text, contents_punct]
  rfl

theorem Embedded.faithful {source : String} (clean : (tokenize source).errors = [])
    {taken : List Token} {text : String} {span : Span}
    (embedded : Embedded source.toList taken text span)
    (within : taken <:+: (tokenize source).tokens) {leaf : Leaf} (same : leaf.text = text)
    (spelled : ∀ printed tokens, Copied printed text tokens →
      leaf.SpelledBy printed noRegion tokens) :
    leaf.Faithful taken := by
  obtain ⟨isSlice, first, last, starts, ends, rfl⟩ := embedded
  obtain ⟨tokens, made, contents⟩ := madeOf_slice clean within starts ends
  rw [← String.toList_ofList (l := Span.slice _ _), ← isSlice] at made
  have several : tokens ≠ [] := by
    rintro rfl
    obtain ⟨more, rfl⟩ := List.head?_eq_some_iff.1 starts
    cases contents
  refine ⟨same ▸ made.isSealed, fun before after => ?_, ?_⟩
  · obtain ⟨found, items, copied⟩ := copied_of_madeOf made several before after
    rw [same]
    exact ⟨found, items, spelled _ _ copied⟩
  · rw [same, made.contents, contents]
    exact keysOf_contentsOf taken

/-- A name is printed as a token with the same name. -/
theorem faithful_spelling {token : Token} {kind : NameKind} {name : String}
    (lexed : Lexed token.kind token.text.toList) (isName : token.kind = nameToken kind)
    (named : token.name = name)
    (readable : kind = .symbol → ∀ c ∈ name.toList, Text.Quoted.isReadable c = true) {leaf : Leaf}
    (same : leaf.text = kind.spelling name)
    (spelled : ∀ printed (other : Token), other.kind = nameToken kind → other.name = name →
      leaf.SpelledBy printed noRegion [other]) : leaf.Faithful [token] := by
  by_cases isSymbol : kind = .symbol
  · subst isSymbol
    have isLexed : Lexed .symbol leaf.text.toList := by
      rw [same]
      exact lexed_symbol name
    have isKind : token.kind = .symbol := isName
    have readBack : ∀ span, Token.name ⟨.symbol, leaf.text, span⟩ = name := fun span => by
      rw [same]
      exact (name_symbol_eq_iff name span).mpr (readable rfl)
    apply Piece.Faithful.of_lexed isLexed
    · exact fun printed span => spelled printed _ rfl (readBack span)
    · rw [Token.key, Token.key, if_pos rfl, if_pos isKind, readBack, named, isKind]
  · have text : leaf.text = token.text := by
      rw [same, ← named, lexed.spelling isSymbol isName]
    apply Piece.Faithful.of_lexed (text ▸ lexed)
    · intro printed span
      rw [text]
      exact spelled printed _ isName named
    · rw [text]
      rfl

/-- The text of a leaf has the tokens that the leaf was read from. -/
theorem Piece.ReadFrom.faithful {source : String} (clean : (tokenize source).errors = [])
    {leaf : Leaf} {taken : List Token} (read : leaf.ReadFrom source.toList taken)
    (within : taken <:+: (tokenize source).tokens) (readable : leaf.Readable) :
    leaf.Faithful taken := by
  have inSource : ∀ {token}, taken = [token] → Lexed token.kind token.text.toList := by
    rintro token rfl
    exact lexed_of_mem clean (within.subset List.mem_cons_self)
  cases leaf with
  | region inner => cases inner
  | type written => exact Embedded.faithful clean read within rfl fun _ _ copied => copied
  | «attribute» value => exact Embedded.faithful clean read within rfl fun _ _ copied => copied
  | reference used =>
    obtain ⟨token, rfl, kind, named, _⟩ := read
    exact faithful_spelling (inSource rfl) kind named readable rfl
      fun _ _ isName same => ⟨_, rfl, isName, same⟩
  | definition defined =>
    obtain ⟨token, rfl, kind, named, _⟩ := read
    exact faithful_spelling (inSource rfl) kind named readable rfl
      fun _ _ isName same => ⟨_, rfl, isName, same⟩
  | blank =>
    obtain rfl : taken = [] := read
    exact faithful_blank
  | token kind text =>
    obtain ⟨_, token, rfl, rfl, rfl⟩ := read
    have lexed := inSource rfl
    have written : token.written = token.text := by
      unfold Token.written
      split
      · rename_i mark isMark
        rw [isMark] at lexed
        exact String.toList_inj.1 lexed.punct.symm
      · rfl
    have text : Piece.text (.token token.kind token.written) = token.text := written
    apply Piece.Faithful.of_lexed (text ▸ lexed)
    · exact fun _ _ => ⟨_, rfl, rfl, rfl⟩
    · rw [text]
      rfl

/-! ## Leaves and their tokens -/

/-- Whether the tokens of the texts of leaves are, up to order, quoting and commas, the given
ones. -/
structure Conveys (leaves : List Leaf) (tokens : List Token) : Prop where
  isSealed : ∀ leaf ∈ leaves, Sealed leaf.text.toList
  prints : ∀ leaf ∈ leaves, leaf.Prints
  keys : (leaves.flatMap fun leaf => keysOf (contents leaf.text.toList)).Perm (keys tokens)

namespace Conveys

variable {leaves more : List Leaf} {tokens others : List Token}

theorem nil : Conveys [] [] :=
  ⟨List.forall_mem_nil _, List.forall_mem_nil _, .refl _⟩

theorem append (left : Conveys leaves tokens) (right : Conveys more others) :
    Conveys (leaves ++ more) (tokens ++ others) where
  isSealed := List.forall_mem_append.2 ⟨left.isSealed, right.isSealed⟩
  prints := List.forall_mem_append.2 ⟨left.prints, right.prints⟩
  keys := by
    rw [List.flatMap_append, keys_append]
    exact left.keys.append right.keys

theorem leaf {one : Leaf} (faithful : one.Faithful tokens) : Conveys [one] tokens where
  isSealed := List.forall_mem_singleton.2 faithful.isSealed
  prints := List.forall_mem_singleton.2 faithful.prints
  keys := by
    rw [List.flatMap_singleton, faithful.keys]

theorem blank : Conveys [.blank] [] :=
  leaf faithful_blank

theorem token {token : Token} (lexed : Lexed token.kind token.text.toList) :
    Conveys [.token token.kind token.text] [token] :=
  leaf (.of_lexed lexed (fun _ _ => ⟨_, rfl, rfl, rfl⟩) rfl)

theorem word {token : Token} {text : String} (isWord : token.isWord text = true)
    (lexed : Lexed token.kind token.text.toList) : Conveys [.word text] [token] := by
  obtain ⟨kind, same⟩ := Bool.and_eq_true_iff.1 isWord
  have one := Conveys.token lexed
  rwa [beq_iff_eq.1 kind, beq_iff_eq.1 same] at one

theorem punct {token : Token} {mark : Punct} (isMark : token.isPunct mark = true)
    (lexed : Lexed token.kind token.text.toList) : Conveys [.punct mark] [token] := by
  have one := Conveys.token lexed
  rw [beq_iff_eq.1 isMark] at lexed one
  rwa [String.toList_inj.1 lexed.punct] at one

end Conveys

/-- Leaves that need not stand for tokens have none. -/
theorem faithful_insignificant {leaf : Leaf} (insignificant : leaf.isSignificant = false)
    (marked : leaf.Marked) : leaf.Faithful [] := by
  unfold Piece.isSignificant at insignificant
  split at insignificant
  · exact faithful_blank
  · obtain rfl := bne_eq_false_iff_eq.1 insignificant
    exact faithful_comma marked
  · cases insignificant

/-- Leaves that account for tokens of a source unit have these tokens. -/
theorem Covers.conveys {source : String} (clean : (tokenize source).errors = [])
    {leaves : List Leaf} {tokens : List Token} (covers : Covers source.toList leaves tokens)
    (within : tokens <:+: (tokenize source).tokens) (marked : ∀ leaf ∈ leaves, leaf.Marked)
    (readable : ∀ leaf ∈ leaves, leaf.Readable) : Conveys leaves tokens := by
  obtain ⟨parts, read, leavesPerm, tokensPerm⟩ := covers
  have faithful : ∀ part ∈ parts, part.1.Faithful part.2 := by
    intro part member
    obtain ⟨readFrom, inside⟩ := read part member
    have isLeaf := (List.mem_filter.1 (leavesPerm.mem_iff.1 (List.mem_map_of_mem member))).1
    exact readFrom.faithful clean (inside.trans within) (readable part.1 isLeaf)
  have some : ∀ leaf ∈ leaves, ∃ taken, leaf.Faithful taken := by
    intro leaf member
    cases significant : leaf.isSignificant with
    | false => exact ⟨[], faithful_insignificant significant (marked leaf member)⟩
    | true =>
      have isPart := leavesPerm.mem_iff.2 (List.mem_filter.2 ⟨member, significant⟩)
      obtain ⟨part, among, rfl⟩ := List.mem_map.1 isPart
      exact ⟨part.2, faithful part among⟩
  refine ⟨fun leaf member => ?_, fun leaf member => ?_, ?_⟩
  · obtain ⟨_, isFaithful⟩ := some leaf member
    exact isFaithful.isSealed
  · obtain ⟨_, isFaithful⟩ := some leaf member
    exact isFaithful.prints
  · have dropped : ∀ leaves : List Leaf, (∀ leaf ∈ leaves, leaf.Marked) →
        (leaves.flatMap fun leaf => keysOf (contents leaf.text.toList)) =
          (leaves.filter Piece.isSignificant).flatMap
            fun leaf => keysOf (contents leaf.text.toList) := by
      intro leaves marked
      induction leaves with
      | nil => rfl
      | cons leaf leaves ih =>
        obtain ⟨here, later⟩ := List.forall_mem_cons.1 marked
        rw [List.flatMap_cons, ih later]
        cases significant : leaf.isSignificant with
        | true => rw [List.filter_cons_of_pos significant, List.flatMap_cons]
        | false =>
          rw [List.filter_cons_of_neg (ne_true_of_eq_false significant),
            (faithful_insignificant significant here).keys]
          rfl
    have each : (parts.flatMap fun part => keysOf (contents part.1.text.toList)) =
        parts.flatMap fun part => keys part.2 :=
      List.flatMap_congr fun part member => (faithful part member).keys
    have all : (parts.flatMap fun part => keys part.2) = keys (parts.flatMap Prod.snd) := by
      rw [keys, List.filter_flatMap, List.map_flatMap]
      rfl
    rw [dropped leaves marked]
    apply (leavesPerm.symm.flatMap_right _).trans
    rw [List.flatMap_map, each, all]
    exact tokensPerm.map _

/-- The leaves of the header of a module have the tokens that it was read from. -/
theorem Module.headerLeaves_conveys {source : String} (clean : (tokenize source).errors = [])
    {header : ModuleHeader} {lead trail : List Token}
    (around : HeaderTokens source.toList (some header) lead trail)
    (within : lead <:+: (tokenize source).tokens) (last : trail <:+: (tokenize source).tokens) :
    Conveys (headerLeaves header) lead ∧ Conveys [.blank, .punct .rightBrace, .blank] trail := by
  obtain ⟨word, name, attributes, opening, closing, rfl, rfl, isModule, isName, isAttributes,
    isOpening, isClosing⟩ := around
  have inSource : ∀ token ∈ word :: (name ++ attributes ++ [opening]),
      Lexed token.kind token.text.toList := fun token member =>
    lexed_of_mem clean (within.subset member)
  have nameWithin : Conveys
      (header.name.toList.flatMap fun name => [.blank, .token .symbol name.text]) name := by
    unfold NameTokens at isName
    split at isName
    · rename_i none
      rw [isName, none]
      exact .nil
    · rename_i found given
      obtain ⟨token, rfl, kind, rfl⟩ := isName
      have one := Conveys.blank.append (.token (inSource token (by simp)))
      rw [kind] at one
      rw [given]
      exact one
  have attributesWithin : Conveys
      (header.attributes.toList.flatMap
        fun value => [.blank, .word "attributes", .blank, .attribute value]) attributes := by
    unfold AttributeTokens at isAttributes
    split at isAttributes
    · rename_i none
      rw [isAttributes, none]
      exact .nil
    · rename_i value given
      obtain ⟨first, taken, rfl, isWord, embedded⟩ := isAttributes
      have inside : taken <:+: (tokenize source).tokens :=
        List.IsInfix.trans ⟨word :: (name ++ [first]), [opening], by simp⟩ within
      have text : Piece.Faithful (.attribute value) taken :=
        embedded.faithful clean inside rfl fun _ _ copied => copied
      rw [given]
      exact .append .blank (.append (.word isWord (inSource first (by simp)))
        (.append .blank (.leaf text)))
  constructor
  · exact .append (.word isModule (inSource word (by simp)))
      (.append (nameWithin.append attributesWithin)
        (.append .blank (.punct isOpening (inSource opening (by simp)))))
  · have lexed := lexed_of_mem clean (last.subset List.mem_cons_self)
    exact .append .blank (.append (.punct isClosing lexed) .blank)

/-- The leaves of a module have the tokens that it was read from. -/
theorem Covers.module_conveys {source : String} (clean : (tokenize source).errors = [])
    {unit : Module} {lead tokens trail : List Token}
    (covers : Covers source.toList (unit.items.flatMap Operation.leaves) tokens)
    (all : (tokenize source).tokens = lead ++ tokens ++ trail)
    (around : HeaderTokens source.toList unit.header lead trail)
    (marked : ∀ leaf ∈ unit.leaves, leaf.Marked) (readable : ∀ leaf ∈ unit.leaves, leaf.Readable) :
    Conveys unit.leaves (tokenize source).tokens := by
  have within : tokens <:+: (tokenize source).tokens := ⟨lead, trail, all.symm⟩
  have spaced : ∀ f : Operation → List Leaf,
      (∀ op, (f op).filter Piece.isSignificant = op.leaves.filter Piece.isSignificant) →
        Covers source.toList (unit.items.flatMap f) tokens := by
    intro f same
    apply covers.congr
    rw [List.filter_flatMap, List.filter_flatMap]
    exact .of_eq (List.flatMap_congr fun op _ => (same op).symm)
  unfold Module.leaves at marked readable ⊢
  cases given : unit.header with
  | none =>
    rw [given] at marked readable around
    obtain ⟨rfl, rfl⟩ := around
    rw [all, List.append_nil]
    exact (spaced _ fun op => by simp [Piece.isSignificant]).conveys clean within marked readable
  | some header =>
    rw [given] at marked readable around
    obtain ⟨before, after⟩ := Module.headerLeaves_conveys clean around
      ⟨[], tokens ++ trail, by rw [all]; simp⟩ ⟨lead ++ tokens, [], by rw [all]; simp⟩
    rw [all]
    refine (before.append ?_).append after
    apply (spaced _ fun op => by simp [Piece.isSignificant]).conveys clean within
    · intro leaf member
      exact marked leaf (List.mem_append_left _ (List.mem_append_right _ member))
    · intro leaf member
      exact readable leaf (List.mem_append_left _ (List.mem_append_right _ member))

/-- If the symbols that a module defines and refers to can be read when they are quoted, so can
those among its leaves. -/
theorem Module.readable_leaves {unit : Module} (whole : ∀ op ∈ unit.items, op.Whole)
    (defined : ∀ definition ∈ unit.definitions, definition.kind = .symbol →
      ∀ c ∈ definition.name.toList, Text.Quoted.isReadable c = true)
    (used : ∀ reference ∈ unit.references, reference.kind = .symbol →
      ∀ c ∈ reference.name.toList, Text.Quoted.isReadable c = true) :
    ∀ leaf ∈ unit.leaves, leaf.Readable := by
  have items : ∀ leaf ∈ unit.items.flatMap Operation.leaves, leaf.Readable := by
    intro leaf member
    have mentioned : ∀ mention, leaf.mention? = some mention →
        mention ∈ unit.definitions.map .definition ++ unit.references.map .reference := by
      intro mention same
      apply (mentions_items whole).mem_iff.1
      rw [mentions_eq_filterMap]
      exact List.mem_filterMap.2 ⟨leaf, member, same⟩
    cases leaf with
    | reference reference =>
      have isReference : reference ∈ unit.references := by simpa using mentioned _ rfl
      exact used reference isReference
    | definition definition =>
      have isDefinition : definition ∈ unit.definitions := by simpa using mentioned _ rfl
      exact defined definition isDefinition
    | _ => trivial
  rw [leaves]
  cases unit.header with
  | none =>
    intro leaf member
    obtain ⟨op, isItem, inOp⟩ := List.mem_flatMap.1 member
    rcases List.mem_append.1 inOp with here | blank
    · exact items leaf (List.mem_flatMap.2 ⟨op, isItem, here⟩)
    · rw [List.mem_singleton.1 blank]
      trivial
  | some header =>
    have around : ∀ leaf ∈ headerLeaves header, leaf.Readable := by
      obtain ⟨name, attributes, span⟩ := header
      cases name <;> cases attributes <;>
        simp [headerLeaves, Piece.Readable, Piece.word, Piece.punct]
    refine List.forall_mem_append.2 ⟨List.forall_mem_append.2 ⟨around, ?_⟩, ?_⟩
    · intro leaf member
      obtain ⟨op, isItem, inOp⟩ := List.mem_flatMap.1 member
      rcases List.mem_cons.1 inOp with rfl | here
      · trivial
      · exact items leaf (List.mem_flatMap.2 ⟨op, isItem, here⟩)
    · simp [Piece.Readable, Piece.punct]

section Parsed

variable {source : String} {options : Options} (clean : (parse source options).hasErrors = false)
  (defined : ∀ definition ∈ (parse source options).unit.definitions, definition.kind = .symbol →
    ∀ c ∈ definition.name.toList, Text.Quoted.isReadable c = true)
  (used : ∀ reference ∈ (parse source options).unit.references, reference.kind = .symbol →
    ∀ c ∈ reference.name.toList, Text.Quoted.isReadable c = true)

include clean in
/-- A source unit without errors is parsed into operations that can be printed. -/
theorem parse_whole : ∀ op ∈ (parse source options).unit.items, op.Whole := by
  obtain ⟨_, after, reads, _⟩ := parse_reads clean
  exact (sourceUnit_passage reads).1

include clean defined used

/-- The leaves of a module have the tokens of the source unit that it was parsed from. -/
theorem parse_conveys :
    Conveys (parse source options).unit.leaves (tokenize source).tokens := by
  obtain ⟨lexed, after, reads, _⟩ := parse_reads clean
  obtain ⟨whole, _, lead, tokens, trail, rest, around, covers⟩ := sourceUnit_passage reads
  exact covers.module_conveys lexed rest around (Module.leaves_fit whole).marked
    (Module.readable_leaves whole defined used)

/-- The tokens of the printed text stand for the leaves of the module. -/
theorem parse_print_spelled :
    (tokenize (parse source options).unit.print).errors = [] ∧
      Spelled (parse source options).unit.print.toList noRegion (parse source options).unit.leaves
        (tokenize (parse source options).unit.print).tokens := by
  have whole := parse_whole clean
  have conveys := parse_conveys clean defined used
  obtain ⟨tokens, items, spelled⟩ := (Module.written whole).spelled (Module.leaves_fit whole).apart
    conveys.isSealed conveys.prints []
  have items : lexItems (parse source options).unit.print = tokens.map .token := items
  have same : (tokenize (parse source options).unit.print).tokens = tokens := by
    change tokensOf (lexItems _) = tokens
    rw [items, tokensOf_map]
  refine ⟨?_, same ▸ spelled⟩
  rw [tokenize, items]
  exact List.filterMap_eq_nil_iff.2 (List.forall_mem_map.2 fun _ _ => rfl)

end Parsed

/-- No token is lost or invented when a source unit without errors is parsed and printed: commas
aside, the printed text has the tokens of the source text, in some order. Symbols count by their
names, since printing may quote them differently. -/
theorem parse_print_tokens {source : String} {options : Options}
    (clean : (parse source options).hasErrors = false)
    (defined : ∀ definition ∈ (parse source options).unit.definitions, definition.kind = .symbol →
      ∀ c ∈ definition.name.toList, Text.Quoted.isReadable c = true)
    (used : ∀ reference ∈ (parse source options).unit.references, reference.kind = .symbol →
      ∀ c ∈ reference.name.toList, Text.Quoted.isReadable c = true) :
    (keys (tokenize (parse source options).unit.print).tokens).Perm
      (keys (tokenize source).tokens) := by
  have whole := parse_whole clean
  have conveys := parse_conveys clean defined used
  have text := (Module.written whole).contents (Module.leaves_fit whole).apart conveys.isSealed
  rw [← keysOf_contents, text, keysOf_flatMap]
  exact conveys.keys

/-- A function with a name that is quoted though it need not be. -/
def quotedFunction : String :=
  "cir.func @\"f\"(%a : !t) { cir.return %a : !t }"

theorem quotedFunction_clean : (parse quotedFunction {}).hasErrors = false := by
  cbv

theorem quotedFunction_names :
    (parse quotedFunction {}).unit.definitions.map (fun defined => (defined.kind, defined.name)) =
        [(.symbol, "f"), (.value, "a")] ∧
      (parse quotedFunction {}).unit.references.map (fun used => (used.kind, used.name)) =
        [(.value, "a")] :=
  ⟨by cbv, by cbv⟩

/-- That function is printed without quotes, with the same tokens by class and name. -/
theorem parse_print_tokens_quoted :
    (parse quotedFunction {}).hasErrors = false ∧
      (keys (tokenize (parse quotedFunction {}).unit.print).tokens).Perm
        (keys (tokenize quotedFunction).tokens) := by
  obtain ⟨defined, used⟩ := quotedFunction_names
  refine ⟨quotedFunction_clean, parse_print_tokens quotedFunction_clean ?_ ?_⟩
  · intro definition member isSymbol
    have listed := List.mem_map_of_mem (f := fun defined => (defined.kind, defined.name)) member
    rw [defined, List.mem_pair] at listed
    rcases listed with isFunction | isArgument
    · rw [(Prod.mk.inj isFunction).2]
      exact List.all_eq_true.1 (by decide +kernel : "f".toList.all Text.Quoted.isReadable = true)
    · rw [(Prod.mk.inj isArgument).1] at isSymbol
      cases isSymbol
  · intro reference member isSymbol
    have listed := List.mem_map_of_mem (f := fun used => (used.kind, used.name)) member
    rw [used, List.mem_singleton] at listed
    rw [(Prod.mk.inj listed).1] at isSymbol
    cases isSymbol

end CirText
