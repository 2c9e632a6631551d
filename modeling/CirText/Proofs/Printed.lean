import CirText.Proofs.Layout
import CirText.Proofs.Token.Contents

/-!
# What the tokens of printed text spell

The tokens of a printed text stand for the pieces that were printed, one after the other. A blank
has no token; a name, a mark or a word has one; a type or an attribute has those of its text, and
from the first to the last of them stands just this text again.
-/

namespace CirText

open CirText.Lexer CirText.Parser CirText.Shape

variable {R S α : Type}

/-- Whether tokens of a printed text are those of a text that has been copied into it. -/
structure Copied (printed : List Char) (text : String) (tokens : List Token) : Prop where
  /-- They are the tokens of the text. -/
  contents : contentsOf tokens = Lexer.contents text.toList
  /-- The text stands from the first to the last of them. -/
  slice : ∃ first last, tokens.head? = some first ∧ tokens.getLast? = some last ∧
    (first.span.cover last.span).slice printed = text.toList

/-- Whether tokens of a printed text stand for a piece, given whether they do so for a region. -/
def Piece.SpelledBy (printed : List Char) (region : R → List Token → Prop) :
    Piece R → List Token → Prop
  | .blank, tokens => tokens = []
  | .token kind text, tokens => ∃ token, tokens = [token] ∧ token.kind = kind ∧ token.text = text
  | .reference used, tokens => ∃ token, tokens = [token] ∧ token.kind = nameToken used.kind ∧
      token.name = used.name
  | .definition defined, tokens => ∃ token, tokens = [token] ∧
      token.kind = nameToken defined.kind ∧ token.name = defined.name
  | .type written, tokens => Copied printed written.text tokens
  | .attribute value, tokens => Copied printed value.text tokens
  | .region inner, tokens => region inner tokens

/-- Whether tokens of a printed text stand for pieces, one after the other. -/
def Spelled (printed : List Char) (region : R → List Token → Prop) :
    List (Piece R) → List Token → Prop
  | [], tokens => tokens = []
  | piece :: pieces, tokens => ∃ here later, tokens = here ++ later ∧
      piece.SpelledBy printed region here ∧ Spelled printed region pieces later

namespace Spelled

variable {printed : List Char} {region : R → List Token → Prop} {pieces more : List (Piece R)}
  {piece : Piece R} {tokens : List Token}

theorem append_iff : Spelled printed region (pieces ++ more) tokens ↔
    ∃ left right, tokens = left ++ right ∧ Spelled printed region pieces left ∧
      Spelled printed region more right := by
  induction pieces generalizing tokens with
  | nil =>
    constructor
    · intro spelled
      exact ⟨[], tokens, rfl, rfl, spelled⟩
    · rintro ⟨_, right, rfl, rfl, spelled⟩
      exact spelled
  | cons piece pieces ih =>
    constructor
    · rintro ⟨here, later, rfl, spelled, rest⟩
      obtain ⟨left, right, rfl, first, second⟩ := ih.1 rest
      exact ⟨here ++ left, right, (List.append_assoc _ _ _).symm, ⟨here, left, rfl, spelled, first⟩,
        second⟩
    · rintro ⟨_, right, rfl, ⟨here, left, rfl, spelled, first⟩, second⟩
      exact ⟨here, left ++ right, List.append_assoc _ _ _, spelled,
        ih.2 ⟨left, right, rfl, first, second⟩⟩

theorem singleton_iff : Spelled printed region [piece] tokens ↔
    piece.SpelledBy printed region tokens := by
  constructor
  · rintro ⟨here, _, rfl, spelled, rfl⟩
    rwa [List.append_nil]
  · intro spelled
    exact ⟨tokens, [], (List.append_nil _).symm, spelled, rfl⟩

theorem blank_cons_iff : Spelled printed region (.blank :: pieces) tokens ↔
    Spelled printed region pieces tokens := by
  constructor
  · rintro ⟨_, later, rfl, rfl, rest⟩
    exact rest
  · intro spelled
    exact ⟨[], tokens, rfl, rfl, spelled⟩

theorem token_cons_iff {kind : TokenKind} {text : String} :
    Spelled printed region (.token kind text :: pieces) tokens ↔
      ∃ token rest, tokens = token :: rest ∧ (token.kind = kind ∧ token.text = text) ∧
        Spelled printed region pieces rest := by
  constructor
  · rintro ⟨_, later, rfl, ⟨token, rfl, same⟩, rest⟩
    exact ⟨token, later, rfl, same, rest⟩
  · rintro ⟨token, rest, rfl, same, spelled⟩
    exact ⟨[token], rest, rfl, ⟨token, rfl, same⟩, spelled⟩

/-- What is spelled with the leaves of regions in their place is spelled region by region. -/
theorem flatten {leaves : R → List Leaf} {none : Empty → List Token → Prop}
    (spelled : Spelled printed none (pieces.flatMap (Piece.flatten leaves)) tokens) :
    Spelled printed (fun inner => Spelled printed none (leaves inner)) pieces tokens := by
  induction pieces generalizing tokens with
  | nil => exact spelled
  | cons piece pieces ih =>
    rw [List.flatMap_cons] at spelled
    obtain ⟨here, later, rfl, first, rest⟩ := append_iff.1 spelled
    refine ⟨here, later, rfl, ?_, ih rest⟩
    cases piece with
    | region inner => exact first
    | _ => exact singleton_iff.1 first

/-! ## Items with commas between them -/

/-- Whether tokens stand for items each of which comes after a comma. -/
inductive Tail (item : α → List Token → Prop) : List α → List Token → Prop where
  /-- No further item. -/
  | nil : Tail item [] []
  /-- A comma and an item. -/
  | cons {a : α} {items : List α} {comma : Token} {here later : List Token}
      (isComma : comma.isPunct .comma = true) (first : item a here) (rest : Tail item items later) :
      Tail item (a :: items) (comma :: (here ++ later))

theorem of_commaed_cons {pieces : α → List (Piece R)} {a : α} {items : List α}
    (spelled : Spelled printed region (Piece.commaed ((a :: items).map pieces)) tokens) :
    ∃ here later, tokens = here ++ later ∧ Spelled printed region (pieces a) here ∧
      Tail (fun a => Spelled printed region (pieces a)) items later := by
  induction items generalizing a tokens with
  | nil =>
    rw [List.map_singleton, Piece.commaed_singleton] at spelled
    exact ⟨tokens, [], (List.append_nil _).symm, spelled, .nil⟩
  | cons next items ih =>
    rw [List.map_cons, List.map_cons, Piece.commaed_cons_cons] at spelled
    obtain ⟨here, rest, rfl, first, more⟩ := append_iff.1 spelled
    obtain ⟨comma, rest, rfl, ⟨kind, _⟩, more⟩ := token_cons_iff.1 more
    obtain ⟨second, later, rfl, spelled, tail⟩ := ih (blank_cons_iff.1 more)
    exact ⟨here, _, rfl, first, .cons (beq_iff_eq.2 kind) spelled tail⟩

end Spelled

/-! ## Leaves of operations do not run together -/

theorem Piece.flatten_fit {leaves : R → List Leaf} {piece : Piece R} (marked : piece.Marked)
    (braced : ∀ inner, piece = .region inner → Edges.Fit ⟨true, true, true⟩ (leaves inner)) :
    (Edges.ofPiece piece).Fit (piece.flatten leaves) := by
  cases piece with
  | region inner => exact braced inner rfl
  | blank => exact .ofPiece .blank
  | token kind text =>
    have same : Edges.ofPiece (.token kind text : Piece R) =
        Edges.ofPiece (.token kind text : Leaf) := by
      cases kind <;> rfl
    have marked : (.token kind text : Leaf).Marked := by
      cases kind <;> exact marked
    rw [same]
    exact .ofPiece (.token kind text) marked
  | reference used => exact .ofPiece (.reference used)
  | definition defined => exact .ofPiece (.definition defined)
  | type written => exact .ofPiece (.type written)
  | «attribute» value => exact .ofPiece (.attribute value)

/-- Pieces that do not run together do not do so with the leaves of regions in their place. -/
theorem Piece.Spaced.flatten {leaves : R → List Leaf} {pieces : List (Piece R)}
    (spaced : Piece.Spaced pieces)
    (braced : ∀ inner, .region inner ∈ pieces → Edges.Fit ⟨true, true, true⟩ (leaves inner)) :
    Edges.Fit ⟨true, false, false⟩ (pieces.flatMap (Piece.flatten leaves)) := by
  have fit : Edges.Fit ⟨pieces.head?.all Piece.breaks, false, false⟩
      (pieces.flatMap (Piece.flatten leaves)) := by
    have chain := spaced.apart
    have marked := spaced.marked
    clear spaced
    induction pieces with
    | nil => exact .nil rfl
    | cons piece pieces ih =>
      obtain ⟨hereMarked, laterMarked⟩ := List.forall_mem_cons.1 marked
      have later := ih (fun inner member => braced inner (List.mem_cons_of_mem _ member)) chain.tail
        laterMarked
      have here : (Edges.ofPiece piece).Fit (piece.flatten leaves) :=
        Piece.flatten_fit hereMarked fun inner same => braced inner (same ▸ List.mem_cons_self)
      have apart : (piece.isFree || pieces.head?.all Piece.breaks) = true := by
        cases pieces with
        | nil => exact Bool.or_true _
        | cons next pieces =>
          rcases (List.isChain_cons_cons.1 chain).1 with free | breaks
          · exact Bool.or_eq_true_iff.2 (.inl free)
          · exact Bool.or_eq_true_iff.2 (.inr breaks)
      refine (here.append later apart).weaken (fun first => ?_) nofun nofun
      exact Bool.and_eq_true_iff.2 ⟨first, rfl⟩
  refine fit.weaken (fun _ => ?_) nofun nofun
  cases head : pieces.head? with
  | none => rfl
  | some piece => exact spaced.first piece head

theorem resultLeaves_fit (results : List Definition) :
    Edges.Fit ⟨true, true, false⟩ (resultLeaves results) := by
  unfold resultLeaves
  split
  · exact .nil rfl
  · rename_i some
    have names : Edges.Fit ⟨true, false, true⟩
        (Piece.commaed (results.map fun defined => [(.definition defined : Leaf)])) := by
      apply Edges.Fit.intercalate .commaSeparator
      · exact List.forall_mem_map.2 fun defined _ => .ofPiece (.definition defined)
      · simpa using some
    have equal := (Edges.Fit.ofPiece (.punct .equal : Leaf)).append (.ofPiece .blank) rfl
    exact (names.append ((Edges.Fit.ofPiece .blank).append equal rfl) rfl).optional

theorem Block.allLeaves_fit {block : Block Operation}
    (each : ∀ op ∈ block.ops, Edges.Fit ⟨false, false, true⟩ op.leaves) :
    Edges.Fit ⟨true, false, false⟩ block.allLeaves := by
  have header : Edges.Fit ⟨true, true, false⟩ block.headerLeaves := by
    unfold Block.headerLeaves
    cases block.label with
    | none => exact .nil rfl
    | some label =>
      exact ((Edges.Fit.ofPiece .blank).append (Grammar.blockHeader_fit _) rfl).optional
  have ops : Edges.Fit ⟨true, false, false⟩ (block.ops.flatMap fun op => .blank :: op.leaves) :=
    .flatMap rfl fun op member => ((Edges.Fit.ofPiece .blank).append (each op member) rfl).optional
  exact header.append ops rfl

theorem Region.allLeaves_fit {region : Region Operation}
    (each : ∀ op ∈ region.ops, Edges.Fit ⟨false, false, true⟩ op.leaves) :
    Edges.Fit ⟨true, true, true⟩ region.allLeaves := by
  have blocks : Edges.Fit ⟨true, false, false⟩ (region.blocks.flatMap Block.allLeaves) :=
    .flatMap rfl fun block member => Block.allLeaves_fit fun op inside =>
      each op (List.mem_flatMap.2 ⟨block, member, inside⟩)
  have closing := (Edges.Fit.ofPiece .blank).append
    (Edges.Fit.ofPiece (.punct .rightBrace : Leaf)) rfl
  rw [region.allLeaves_eq]
  exact (Edges.Fit.ofPiece (.punct .leftBrace)).append (blocks.append closing rfl) rfl

/-- The leaves of an operation do not run together. -/
theorem Operation.leaves_fit {op : Operation} (whole : op.Whole) :
    Edges.Fit ⟨false, false, true⟩ op.leaves := by
  induction op using Operation.induction with
  | step op ih =>
    have built := whole.built
    have body := @Piece.Spaced.flatten _ Region.allLeaves _ built.spaced fun region member =>
      Region.allLeaves_fit fun child inside =>
        have isChild : child ∈ op.children :=
          List.mem_flatMap.2 ⟨region, built.mem_regions member, inside⟩
        ih child isChild (whole.child isChild)
    rw [op.leaves_eq built]
    have keyword := (Edges.Fit.ofPiece (.token .keyword op.opcode.keyword)).append body rfl
    exact ((resultLeaves_fit op.results).append keyword rfl).weaken nofun nofun fun _ => rfl

/-! ## Tokens of printed text -/

/-- A text that starts with a leaf that goes on no token goes on no token. -/
theorem Written.breaks {leaf : Leaf} {leaves : List Leaf} {text : List Char}
    (written : Written (leaf :: leaves) text) (breaks : leaf.breaks = true) : Breaks text := by
  have sigil : ∀ (kind : NameKind) (name : String) (rest : List Char),
      Breaks ((kind.spelling name).toList ++ rest) := by
    intro kind name rest
    unfold NameKind.spelling
    split <;>
    · rw [String.toList_ofList]
      apply breaks_cons
      cases kind <;> decide
  cases written with
  | @blank _ blanks text all nonempty rest =>
    obtain ⟨c, blanks, rfl⟩ := List.exists_cons_of_ne_nil nonempty
    apply breaks_cons
    cases joining : joins c with
    | false => rfl
    | true =>
      have isBlank := all c List.mem_cons_self
      rw [not_isBlank_of_joins joining] at isBlank
      cases isBlank
  | leaf visible rest =>
    cases leaf with
    | blank => exact absurd rfl visible
    | region inner => cases inner
    | reference used => exact sigil used.kind used.name _
    | definition defined => exact sigil defined.kind defined.name _
    | type written => cases breaks
    | «attribute» value => cases breaks
    | token kind text =>
      cases kind with
      | punct mark =>
        simp only [Piece.breaks, Bool.and_eq_true, beq_iff_eq, bne_iff_ne] at breaks
        obtain ⟨⟨rfl, noArrow⟩, noEllipsis⟩ := breaks
        cases mark with
        | arrow => exact absurd rfl noArrow
        | ellipsis => exact absurd rfl noEllipsis
        | _ => exact breaks_cons (by decide)
      | _ => cases breaks

/-- A punctuation mark is read whatever follows it. -/
theorem itemsFrom_punct (mark : Punct) (offset : Nat) (later : List Char) :
    itemsFrom offset (mark.text.toList ++ later) =
      itemsFrom offset mark.text.toList ++
        itemsFrom (offset + Text.byteSize mark.text.toList) later := by
  have found : ∀ later, recognize (mark.text.toList ++ later) =
      some (.punct mark, mark.text.toList.length) := by
    intro later
    cases mark <;> rfl
  have nonempty : mark.text.toList ≠ [] := by cases mark <;> decide
  have alone := itemsFrom_token nonempty (found []) offset
  rw [List.append_nil, itemsFrom_nil] at alone
  rw [itemsFrom_token nonempty (found later), alone]
  rfl

theorem contents_punct (mark : Punct) :
    contents mark.text.toList = [some (.punct mark, mark.text)] := by
  cases mark <;> cbv

theorem contents_text_blank : Lexer.contents (Piece.text .blank).toList = [] := by
  have skipped := contents_trivia trivia_blank []
  rwa [contents_nil] at skipped

/-- The items of the first leaf of a text come before those of the rest. -/
theorem Written.itemsFrom_append {leaf : Leaf} {leaves : List Leaf} {text : List Char}
    (rest : Written leaves text) (visible : leaf ≠ .blank)
    (apart : (leaf :: leaves).IsChain Piece.Apart) (isSealed : Sealed leaf.text.toList)
    (offset : Nat) :
    itemsFrom offset (leaf.text.toList ++ text) = itemsFrom offset leaf.text.toList ++
      itemsFrom (offset + Text.byteSize leaf.text.toList) text := by
  have either : leaf.isFree = true ∨ Breaks text := by
    cases leaves with
    | nil =>
      cases rest
      exact .inr breaks_nil
    | cons next leaves =>
      rcases (List.isChain_cons_cons.1 apart).1 with free | breaks
      · exact .inl free
      · exact .inr (rest.breaks breaks)
  rcases either with free | breaks
  · cases leaf with
    | token kind written =>
      cases kind with
      | punct mark =>
        obtain rfl := beq_iff_eq.1 free
        exact itemsFrom_punct mark offset text
      | _ => cases free
    | blank => exact absurd rfl visible
    | region inner => cases inner
    | _ => cases free
  · exact isSealed offset text breaks

/-- The tokens of a text are those of its leaves. -/
theorem Written.contents {leaves : List Leaf} {text : List Char} (written : Written leaves text)
    (apart : leaves.IsChain Piece.Apart)
    (isSealed : ∀ leaf ∈ leaves, Sealed leaf.text.toList) :
    contents text = leaves.flatMap fun leaf => Lexer.contents leaf.text.toList := by
  induction written with
  | nil => exact contents_nil
  | @blank leaves blanks text all nonempty rest ih =>
    rw [contents_trivia (trivia_of_isBlank all), List.flatMap_cons, contents_text_blank,
      List.nil_append]
    exact ih apart.tail fun leaf member => isSealed leaf (List.mem_cons_of_mem _ member)
  | @leaf leaf leaves text visible rest ih =>
    have later := ih apart.tail fun leaf member => isSealed leaf (List.mem_cons_of_mem _ member)
    have here := rest.itemsFrom_append visible apart (isSealed leaf List.mem_cons_self) 0
    rw [List.flatMap_cons, ← later, Lexer.contents, here, List.map_append, map_content_itemsFrom,
      map_content_itemsFrom]

/-! ## Leaves of a text -/

/-- A leaf has no region. -/
def noRegion : Empty → List Token → Prop :=
  nofun

/-- Whether a leaf can be read back from its text, wherever that stands in a printed text. -/
def Piece.Prints (leaf : Leaf) : Prop :=
  ∀ before after, ∃ tokens,
    itemsFrom (Text.byteSize before) leaf.text.toList = tokens.map .token ∧
      leaf.SpelledBy (before ++ (leaf.text.toList ++ after)) noRegion tokens

theorem prints_blank : Piece.Prints .blank := by
  intro before _
  refine ⟨[], ?_, rfl⟩
  have skipped := itemsFrom_trivia trivia_blank (Text.byteSize before) []
  rwa [itemsFrom_nil] at skipped

/-- A leaf is read back if the one token of its text stands for it. -/
theorem prints_of_itemsFrom {leaf : Leaf} {kind : TokenKind}
    (items : ∀ offset, itemsFrom offset leaf.text.toList =
      [.token ⟨kind, leaf.text, offset, offset + Text.byteSize leaf.text.toList⟩])
    (spelled : ∀ printed span, leaf.SpelledBy printed noRegion [⟨kind, leaf.text, span⟩]) :
    leaf.Prints :=
  fun before _ => ⟨[_], items (Text.byteSize before), spelled _ _⟩

theorem prints_of_lexed {leaf : Leaf} {kind : TokenKind} (lexed : Lexed kind leaf.text.toList)
    (spelled : ∀ printed span, leaf.SpelledBy printed noRegion [⟨kind, leaf.text, span⟩]) :
    leaf.Prints := by
  refine prints_of_itemsFrom (fun offset => ?_) spelled
  rw [lexed.itemsFrom, String.ofList_toList]

theorem prints_punct (mark : Punct) : Piece.Prints (.punct mark) := by
  refine @prints_of_itemsFrom _ (.punct mark) (fun offset => ?_) fun printed span =>
    ⟨_, rfl, rfl, rfl⟩
  have found : recognize (mark.text.toList ++ []) =
      some (.punct mark, mark.text.toList.length) := by
    cases mark <;> rfl
  have nonempty : mark.text.toList ≠ [] := by cases mark <;> decide
  have alone := itemsFrom_token nonempty found offset
  rwa [List.append_nil, itemsFrom_nil, String.ofList_toList] at alone

theorem tokensOf_map (tokens : List Token) : tokensOf (tokens.map .token) = tokens := by
  induction tokens with
  | nil => rfl
  | cons token tokens ih => exact congrArg (token :: ·) ih

/-- A text that is made of tokens is copied. -/
theorem copied_of_madeOf {text : String} {tokens : List Token}
    (made : MadeOf text.toList tokens) (several : tokens ≠ []) (before after : List Char) :
    ∃ found, itemsFrom (Text.byteSize before) text.toList = found.map .token ∧
      Copied (before ++ (text.toList ++ after)) text found := by
  have items := made.itemsFrom (Text.byteSize before)
  let amount := Text.byteSize before
  refine ⟨_, items, ?_, ?_⟩
  · rw [contentsOf_shift, made.contents]
  · obtain ⟨first, starts⟩ := Option.isSome_iff_exists.1 (List.isSome_head?.2 several)
    obtain ⟨last, ends⟩ := Option.isSome_iff_exists.1 (List.getLast?_isSome.2 several)
    have ordered := ordered_itemsFrom (Text.byteSize before) text.toList
    rw [items, tokensOf_map] at ordered
    have firstMoved : (tokens.map (.shift amount)).head? = some (first.shift amount) := by
      rw [List.head?_map, starts, Option.map_some]
    have lastMoved : (tokens.map (.shift amount)).getLast? = some (last.shift amount) := by
      rw [List.getLast?_map, ends, Option.map_some]
    refine ⟨_, _, firstMoved, lastMoved, ?_⟩
    rw [ordered.cover_eq firstMoved lastMoved, Span.slice]
    simp only [Token.shift, Span.shift, made.start first starts, made.stop last ends]
    rw [Nat.zero_add, Nat.add_comm]
    exact Text.slice_append before text.toList after

/-- The tokens of a printed text stand for its leaves. -/
theorem Written.spelled {leaves : List Leaf} {text : List Char} (written : Written leaves text)
    (apart : leaves.IsChain Piece.Apart) (isSealed : ∀ leaf ∈ leaves, Sealed leaf.text.toList)
    (prints : ∀ leaf ∈ leaves, leaf.Prints) (before : List Char) :
    ∃ tokens, itemsFrom (Text.byteSize before) text = tokens.map .token ∧
      Spelled (before ++ text) noRegion leaves tokens := by
  induction written generalizing before with
  | nil => exact ⟨[], itemsFrom_nil _, rfl⟩
  | @blank leaves blanks text all nonempty rest ih =>
    obtain ⟨tokens, items, spelled⟩ := ih apart.tail
      (fun leaf member => isSealed leaf (List.mem_cons_of_mem _ member))
      (fun leaf member => prints leaf (List.mem_cons_of_mem _ member)) (before ++ blanks)
    rw [Text.byteSize_append] at items
    rw [List.append_assoc] at spelled
    exact ⟨tokens, (itemsFrom_trivia (trivia_of_isBlank all) _ _).trans items,
      Spelled.blank_cons_iff.2 spelled⟩
  | @leaf leaf leaves text visible rest ih =>
    obtain ⟨later, items, spelled⟩ := ih apart.tail
      (fun leaf member => isSealed leaf (List.mem_cons_of_mem _ member))
      (fun leaf member => prints leaf (List.mem_cons_of_mem _ member))
      (before ++ leaf.text.toList)
    obtain ⟨here, first, isSpelled⟩ := prints leaf List.mem_cons_self before text
    rw [Text.byteSize_append] at items
    rw [List.append_assoc] at spelled
    refine ⟨here ++ later, ?_, here, later, rfl, isSpelled, spelled⟩
    rw [rest.itemsFrom_append visible apart (isSealed leaf List.mem_cons_self), first, items,
      List.map_append]

/-! ## Modules -/

namespace Module

/-- The leaves of the header of a module up to the opening brace. -/
def headerLeaves (header : ModuleHeader) : List Leaf :=
  .word "module" ::
    (header.name.toList.flatMap (fun name => [.blank, .token .symbol name.text]) ++
      header.attributes.toList.flatMap
        (fun value => [.blank, .word "attributes", .blank, .attribute value]) ++
      [.blank, .punct .leftBrace])

/-- The leaves of a module. -/
def leaves (unit : Module) : List Leaf :=
  match unit.header with
  | none => unit.items.flatMap fun op => op.leaves ++ [.blank]
  | some header =>
    headerLeaves header ++ unit.items.flatMap (fun op => .blank :: op.leaves) ++
      [.blank, .punct .rightBrace, .blank]

theorem written_header (header : ModuleHeader) (amount : Nat) :
    Written (headerLeaves header) ((printHeader header).chars amount) := by
  have same : (printHeader header).chars amount =
      (headerLeaves header).flatMap fun leaf => leaf.text.toList := by
    obtain ⟨name, attributes, span⟩ := header
    cases name <;> cases attributes <;>
      simp [printHeader, headerLeaves, Piece.text, Piece.word, Piece.punct, Punct.text]
  rw [same]
  exact .texts _

/-- A module is printed as its leaves. -/
theorem written {unit : Module} (whole : ∀ op ∈ unit.items, op.Whole) :
    Written unit.leaves unit.print.toList := by
  rw [print, Layout.toList_render, layout, leaves]
  cases unit.header with
  | none =>
    rw [Layout.chars_flatMap]
    apply Written.flatMap
    intro op member
    rw [Layout.chars_append, Layout.chars_line]
    exact (op.written (whole op member) 0).append (.line _)
  | some header =>
    have items : Written (unit.items.flatMap fun op => .blank :: op.leaves)
        (Layout.chars 0 (unit.items.flatMap fun op =>
          Layout.line indentation ++ op.layout.shift indentation)) := by
      rw [Layout.chars_flatMap]
      apply Written.flatMap
      intro op member
      rw [Layout.chars_append, Layout.chars_line, Layout.chars_shift]
      exact (Written.line _).append (op.written (whole op member) _)
    have closing : Written [.blank, .punct .rightBrace, .blank]
        (Layout.chars 0 (Layout.line 0 ++ Layout.text "\x7d" ++ Layout.line 0)) := by
      rw [Layout.chars_append, Layout.chars_append, Layout.chars_line, Layout.chars_text]
      exact ((Written.line 0).append (.ofLeaf (.punct .rightBrace))).append (.line 0)
    have all := ((written_header header 0).append items).append closing
    simp only [Layout.chars_append, List.append_assoc] at all ⊢
    exact all

/-- The leaves of a module do not run together. -/
theorem leaves_fit {unit : Module} (whole : ∀ op ∈ unit.items, op.Whole) :
    Edges.Fit ⟨false, false, false⟩ unit.leaves := by
  have op_fit : ∀ op ∈ unit.items, Edges.Fit ⟨false, false, true⟩ op.leaves :=
    fun op member => op.leaves_fit (whole op member)
  rw [leaves]
  cases unit.header with
  | none =>
    have items : Edges.Fit ⟨false, true, false⟩
        (unit.items.flatMap fun op => op.leaves ++ [.blank]) :=
      .flatMap rfl fun op member => ((op_fit op member).append (.ofPiece .blank) rfl).optional
    exact items.weaken nofun nofun nofun
  | some header =>
    have oneName (name : Lexeme) :
        Edges.Fit ⟨true, false, true⟩ [(.blank : Leaf), .token .symbol name.text] :=
      (Edges.Fit.ofPiece .blank).append (.ofPiece (.token .symbol name.text)) rfl
    have oneValue (value : AttributeText) : Edges.Fit ⟨true, false, true⟩
        [(.blank : Leaf), .word "attributes", .blank, .attribute value] :=
      (Edges.Fit.ofPiece .blank).append ((Edges.Fit.ofPiece (.word "attributes")).append
        ((Edges.Fit.ofPiece .blank).append (.ofPiece (.attribute value)) rfl) rfl) rfl
    have name : Edges.Fit ⟨true, false, false⟩
        (header.name.toList.flatMap fun name => [(.blank : Leaf), .token .symbol name.text]) :=
      .flatMap rfl fun name _ => oneName name
    have attributes : Edges.Fit ⟨true, false, false⟩ (header.attributes.toList.flatMap fun value =>
        [(.blank : Leaf), .word "attributes", .blank, .attribute value]) :=
      .flatMap rfl fun value _ => oneValue value
    have opening := (Edges.Fit.ofPiece (.blank : Leaf)).append (.ofPiece (.punct .leftBrace)) rfl
    have start := (Edges.Fit.ofPiece (.word "module")).append
      ((name.append attributes rfl).append opening rfl) rfl
    have items : Edges.Fit ⟨true, false, false⟩ (unit.items.flatMap fun op =>
        .blank :: op.leaves) :=
      .flatMap rfl fun op member =>
        ((Edges.Fit.ofPiece .blank).append (op_fit op member) rfl).optional
    have closing := (Edges.Fit.ofPiece .blank).append
      ((Edges.Fit.ofPiece (.punct .rightBrace : Leaf)).append (.ofPiece .blank) rfl) rfl
    exact ((start.append items rfl).append closing rfl).weaken nofun nofun nofun

end Module


end CirText
