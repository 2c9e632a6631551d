import CirText.Proofs.Grammar.Pieces
import CirText.Proofs.Grammar.Reads
import Mathlib.Data.List.Chain

/-!
# Space between pieces

Two pieces that are printed next to each other must not run together. It is enough that the first
one ends by itself, as punctuation marks do, or that the second one starts with a character that
goes on no token. Whether this is so for all values that a grammar describes is computed from the
grammar.
-/

namespace CirText

open CirText.Parser

variable {R α : Type}

namespace Piece

/-- Whether nothing that follows can go on the piece. -/
def isFree : Piece R → Bool
  | .blank | .region _ => true
  | .token (.punct mark) text => text == mark.text
  | _ => false

/-- Whether the piece does not go on a token before it. -/
def breaks : Piece R → Bool
  | .blank | .region _ | .reference _ | .definition _ => true
  | .token (.punct mark) text => text == mark.text && mark != .arrow && mark != .ellipsis
  | _ => false

/-- Whether the text of a punctuation mark is the one of its class. -/
def Marked : Piece R → Prop
  | .token (.punct mark) text => text = mark.text
  | _ => True

/-- Whether two pieces can stand next to each other. -/
def Apart (left right : Piece R) : Prop :=
  left.isFree = true ∨ right.breaks = true

end Piece

/-- Whether pieces can be printed next to each other and behind a word. -/
structure Piece.Spaced (pieces : List (Piece R)) : Prop where
  marked : ∀ piece ∈ pieces, piece.Marked
  apart : pieces.IsChain Piece.Apart
  first : ∀ piece ∈ pieces.head?, piece.breaks = true

/-! ## Edges -/

/-- What is known of the two ends of pieces. -/
structure Edges where
  /-- Whether the first piece does not go on a token before it. -/
  first : Bool
  /-- Whether nothing that follows can go on the last piece. -/
  last : Bool
  /-- Whether there are pieces at all. -/
  nonempty : Bool
deriving DecidableEq, Repr

namespace Edges

/-- The edges of a single piece. -/
def ofPiece (piece : Piece R) : Edges :=
  ⟨piece.breaks, piece.isFree, true⟩

/-- The edges of pieces that follow each other. -/
def append (left right : Edges) : Edges where
  first := left.first && (left.nonempty || right.first)
  last := right.last && (right.nonempty || left.last)
  nonempty := left.nonempty || right.nonempty

/-- The edges of pieces that may be missing. -/
def optional (edges : Edges) : Edges :=
  { edges with nonempty := false }

/-- The edges of one of two lists of pieces. -/
def either (left right : Edges) : Edges :=
  ⟨left.first && right.first, left.last && right.last, left.nonempty && right.nonempty⟩

theorem append_between (edges : Edges) :
    edges.append (append ⟨true, true, true⟩ edges) = { edges with nonempty := true } := by
  obtain ⟨first, last, nonempty⟩ := edges
  cases first <;> cases last <;> cases nonempty <;> rfl

/-- Whether pieces have the edges and no two of them run together. -/
structure Fit (edges : Edges) (pieces : List (Piece R)) : Prop where
  marked : ∀ piece ∈ pieces, piece.Marked
  apart : pieces.IsChain Piece.Apart
  first : edges.first = true → ∀ piece ∈ pieces.head?, piece.breaks = true
  last : edges.last = true → ∀ piece ∈ pieces.getLast?, piece.isFree = true
  nonempty : edges.nonempty = true → pieces ≠ []

namespace Fit

variable {edges other : Edges} {pieces more : List (Piece R)}

theorem ofPiece (piece : Piece R) (marked : piece.Marked := by first | trivial | rfl) :
    (Edges.ofPiece piece).Fit [piece] where
  marked := List.forall_mem_singleton.2 marked
  apart := List.isChain_singleton piece
  first h := by
    rintro _ ⟨⟩
    exact h
  last h := by
    rintro _ ⟨⟩
    exact h
  nonempty _ := List.cons_ne_nil _ _

theorem nil (h : edges.nonempty = false) : edges.Fit ([] : List (Piece R)) where
  marked := by rintro _ ⟨⟩
  apart := List.isChain_nil
  first _ := by rintro _ ⟨⟩
  last _ := by rintro _ ⟨⟩
  nonempty isNonempty := by
    rw [h] at isNonempty
    cases isNonempty

theorem append (left : edges.Fit pieces) (right : other.Fit more)
    (apart : (edges.last || other.first) = true) : (edges.append other).Fit (pieces ++ more) where
  marked := List.forall_mem_append.2 ⟨left.marked, right.marked⟩
  apart := by
    refine List.isChain_append.2 ⟨left.apart, right.apart, fun before isLast after isFirst => ?_⟩
    rcases Bool.or_eq_true_iff.1 apart with free | breaks
    · exact .inl (left.last free before isLast)
    · exact .inr (right.first breaks after isFirst)
  first h := by
    obtain ⟨leftFirst, more'⟩ := Bool.and_eq_true_iff.1 h
    cases pieces with
    | cons piece pieces => exact left.first leftFirst
    | nil =>
      rcases Bool.or_eq_true_iff.1 more' with nonempty | rightFirst
      · exact absurd rfl (left.nonempty nonempty)
      · exact right.first rightFirst
  last h := by
    obtain ⟨rightLast, more'⟩ := Bool.and_eq_true_iff.1 h
    rcases List.eq_nil_or_concat more with rfl | ⟨_, _, rfl⟩
    · rw [List.append_nil]
      rcases Bool.or_eq_true_iff.1 more' with nonempty | leftLast
      · exact absurd rfl (right.nonempty nonempty)
      · exact left.last leftLast
    · have isLast := right.last rightLast
      rw [List.concat_eq_append] at isLast ⊢
      rw [← List.append_assoc]
      simpa using isLast
  nonempty h none := by
    obtain ⟨rfl, rfl⟩ := List.append_eq_nil_iff.1 none
    rcases Bool.or_eq_true_iff.1 h with isNonempty | isNonempty
    · exact left.nonempty isNonempty rfl
    · exact right.nonempty isNonempty rfl

theorem optional (h : edges.Fit pieces) : edges.optional.Fit pieces :=
  ⟨h.marked, h.apart, h.first, h.last, (absurd · Bool.false_ne_true)⟩

theorem either_left (h : edges.Fit pieces) (other : Edges) : (edges.either other).Fit pieces where
  marked := h.marked
  apart := h.apart
  first both := h.first (Bool.and_eq_true_iff.1 both).1
  last both := h.last (Bool.and_eq_true_iff.1 both).1
  nonempty both := h.nonempty (Bool.and_eq_true_iff.1 both).1

theorem either_right (edges : Edges) (h : other.Fit pieces) : (edges.either other).Fit pieces where
  marked := h.marked
  apart := h.apart
  first both := h.first (Bool.and_eq_true_iff.1 both).2
  last both := h.last (Bool.and_eq_true_iff.1 both).2
  nonempty both := h.nonempty (Bool.and_eq_true_iff.1 both).2

theorem weaken (h : other.Fit pieces) (first : edges.first = true → other.first = true)
    (last : edges.last = true → other.last = true)
    (nonempty : edges.nonempty = true → other.nonempty = true) : edges.Fit pieces :=
  ⟨h.marked, h.apart, h.first ∘ first, h.last ∘ last, h.nonempty ∘ nonempty⟩

/-- Items with something between them that stands apart do not run together. -/
theorem intercalate {separator : List (Piece R)} (between : Edges.Fit ⟨true, true, true⟩ separator)
    {items : List (List (Piece R))} (all : ∀ item ∈ items, edges.Fit item) (some : items ≠ []) :
    edges.Fit (List.intercalate separator items) := by
  induction items with
  | nil => exact absurd rfl some
  | cons item items ih =>
    obtain ⟨here, later⟩ := List.forall_mem_cons.1 all
    cases items with
    | nil => simpa using here
    | cons next items =>
      rw [List.intercalate_cons_cons, List.append_assoc]
      have rest := ih later (List.cons_ne_nil _ _)
      have all := here.append (between.append rest rfl) (Bool.or_true _)
      rw [append_between] at all
      exact all.weaken id id fun _ => rfl

theorem intercalate_optional {separator : List (Piece R)}
    (between : Edges.Fit ⟨true, true, true⟩ separator) {items : List (List (Piece R))}
    (all : ∀ item ∈ items, edges.Fit item) :
    edges.optional.Fit (List.intercalate separator items) := by
  by_cases some : items = []
  · subst some
    exact nil rfl
  · exact (intercalate between all some).optional

theorem flatMap {items : List α} {f : α → List (Piece R)}
    (apart : (edges.last || edges.first) = true) (each : ∀ a ∈ items, edges.Fit (f a)) :
    edges.optional.Fit (items.flatMap f) := by
  induction items with
  | nil => exact nil rfl
  | cons a items ih =>
    obtain ⟨here, later⟩ := List.forall_mem_cons.1 each
    have all := here.append (ih later) apart
    obtain ⟨first, last, nonempty⟩ := edges
    apply all.weaken
    · cases first <;> cases nonempty <;> simp [Edges.append, Edges.optional]
    · cases last <;> simp [Edges.append, Edges.optional]
    · exact (absurd · Bool.false_ne_true)

theorem commaSeparator : Edges.Fit ⟨true, true, true⟩ [.punct .comma, (.blank : Piece R)] :=
  (ofPiece (.punct .comma)).append (ofPiece .blank) rfl

end Fit

end Edges

namespace Grammar

/-- The edges of the pieces of what a grammar describes, if they never run together. -/
def edges : {α : Type} → Grammar R α → Option Edges
  | _, .blank => some (.ofPiece (.blank : Piece Empty))
  | _, .punct mark => some (.ofPiece (.punct mark : Piece Empty))
  | _, .name _ | _, .definition _ => some ⟨true, false, true⟩
  | _, .word _ | _, .oneOf _ _ | _, .type | _, .attributeOf _ | _, .namedAttribute =>
    some ⟨false, false, true⟩
  | _, .lexeme kind _ =>
    match kind with
    | .punct _ => none
    | _ => some ⟨false, false, true⟩
  | _, .trailingAttribute => some ⟨true, false, false⟩
  | _, .seq first second =>
    match first.edges, second.edges with
    | some left, some right => if left.last || right.first then some (left.append right) else none
    | _, _ => none
  | _, .view _ inner => inner.edges
  | _, .optional _ inner => inner.edges.map Edges.optional
  | _, .choice _ first second =>
    match first.edges, second.edges with
    | some left, some right => some (left.either right)
    | _, _ => none
  | _, .separated item => item.edges
  | _, .listed item => item.edges.map Edges.optional
  | _, .listedWithEllipsis item => item.edges.map fun edges => ⟨false, edges.last, false⟩
  | _, .bracketed _ item => item.edges.map fun _ => ⟨true, true, true⟩
  | _, .repeated _ item => item.edges.map Edges.optional
  | _, .modifierRun _ => some ⟨true, false, false⟩
  | _, .spanned inner | _, .inScope inner => inner.edges
  | _, .binder _ inner =>
    inner.edges.bind fun edges =>
      if edges.first then some (Edges.append ⟨true, false, true⟩ edges) else none
  | _, .region _ _ => some ⟨true, true, true⟩
  | _, .recommended _ _ inner => inner.edges

theorem body_edges (opcode : Opcode) (form : Form) :
    (body (R := R) opcode form).edges.any Edges.first = true := by
  unfold body
  split
  all_goals rfl

theorem modifier_fit (modifier : Modifier) :
    Edges.Fit ⟨true, false, true⟩ (modifier.pieces (R := R)) := by
  obtain ⟨rule, argument⟩ := modifier
  have keyword : Edges.Fit ⟨true, false, true⟩ [(.blank : Piece R), .word rule.keyword] :=
    (Edges.Fit.ofPiece .blank).append (.ofPiece (.word rule.keyword)) rfl
  cases argument with
  | none => exact keyword
  | some argument =>
    cases given : rule.argument with
    | none => simpa [Modifier.pieces, given] using keyword
    | some form =>
      have marks : (form.opening = .less ∨ form.opening = .leftParen) ∧
          (form.closing = .greater ∨ form.closing = .rightParen) := by
        unfold ArgumentSyntax.opening ArgumentSyntax.closing
        cases form.angled
        · exact ⟨.inr rfl, .inr rfl⟩
        · exact ⟨.inl rfl, .inl rfl⟩
      have opening : Edges.Fit ⟨true, true, true⟩ [(.punct form.opening : Piece R)] := by
        rcases marks.1 with same | same
        · rw [same]
          exact .ofPiece (.punct .less)
        · rw [same]
          exact .ofPiece (.punct .leftParen)
      have closing : Edges.Fit ⟨true, true, true⟩ [(.punct form.closing : Piece R)] := by
        rcases marks.2 with same | same
        · rw [same]
          exact .ofPiece (.punct .greater)
        · rw [same]
          exact .ofPiece (.punct .rightParen)
      have marked : (argument.piece (R := R) form.kind).Marked := by
        cases argument with
        | lexeme word => cases form.kind <;> trivial
        | «symbol» reference => trivial
        | «attribute» value => trivial
      have inner := opening.append ((Edges.Fit.ofPiece (argument.piece form.kind) marked).append
        closing (Bool.or_true _)) rfl
      have all := keyword.append inner rfl
      simp only [Modifier.pieces, given]
      exact all.weaken (fun _ => rfl) (absurd · Bool.false_ne_true) fun _ => rfl

variable {region : RegionKind → Bool → Meaning R} {source : List Char}

/-- What is read by a grammar does not run together when it is printed. -/
theorem reads_fit {α : Type} (grammar : Grammar R α) {edges : Edges}
    (computed : grammar.edges = some edges) {before after : Stage} {a : α}
    (reads : grammar.Reads region source before a after) : edges.Fit (grammar.pieces a) := by
  induction grammar generalizing edges before after with
  | blank =>
    cases computed
    exact .ofPiece .blank
  | punct mark =>
    cases computed
    exact .ofPiece (.punct mark)
  | word text =>
    cases computed
    exact .ofPiece (.word text)
  | lexeme kind what =>
    unfold Grammar.edges at computed
    split at computed
    · cases computed
    · rename_i notPunct
      cases computed
      have marked : (.token kind a.text : Piece R).Marked := by
        cases kind with
        | punct mark => exact (notPunct mark rfl).elim
        | _ => trivial
      exact (Edges.Fit.ofPiece _ marked).weaken (absurd · Bool.false_ne_true)
        (absurd · Bool.false_ne_true) fun _ => rfl
  | oneOf words what =>
    cases computed
    exact .ofPiece (.word a.text)
  | name kind =>
    cases computed
    exact .ofPiece (.reference a)
  | definition kind =>
    cases computed
    exact .ofPiece (.definition a)
  | type =>
    cases computed
    exact .ofPiece (.type a)
  | attributeOf form =>
    cases computed
    exact .ofPiece (.attribute a)
  | namedAttribute =>
    cases computed
    exact .ofPiece (.attribute a)
  | trailingAttribute =>
    cases computed
    cases a with
    | none => exact .nil rfl
    | some value =>
      exact ((Edges.Fit.ofPiece .blank).append (.ofPiece (.attribute value)) rfl).optional
  | seq first second ihFirst ihSecond =>
    obtain ⟨middle, readsFirst, readsSecond⟩ := reads
    unfold Grammar.edges at computed
    split at computed
    · rename_i left right isLeft isRight
      split at computed
      · rename_i apart
        cases computed
        exact (ihFirst isLeft readsFirst).append (ihSecond isRight readsSecond) apart
      · cases computed
    · cases computed
  | view as inner ih =>
    obtain ⟨value, reads, rfl⟩ := reads
    rw [pieces_view]
    exact ih computed reads
  | optional present inner ih =>
    obtain ⟨found, isInner, rfl⟩ := Option.map_eq_some_iff.1 computed
    unfold Reads at reads
    split at reads
    · obtain ⟨value, reads, rfl⟩ := reads
      exact (ih isInner reads).optional
    · obtain ⟨rfl, rfl⟩ := reads
      exact .nil rfl
  | choice isFirst first second ihFirst ihSecond =>
    unfold Grammar.edges at computed
    split at computed
    · rename_i left right isLeft isRight
      cases computed
      unfold Reads at reads
      split at reads
      · obtain ⟨value, reads, rfl⟩ := reads
        exact (ihFirst isLeft reads).either_left right
      · obtain ⟨value, reads, rfl⟩ := reads
        exact .either_right left (ihSecond isRight reads)
    · cases computed
  | separated item ih =>
    have all := separatedReads_forall (ih computed) reads
    exact .intercalate .commaSeparator (List.forall_mem_map.2 all) (List.cons_ne_nil _ _)
  | listed item ih =>
    obtain ⟨found, isItem, rfl⟩ := Option.map_eq_some_iff.1 computed
    have all := listedReads_forall (ih isItem) reads
    exact .intercalate_optional .commaSeparator (List.forall_mem_map.2 all)
  | listedWithEllipsis item ih =>
    obtain ⟨found, isItem, rfl⟩ := Option.map_eq_some_iff.1 computed
    have all := listedWithEllipsisReads_forall (ih isItem) reads
    obtain ⟨items, ellipsis⟩ := a
    have each : ∀ pieces ∈ items.map item.pieces ++ if ellipsis then [[.punct .ellipsis]] else [],
        Edges.Fit ⟨false, found.last, false⟩ pieces := by
      intro pieces member
      rcases List.mem_append.1 member with isItem | isEllipsis
      · obtain ⟨one, inside, rfl⟩ := List.mem_map.1 isItem
        exact (all one inside).weaken (absurd · Bool.false_ne_true) id (absurd · Bool.false_ne_true)
      · cases ellipsis with
        | false => cases isEllipsis
        | true =>
          rw [List.mem_singleton.1 isEllipsis]
          exact (Edges.Fit.ofPiece (.punct .ellipsis)).weaken (absurd · Bool.false_ne_true)
            (fun _ => rfl) (absurd · Bool.false_ne_true)
    exact .intercalate_optional .commaSeparator each
  | bracketed separator item ih =>
    obtain ⟨found, isItem, rfl⟩ := Option.map_eq_some_iff.1 computed
    obtain ⟨opening, middle, _, reads⟩ := reads
    have all := List.forall_mem_map.2 (bracketedReads_forall (ih isItem) reads)
    have items : found.optional.Fit (Piece.arrange separator (a.map item.pieces)) := by
      cases separator with
      | comma => exact .intercalate_optional .commaSeparator all
      | blank => exact .intercalate_optional (.ofPiece .blank) all
    have closed := items.append (Edges.Fit.ofPiece (.punct .rightBracket)) (Bool.or_true _)
    have opened := (Edges.Fit.ofPiece (.punct .leftBracket)).append closed rfl
    exact opened.weaken (fun _ => rfl) (fun _ => rfl) fun _ => rfl
  | repeated next item ih =>
    obtain ⟨found, isItem, rfl⟩ := Option.map_eq_some_iff.1 computed
    have all := repeatedReads_forall (ih isItem) reads
    exact .intercalate_optional .commaSeparator (List.forall_mem_map.2 all)
  | modifierRun table =>
    cases computed
    exact .flatMap rfl fun modifier _ => modifier_fit modifier
  | spanned inner ih => exact ih computed reads.1
  | binder what inner ih =>
    obtain ⟨found, middle, last, _, reads, _⟩ := reads
    obtain ⟨innerEdges, isInner, same⟩ := Option.bind_eq_some_iff.1 computed
    split at same
    · rename_i apart
      cases same
      exact (Edges.Fit.ofPiece (.definition a.1)).append (ih isInner reads) apart
    · cases same
  | inScope inner ih =>
    obtain ⟨inside, reads, _⟩ := reads
    exact ih computed reads
  | region kind implicitTerminator =>
    cases computed
    exact .ofPiece (.region a)
  | recommended opcode warning inner ih => exact ih computed reads

theorem reads_spaced (opcode : Opcode) (form : Form) {before after : Stage} {b : Body R}
    (reads : (body opcode form).Reads region source before b after) :
    Piece.Spaced ((body opcode form).pieces b) := by
  obtain ⟨edges, computed, first⟩ := (Option.any_eq_true _ _).1 (body_edges opcode form)
  have fit := reads_fit (body opcode form) computed reads
  exact ⟨fit.marked, fit.apart, fit.first first⟩

/-- The label and the arguments of a block do not run together. -/
theorem blockHeader_fit (header : Definition × List BlockArgument) :
    Edges.Fit ⟨true, true, true⟩ ((blockHeader (R := R)).pieces header) := by
  obtain ⟨label, args⟩ := header
  have one (arg : BlockArgument) :
      Edges.Fit ⟨true, false, true⟩ ((blockArgument (R := R)).pieces arg) :=
    (Edges.Fit.ofPiece (.definition arg.definition)).append ((Edges.Fit.ofPiece .blank).append
      ((Edges.Fit.ofPiece (.punct .colon)).append
        ((Edges.Fit.ofPiece .blank).append (.ofPiece (.type arg.type)) rfl) rfl) rfl) rfl
  have all : Edges.Fit ⟨true, true, false⟩ ((blockArguments (R := R)).pieces args) := by
    cases args with
    | nil => exact .nil rfl
    | cons arg args =>
      have items : Edges.Fit ⟨true, false, true⟩
          (Piece.commaed ((arg :: args).map (blockArgument (R := R)).pieces)) :=
        .intercalate .commaSeparator (List.forall_mem_map.2 fun arg _ => one arg)
          (List.cons_ne_nil _ _)
      have closed := items.append (Edges.Fit.ofPiece (.punct .rightParen)) rfl
      exact ((Edges.Fit.ofPiece (.punct .leftParen)).append closed rfl).optional
  exact (Edges.Fit.ofPiece (.definition label)).append
    (all.append (.ofPiece (.punct .colon)) rfl) rfl

end Grammar

end CirText
