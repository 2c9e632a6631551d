import CirText.Proofs.Token.Grammar
import CirText.Proofs.Token.Place

/-!
# Tokens, errors and gaps

A source unit is cut into tokens, errors and the gaps around them. `Lexer.Cut` says piece by piece
what each of them looks like, and the lexer cuts every text that way; `Lexer.Partition` says the
same by spans.
-/

namespace CirText

/-- Where an item of the lexer stands. -/
def LexItem.span : LexItem → Span
  | .token found => found.span
  | .error fault => fault.span

namespace Lexer

open Shape

/-! ## Gaps -/

/-- Whether a text consists of blank characters and comments. A comment runs to a line feed; if the
text is the final one, its last comment may run to the end. -/
inductive Gap (final : Bool) : List Char → Prop where
  | nil : Gap final []
  | blank {c : Char} {rest : List Char} (isBlank : Text.isBlank c = true) (more : Gap final rest) :
      Gap final (c :: rest)
  | comment {body rest : List Char} (oneLine : '\n' ∉ body) (more : Gap final rest) :
      Gap final ('/' :: '/' :: (body ++ '\n' :: rest))
  | lastComment {body : List Char} (isFinal : final = true) (oneLine : '\n' ∉ body) :
      Gap final ('/' :: '/' :: body)

/-- Whether a text is the rest of a comment and a gap behind it. -/
inductive CommentRest (final : Bool) : List Char → Prop where
  | line {body rest : List Char} (oneLine : '\n' ∉ body) (more : Gap final rest) :
      CommentRest final (body ++ '\n' :: rest)
  | last {body : List Char} (isFinal : final = true) (oneLine : '\n' ∉ body) :
      CommentRest final body

theorem CommentRest.cons {final : Bool} {c : Char} {text : List Char} (noBreak : c ≠ '\n')
    (more : CommentRest final text) : CommentRest final (c :: text) := by
  have longer : ∀ {body : List Char}, '\n' ∉ body → '\n' ∉ c :: body := by
    intro body oneLine member
    rcases List.mem_cons.mp member with same | inBody
    · exact noBreak same.symm
    · exact oneLine inBody
  cases more with
  | @line body rest oneLine more =>
    exact @CommentRest.line final (c :: body) rest (longer oneLine) more
  | last isFinal oneLine => exact .last isFinal (longer oneLine)

theorem CommentRest.ne_nil {text : List Char} (more : CommentRest false text) : text ≠ [] := by
  cases more with
  | line oneLine more => simp
  | last isFinal oneLine => cases isFinal

theorem CommentRest.gap {final : Bool} {text : List Char}
    (more : CommentRest final ('/' :: text)) : Gap final ('/' :: '/' :: text) := by
  generalize same : '/' :: text = rest at more
  cases more with
  | @line body rest oneLine more =>
    cases body with
    | nil => cases same
    | cons c body =>
      obtain ⟨rfl, rfl⟩ := List.cons.inj same
      exact .comment (fun inBody => oneLine (List.mem_cons_of_mem _ inBody)) more
  | last isFinal oneLine =>
    subst same
    exact .lastComment isFinal fun inBody => oneLine (List.mem_cons_of_mem _ inBody)

/-- What is skipped in front of an item is a gap; what is skipped up to the end is a final one. -/
theorem skipTrivia_gap {inComment : Bool} {offset start : Nat} {text rest : List Char}
    (found : skipTrivia inComment offset text = (start, rest)) :
    ∃ skipped, text = skipped ++ rest ∧ start = offset + Text.byteSize skipped ∧
      if inComment then CommentRest rest.isEmpty skipped else Gap rest.isEmpty skipped := by
  induction text generalizing inComment offset with
  | nil =>
    cases found
    refine ⟨[], rfl, rfl, ?_⟩
    cases inComment with
    | true => exact .last rfl List.not_mem_nil
    | false => exact .nil
  | cons c text ih =>
    have grow : ∀ {skipped : List Char}, text = skipped ++ rest ∧
          start = offset + c.utf8Size + Text.byteSize skipped →
        c :: text = c :: skipped ++ rest ∧ start = offset + Text.byteSize (c :: skipped) := by
      rintro skipped ⟨rfl, moves⟩
      refine ⟨rfl, ?_⟩
      rw [moves, Text.byteSize, Nat.add_assoc]
    rw [skipTrivia] at found
    cases inComment with
    | true =>
      rw [if_pos rfl] at found
      obtain ⟨skipped, split, moves, isRest⟩ := ih found
      obtain ⟨split, moves⟩ := grow ⟨split, moves⟩
      refine ⟨c :: skipped, split, moves, ?_⟩
      by_cases lineFeed : c = '\n'
      · subst lineFeed
        exact @CommentRest.line _ [] skipped List.not_mem_nil isRest
      · rw [if_pos (bne_iff_ne.mpr lineFeed)] at isRest
        exact isRest.cons lineFeed
    | false =>
      rw [if_neg Bool.false_ne_true] at found
      split at found
      · rename_i isBlank
        obtain ⟨skipped, split, moves, isRest⟩ := ih found
        obtain ⟨split, moves⟩ := grow ⟨split, moves⟩
        exact ⟨c :: skipped, split, moves, .blank isBlank isRest⟩
      · split at found
        · rename_i slashes
          obtain ⟨slash, second⟩ := Bool.and_eq_true_iff.mp slashes
          obtain rfl := of_decide_eq_true slash
          obtain ⟨skipped, split, moves, isRest⟩ := ih found
          obtain ⟨split', moves⟩ := grow ⟨split, moves⟩
          refine ⟨'/' :: skipped, split', moves, ?_⟩
          rw [if_pos rfl] at isRest
          -- The second slash is skipped as the first character of the comment.
          cases skipped with
          | nil =>
            have atEnd : rest = [] := by
              cases rest with
              | nil => rfl
              | cons d rest => exact absurd rfl isRest.ne_nil
            rw [split, atEnd] at second
            cases second
          | cons d skipped =>
            rw [split] at second
            obtain rfl : d = '/' := Option.some.inj (of_decide_eq_true second)
            exact isRest.gap
        · cases found
          exact ⟨[], rfl, rfl, .nil⟩

end Lexer

/-! ## Items -/

/-- Whether an item of the lexer is what a text behind a gap starts with: a token is the longest
piece that matches a class of tokens, an invalid character is one that no token starts with, and an
unterminated string runs from a quote that no string literal starts with to the end of the line. -/
def LexItem.Reads (piece rest : List Char) : LexItem → Prop
  | .token found =>
    found.text = String.ofList piece ∧ found.kind.Matches piece ∧
      ∀ kind longer, TokenKind.Matches kind longer → longer <+: piece ++ rest →
        longer.length ≤ piece.length
  | .error ⟨.invalidCharacter c, _⟩ =>
    piece = [c] ∧ ∀ kind token, TokenKind.Matches kind token → ¬token <+: piece ++ rest
  | .error ⟨.unterminatedString, _⟩ =>
    ∃ line, piece = '"' :: line ∧ '\n' ∉ line ∧ (rest = [] ∨ rest.head? = some '\n') ∧
      ∀ literal, Shape.StringLiteral literal → ¬literal <+: piece ++ rest

namespace Lexer

open Shape

/-- Whether items are what a text is cut into whose first character stands at an offset. -/
inductive Cut : Nat → List Char → List LexItem → Prop where
  | done {offset : Nat} {gap : List Char} (isGap : Gap true gap) : Cut offset gap []
  | item {offset : Nat} {gap piece rest : List Char} {item : LexItem} {items : List LexItem}
      (isGap : Gap false gap) (nonempty : piece ≠ []) (reads : item.Reads piece rest)
      (span : item.span = ⟨offset + Text.byteSize gap,
        offset + Text.byteSize gap + Text.byteSize piece⟩)
      (more : Cut (offset + Text.byteSize gap + Text.byteSize piece) rest items) :
      Cut offset (gap ++ (piece ++ rest)) (item :: items)

/-- The characters up to the end of a line. -/
theorem line_split (text : List Char) :
    let line := text.takeWhile (· != '\n')
    text.take line.length = line ∧ '\n' ∉ line ∧
      (text.drop line.length = [] ∨ (text.drop line.length).head? = some '\n') := by
  intro line
  have whole : line ++ text.dropWhile (· != '\n') = text := List.takeWhile_append_dropWhile
  have taken : text.take line.length = line := by
    calc
      text.take line.length = (line ++ text.dropWhile (· != '\n')).take line.length := by rw [whole]
      _ = line := List.take_left
  have dropped : text.drop line.length = text.dropWhile (· != '\n') := by
    calc
      text.drop line.length = (line ++ text.dropWhile (· != '\n')).drop line.length := by rw [whole]
      _ = text.dropWhile (· != '\n') := List.drop_left
  refine ⟨taken, fun member => ?_, ?_⟩
  · exact absurd (List.mem_takeWhile_imp member) (by decide)
  · rw [dropped]
    have stops := List.head?_dropWhile_not (· != '\n') text
    cases after : text.dropWhile (· != '\n') with
    | nil => exact .inl rfl
    | cons c rest =>
      rw [after] at stops
      exact .inr (congrArg some (bne_eq_false_iff_eq.mp stops))

theorem item_reads (offset : Nat) (c : Char) (rest : List Char) :
    (item offset c rest).1.Reads (c :: rest.take (item offset c rest).2)
        (rest.drop (item offset c rest).2) ∧
      (item offset c rest).1.span =
        ⟨offset, offset + Text.byteSize (c :: rest.take (item offset c rest).2)⟩ := by
  have whole : ∀ count, c :: rest.take count ++ rest.drop count = c :: rest := by
    intro count
    rw [List.cons_append, List.take_append_drop]
  unfold item
  split
  · rename_i kind length found
    refine ⟨⟨rfl, ?_, fun other longer isToken start => ?_⟩, rfl⟩
    · obtain ⟨piece, others, split, size, isToken⟩ := recognize_takes found
      have nonempty := (fits_of_recognize found).1
      have taken : (c :: rest).take length = piece := by rw [split, size, List.take_left]
      have same : c :: rest.take (length - 1) = piece := by
        rw [← taken, ← Nat.sub_add_cancel nonempty, List.take_succ_cons, Nat.add_sub_cancel]
      rw [same]
      exact isToken
    · rw [whole] at start
      have bound := length_le_of_matches found start isToken
      have fits := (fits_of_recognize found).2
      rw [List.length_cons] at fits
      dsimp only
      rw [List.length_cons, List.length_take]
      omega
  · rename_i nothing
    split
    · rename_i quote
      subst quote
      obtain ⟨taken, oneLine, stops⟩ := line_split rest
      refine ⟨⟨rest.takeWhile (· != '\n'), ?_, oneLine, stops, fun literal isLiteral start => ?_⟩,
        ?_⟩
      · rw [taken]
      · rw [whole] at start
        exact not_matches_of_recognize nothing start (.string isLiteral)
      · dsimp only
        rw [taken]
        rfl
    · refine ⟨⟨rfl, fun kind token isToken start => ?_⟩, rfl⟩
      rw [whole] at start
      exact not_matches_of_recognize nothing start isToken

/-- The lexer cuts every text into gaps and items. -/
theorem cut_itemsFrom (offset : Nat) (text : List Char) :
    Cut offset text (itemsFrom offset text) := by
  induction offset, text using itemsFrom.induct with
  | case1 offset text start found =>
    obtain ⟨gap, split, _, isGap⟩ := skipTrivia_gap found
    rw [itemsFrom_eq, found, split, List.append_nil]
    exact .done isGap
  | case2 offset text start c rest found first length same ih =>
    obtain ⟨gap, split, moves, isGap⟩ := skipTrivia_gap found
    obtain ⟨reads, span⟩ := item_reads start c rest
    have whole : text = gap ++ (c :: rest.take length ++ rest.drop length) := by
      rw [split, List.cons_append, List.take_append_drop]
    rw [itemsFrom_eq, found]
    simp only [same] at reads span ⊢
    subst moves
    rw [whole]
    exact .item isGap (List.cons_ne_nil _ _) reads span ih

/-! ## Spans -/

/-- Whether only blanks and comments stand between an offset of a text and the first item, between
the items, and behind the last one. -/
def GapsAround (text : List Char) : Nat → List LexItem → Prop
  | offset, [] => Gap true (Text.slice text offset (Text.byteSize text))
  | offset, item :: items =>
    Gap false (Text.slice text offset item.span.start) ∧ GapsAround text item.span.stop items

/-- The pieces of a text from an offset on: the gap before an item and the text of the item by
turns, and the gap behind the last item. -/
def pieces (text : List Char) : Nat → List LexItem → List (List Char)
  | offset, [] => [Text.slice text offset (Text.byteSize text)]
  | offset, item :: items =>
    Text.slice text offset item.span.start :: item.span.slice text ::
      pieces text item.span.stop items

/-- Whether items cut up a text from an offset on: they are not empty and stand one behind the
other, each is what the text has there, only blanks and comments stand around them, and nothing else
is in the text. -/
structure Partition (text : List Char) (offset : Nat) (items : List LexItem) : Prop where
  after : ∀ item ∈ items, offset ≤ item.span.start
  nonempty : ∀ item ∈ items, item.span.start < item.span.stop
  ordered : items.Pairwise fun first second => first.span.stop ≤ second.span.start
  reads : ∀ item ∈ items, ∃ before piece rest, text = before ++ (piece ++ rest) ∧
    item.span = ⟨Text.byteSize before, Text.byteSize before + Text.byteSize piece⟩ ∧
    item.Reads piece rest
  gaps : GapsAround text offset items
  whole : (pieces text offset items).flatten = Text.slice text offset (Text.byteSize text)

theorem byteSize_pos {piece : List Char} (nonempty : piece ≠ []) : 0 < Text.byteSize piece := by
  obtain ⟨c, piece, rfl⟩ := List.exists_cons_of_ne_nil nonempty
  have := c.utf8Size_pos
  rw [Text.byteSize]
  omega

theorem slice_to_end (before rest : List Char) :
    Text.slice (before ++ rest) (Text.byteSize before) (Text.byteSize (before ++ rest)) = rest := by
  have cut := Text.slice_append before rest []
  rwa [List.append_nil, ← Text.byteSize_append] at cut

/-- Items that a text is cut into cut it up by their spans. -/
theorem Cut.partition {offset : Nat} {text : List Char} {items : List LexItem}
    (cut : Cut offset text items) (before : List Char) (size : Text.byteSize before = offset) :
    Partition (before ++ text) offset items := by
  induction cut generalizing before with
  | done isGap =>
    subst size
    exact {
      after := nofun
      nonempty := nofun
      ordered := .nil
      reads := nofun
      gaps := by
        rw [GapsAround, slice_to_end]
        exact isGap
      whole := by rw [pieces, List.flatten_singleton] }
  | @item offset gap piece rest item items isGap nonempty reads span more ih =>
    subst size
    have start : item.span.start = Text.byteSize (before ++ gap) := by
      rw [span, Text.byteSize_append]
    have stop : item.span.stop = Text.byteSize (before ++ gap ++ piece) := by
      rw [span, Text.byteSize_append, Text.byteSize_append]
    have later := ih (before ++ gap ++ piece) (by rw [← stop, span])
    have sizes : Text.byteSize before + Text.byteSize gap + Text.byteSize piece =
        item.span.stop := by
      rw [span]
    have positive := byteSize_pos nonempty
    have split : before ++ gap ++ piece ++ rest = before ++ (gap ++ (piece ++ rest)) := by
      simp only [List.append_assoc]
    have gapSlice : Text.slice (before ++ (gap ++ (piece ++ rest))) (Text.byteSize before)
        item.span.start = gap := by
      rw [start, Text.byteSize_append]
      exact Text.slice_append before gap (piece ++ rest)
    have pieceSlice : item.span.slice (before ++ (gap ++ (piece ++ rest))) = piece := by
      rw [Span.slice, start, stop, Text.byteSize_append (before ++ gap) piece, ← List.append_assoc]
      exact Text.slice_append (before ++ gap) piece rest
    have restSlice : Text.slice (before ++ (gap ++ (piece ++ rest))) item.span.stop
        (Text.byteSize (before ++ (gap ++ (piece ++ rest)))) = rest := by
      rw [← split, stop]
      exact slice_to_end (before ++ gap ++ piece) rest
    rw [sizes, split] at later
    have nonempty' : item.span.start < item.span.stop := by
      rw [span]
      dsimp only
      omega
    exact {
      after := by
        intro other member
        rcases List.mem_cons.mp member with rfl | behind
        · rw [span]
          dsimp only
          omega
        · have bound := later.after other behind
          rw [← sizes] at bound
          omega
      nonempty := List.forall_mem_cons.mpr ⟨nonempty', later.nonempty⟩
      ordered := List.pairwise_cons.mpr ⟨later.after, later.ordered⟩
      reads := by
        refine List.forall_mem_cons.mpr ⟨⟨before ++ gap, piece, rest, ?_, ?_, reads⟩, later.reads⟩
        · rw [List.append_assoc]
        · rw [span, Text.byteSize_append]
      gaps := by
        rw [GapsAround, gapSlice]
        exact ⟨isGap, later.gaps⟩
      whole := by
        rw [pieces, List.flatten_cons, List.flatten_cons, later.whole, gapSlice,
          pieceSlice, restSlice, slice_to_end] }

end Lexer

/-! ## Source units -/

theorem Text.byteSize_toList (source : String) : byteSize source.toList = source.utf8ByteSize := by
  have size : ∀ text, byteSize text = String.utf8Len text := by
    intro text
    induction text with
    | nil => rfl
    | cons c text ih => rw [byteSize, ih, String.utf8Len_cons, Nat.add_comm]
  rw [size, ← String.utf8ByteSize_ofList, String.ofList_toList]

/-- The text of a token is what stands where its span says. -/
theorem token_text_of_mem {source : String} {token : Token}
    (member : .token token ∈ lexItems source) :
    token.text = String.ofList (token.span.slice source.toList) :=
  (lexItems_on source _ member).text

/-- The lexer cuts a source unit into tokens, errors and gaps, and the tokens end with one that
stands for the end of input. -/
theorem lexItems_partition (source : String) :
    Lexer.Partition source.toList 0 (lexItems source) ∧
      (Lexer.pieces source.toList 0 (lexItems source)).flatten = source.toList ∧
      (∀ token, .token token ∈ lexItems source →
        token.text = String.ofList (token.span.slice source.toList)) ∧
      (tokenize source).allTokens.getLast? = some (.endAt source.utf8ByteSize) ∧
      (tokenize source).allTokens.filter (·.kind = .endOfInput) = [.endAt source.utf8ByteSize] := by
  have partition := (Lexer.cut_itemsFrom 0 source.toList).partition [] rfl
  have noEnd : ∀ token ∈ (tokenize source).tokens, token.kind ≠ .endOfInput := by
    intro token member isEnd
    obtain ⟨item, inItems, isToken⟩ := List.mem_filterMap.mp member
    cases item with
    | error fault => cases isToken
    | token found =>
      cases isToken
      obtain ⟨_, _, _, _, _, _, isKind, _⟩ := partition.reads _ inItems
      rw [isEnd] at isKind
      cases isKind
  have size : (tokenize source).size = source.utf8ByteSize := Text.byteSize_toList source
  refine ⟨partition, ?_, fun token member => token_text_of_mem member, ?_, ?_⟩
  · have whole := Lexer.slice_to_end [] source.toList
    exact partition.whole.trans whole
  · rw [Tokenized.allTokens, List.getLast?_concat, size]
  · rw [Tokenized.allTokens, List.filter_append, List.filter_eq_nil_iff.mpr, size]
    · rfl
    · intro token member
      simpa using noEnd token member

end CirText
