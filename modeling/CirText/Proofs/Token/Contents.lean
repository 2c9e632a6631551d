import CirText.Proofs.Token.Lexer
import CirText.Proofs.Token.Shape

/-!
# Tokens without their places

Which tokens a text has does not depend on where it stands. And a piece that is cut out of a text at
the ends of tokens has the same tokens wherever it is put, if what follows does not go on its last
token.
-/

namespace CirText

/-- The span further on by a number of bytes. -/
def Span.shift (amount : Nat) (span : Span) : Span :=
  ⟨span.start + amount, span.stop + amount⟩

/-- The token further on by a number of bytes. -/
def Token.shift (amount : Nat) (token : Token) : Token :=
  { token with span := token.span.shift amount }

/-- The item further on by a number of bytes. -/
def LexItem.shift (amount : Nat) : LexItem → LexItem
  | .token found => .token (found.shift amount)
  | .error fault => .error { fault with span := fault.span.shift amount }

end CirText

namespace CirText.Lexer

open CirText.Shape

/-- The class and the text of a token. An error has none. -/
def content : LexItem → Option (TokenKind × String)
  | .token token => some (token.kind, token.text)
  | .error _ => none

/-- The contents of the items of a text. -/
def contents (text : List Char) : List (Option (TokenKind × String)) :=
  (itemsFrom 0 text).map content

/-! ## Offsets do not matter -/

theorem skipTrivia_add (inComment : Bool) (offset amount : Nat) (text : List Char) :
    skipTrivia inComment (offset + amount) text =
      ((skipTrivia inComment offset text).1 + amount, (skipTrivia inComment offset text).2) := by
  induction text generalizing inComment offset with
  | nil => rfl
  | cons c rest ih =>
    have moved : offset + amount + c.utf8Size = offset + c.utf8Size + amount := by omega
    rw [skipTrivia, skipTrivia, moved]
    split
    · exact ih _ _
    · split
      · exact ih _ _
      · split
        · exact ih _ _
        · rfl

theorem item_add (offset amount : Nat) (c : Char) (rest : List Char) :
    item (offset + amount) c rest =
      ((item offset c rest).1.shift amount, (item offset c rest).2) := by
  have moved : ∀ size, offset + amount + size = offset + size + amount := by omega
  unfold item
  split
  · simp only [moved, LexItem.shift, Token.shift, Span.shift]
  · split <;> simp only [moved, LexItem.shift, Span.shift]

/-- A text that stands further on has the same items further on. -/
theorem itemsFrom_add (offset amount : Nat) (text : List Char) :
    itemsFrom (offset + amount) text = (itemsFrom offset text).map (.shift amount) := by
  induction offset, text using itemsFrom.induct with
  | case1 offset text start found =>
    rw [itemsFrom_eq, itemsFrom_eq offset, skipTrivia_add, found]
    rfl
  | case2 offset text start c rest found first length same ih =>
    have moved : start + amount + Text.byteSize (c :: rest.take length) =
        start + Text.byteSize (c :: rest.take length) + amount := by omega
    rw [itemsFrom_eq, itemsFrom_eq offset, skipTrivia_add, found]
    simp only [item_add, same, List.map_cons, moved, ih]

theorem content_shift (amount : Nat) (item : LexItem) :
    content (item.shift amount) = content item := by
  cases item <;> rfl

theorem map_content_itemsFrom (offset : Nat) (text : List Char) :
    (itemsFrom offset text).map content = contents text := by
  rw [← Nat.zero_add offset, itemsFrom_add, List.map_map, contents]
  exact List.map_congr_left fun item _ => content_shift offset item

/-! ## Pieces that are skipped -/

/-- Whether a piece of text is skipped between tokens, whatever follows it. -/
def Trivia (gap : List Char) : Prop :=
  ∀ offset later, skipTrivia false offset (gap ++ later) =
    skipTrivia false (offset + Text.byteSize gap) later

/-- What is skipped before a token would be skipped before anything else. -/
theorem skipTrivia_trivia {inComment : Bool} {offset start : Nat} {text : List Char} {c : Char}
    {rest : List Char} (found : skipTrivia inComment offset text = (start, c :: rest)) :
    ∃ gap, text = gap ++ c :: rest ∧ start = offset + Text.byteSize gap ∧
      ∀ offset later, skipTrivia inComment offset (gap ++ later) =
        skipTrivia false (offset + Text.byteSize gap) later := by
  induction text generalizing inComment offset with
  | nil => cases found
  | cons d text ih =>
    have moved : ∀ {within}, skipTrivia within (offset + d.utf8Size) text = (start, c :: rest) →
        (∀ gap offset later, text = gap ++ c :: rest →
          skipTrivia inComment offset (d :: (gap ++ later)) =
            skipTrivia within (offset + d.utf8Size) (gap ++ later)) →
        ∃ gap, d :: text = gap ++ c :: rest ∧ start = offset + Text.byteSize gap ∧
          ∀ offset later, skipTrivia inComment offset (gap ++ later) =
            skipTrivia false (offset + Text.byteSize gap) later := by
      intro within found step
      obtain ⟨gap, split, moves, skips⟩ := ih found
      refine ⟨d :: gap, ?_, ?_, ?_⟩
      · rw [List.cons_append, ← split]
      · rw [moves, Text.byteSize, Nat.add_assoc]
      · intro offset later
        rw [List.cons_append, step gap offset later split, skips, Text.byteSize, Nat.add_assoc]
    rw [skipTrivia] at found
    split at found
    · rename_i comment
      refine moved found fun gap offset later _ => ?_
      rw [skipTrivia, if_pos comment]
    · rename_i noComment
      split at found
      · rename_i blank
        refine moved found fun gap offset later _ => ?_
        rw [skipTrivia, if_neg noComment, if_pos blank]
      · rename_i noBlank
        split at found
        · rename_i slashes
          refine moved found fun gap other later split => ?_
          obtain ⟨slash, second⟩ := Bool.and_eq_true_iff.1 slashes
          -- The second slash is skipped as well, so it does not depend on what follows.
          have inGap : (gap ++ later).head? = some '/' := by
            cases gap with
            | nil =>
              rw [split, List.nil_append, skipTrivia, if_pos rfl] at found
              have less := length_skipTrivia_le (c != '\n') (offset + d.utf8Size + c.utf8Size) rest
              rw [found, List.length_cons] at less
              exact absurd less (Nat.not_succ_le_self _)
            | cons e gap =>
              rw [split] at second
              exact of_decide_eq_true second
          have both : (decide (d = '/') && decide ((gap ++ later).head? = some '/')) = true := by
            rw [slash, inGap]
            rfl
          rw [skipTrivia, if_neg noComment, if_neg noBlank, if_pos both]
        · cases found
          refine ⟨[], rfl, rfl, fun offset later => ?_⟩
          rw [(Bool.not_eq_true _).mp noComment]
          rfl

theorem trivia_of_isBlank {blanks : List Char} (all : ∀ c ∈ blanks, Text.isBlank c = true) :
    Trivia blanks := by
  induction blanks with
  | nil => exact fun _ _ => rfl
  | cons c blanks ih =>
    intro offset later
    obtain ⟨here, later'⟩ := List.forall_mem_cons.1 all
    rw [List.cons_append, skipTrivia, if_neg Bool.false_ne_true, if_pos here, ih later',
      Text.byteSize, Nat.add_assoc]

theorem trivia_blank : Trivia [' '] :=
  trivia_of_isBlank (List.forall_mem_singleton.2 rfl)

theorem itemsFrom_trivia {gap : List Char} (trivia : Trivia gap) (offset : Nat)
    (later : List Char) :
    itemsFrom offset (gap ++ later) = itemsFrom (offset + Text.byteSize gap) later := by
  rw [itemsFrom_eq, itemsFrom_eq (offset + Text.byteSize gap), trivia]

theorem contents_trivia {gap : List Char} (trivia : Trivia gap) (later : List Char) :
    contents (gap ++ later) = contents later := by
  rw [contents, itemsFrom_trivia trivia, map_content_itemsFrom]

theorem itemsFrom_nil (offset : Nat) : itemsFrom offset [] = [] := by
  rw [itemsFrom_eq]
  rfl

theorem contents_nil : contents [] = [] := by
  rw [contents, itemsFrom_nil]
  rfl

/-! ## Tokens one at a time -/

theorem itemsFrom_token {text after : List Char} {kind : TokenKind} (nonempty : text ≠ [])
    (found : recognize (text ++ after) = some (kind, text.length)) (offset : Nat) :
    itemsFrom offset (text ++ after) =
      .token ⟨kind, String.ofList text, offset, offset + Text.byteSize text⟩ ::
        itemsFrom (offset + Text.byteSize text) after := by
  obtain ⟨c, text, rfl⟩ := List.exists_cons_of_ne_nil nonempty
  have isStart := starts_of_recognize found
  have noBlank : ¬Text.isBlank c = true := by
    rw [not_isBlank_of_starts isStart]
    exact Bool.false_ne_true
  have noSlash : c ≠ '/' := by
    rintro rfl
    exact absurd isStart (by decide)
  have here : skipTrivia false offset (c :: text ++ after) = (offset, c :: (text ++ after)) := by
    rw [List.cons_append, skipTrivia, if_neg Bool.false_ne_true, if_neg noBlank, if_neg]
    simp [noSlash]
  have first : item offset c (text ++ after) =
      (.token ⟨kind, String.ofList (c :: text), offset, offset + Text.byteSize (c :: text)⟩,
        text.length) := by
    rw [List.cons_append] at found
    simp [item, found]
  rw [itemsFrom_eq, here]
  simp only [first, List.take_left, List.drop_left]

/-- The first token of a text, what is skipped before it and what comes after it. -/
structure Split (offset : Nat) (text : List Char) (token : Token) where
  gap : List Char
  written : List Char
  after : List Char
  text : text = gap ++ (written ++ after)
  trivia : Trivia gap
  nonempty : written ≠ []
  found : recognize (written ++ after) = some (token.kind, written.length)
  token_text : token.text = String.ofList written
  start : token.span.start = offset + Text.byteSize gap
  stop : token.span.stop = offset + Text.byteSize gap + Text.byteSize written

theorem exists_split {offset : Nat} {text : List Char} {token : Token} {items : List LexItem}
    (split : itemsFrom offset text = .token token :: items) :
    ∃ first : Split offset text token, items = itemsFrom token.span.stop first.after := by
  rw [itemsFrom_eq] at split
  cases skipped : skipTrivia false offset text with
  | mk start rest =>
    rw [skipped] at split
    cases rest with
    | nil => cases split
    | cons c rest =>
      obtain ⟨isToken, others⟩ := List.cons.inj split
      obtain ⟨gap, whole, moves, skips⟩ := skipTrivia_trivia skipped
      unfold item at isToken others
      split at isToken
      · rename_i kind length found
        rw [found] at others
        obtain ⟨positive, bound⟩ := fits_of_recognize found
        have size : (c :: rest.take (length - 1)).length = length := by
          rw [List.length_cons] at bound ⊢
          rw [List.length_take]
          omega
        have parts : c :: rest = c :: rest.take (length - 1) ++ rest.drop (length - 1) := by
          rw [List.cons_append, List.take_append_drop]
        cases isToken
        refine ⟨⟨gap, c :: rest.take (length - 1), rest.drop (length - 1), ?_,
          skips, nofun, ?_, rfl, moves, ?_⟩, ?_⟩
        · rw [← parts]
          exact whole
        · rw [← parts, size]
          exact found
        · exact congrArg (· + _) moves
        · exact others.symm
      · split at isToken <;> cases isToken

/-! ## Slices -/

/-- Whether a text has the same tokens wherever it is put, if what follows does not go on it. -/
def Sealed (text : List Char) : Prop :=
  ∀ offset later, Breaks later → itemsFrom offset (text ++ later) =
    itemsFrom offset text ++ itemsFrom (offset + Text.byteSize text) later

/-- Whether a text is that of a token of a class, if something follows that does not go on it. -/
def Lexed (kind : TokenKind) (text : List Char) : Prop :=
  text ≠ [] ∧ ∃ after, recognize (text ++ after) = some (kind, text.length)

theorem Lexed.itemsFrom_append {kind : TokenKind} {text later : List Char} (lexed : Lexed kind text)
    (breaks : Breaks later) (offset : Nat) :
    itemsFrom offset (text ++ later) =
      .token ⟨kind, String.ofList text, offset, offset + Text.byteSize text⟩ ::
        itemsFrom (offset + Text.byteSize text) later := by
  obtain ⟨nonempty, after, found⟩ := lexed
  exact itemsFrom_token nonempty (recognize_append breaks found (Nat.le_refl _) nonempty) offset

theorem Lexed.itemsFrom {kind : TokenKind} {text : List Char} (lexed : Lexed kind text)
    (offset : Nat) : itemsFrom offset text =
      [.token ⟨kind, String.ofList text, offset, offset + Text.byteSize text⟩] := by
  have alone := lexed.itemsFrom_append breaks_nil offset
  rwa [List.append_nil, itemsFrom_nil] at alone

theorem Lexed.contents_append {kind : TokenKind} {text later : List Char} (lexed : Lexed kind text)
    (breaks : Breaks later) :
    contents (text ++ later) = some (kind, String.ofList text) :: contents later := by
  rw [Lexer.contents, lexed.itemsFrom_append breaks, List.map_cons, map_content_itemsFrom]
  rfl

theorem Lexed.contents {kind : TokenKind} {text : List Char} (lexed : Lexed kind text) :
    contents text = [some (kind, String.ofList text)] := by
  have alone := lexed.contents_append breaks_nil
  rwa [List.append_nil, contents_nil] at alone

theorem Lexed.isSealed {kind : TokenKind} {text : List Char} (lexed : Lexed kind text) :
    Sealed text := by
  intro offset later breaks
  rw [lexed.itemsFrom_append breaks, lexed.itemsFrom]
  rfl

theorem Split.lexed {offset : Nat} {text : List Char} {token : Token}
    (split : Split offset text token) : Lexed token.kind split.written :=
  ⟨split.nonempty, split.after, split.found⟩

/-- The contents of tokens. -/
def contentsOf (tokens : List Token) : List (Option (TokenKind × String)) :=
  tokens.map fun token => some (token.kind, token.text)

theorem contentsOf_shift (amount : Nat) (tokens : List Token) :
    contentsOf (tokens.map (.shift amount)) = contentsOf tokens := by
  rw [contentsOf, List.map_map]
  rfl

/-- Whether a text is made of tokens from its first to its last character, wherever it is put, if
what follows does not go on it. -/
structure MadeOf (text : List Char) (tokens : List Token) : Prop where
  items : ∀ later, Breaks later →
    itemsFrom 0 (text ++ later) = tokens.map .token ++ itemsFrom (Text.byteSize text) later
  start : ∀ token, tokens.head? = some token → token.span.start = 0
  stop : ∀ token, tokens.getLast? = some token → token.span.stop = Text.byteSize text

theorem MadeOf.itemsFrom_append {text later : List Char} {tokens : List Token}
    (made : MadeOf text tokens) (breaks : Breaks later) (offset : Nat) :
    itemsFrom offset (text ++ later) = (tokens.map (.shift offset)).map .token ++
      itemsFrom (offset + Text.byteSize text) later := by
  rw [← Nat.zero_add offset, itemsFrom_add, made.items later breaks, List.map_append,
    ← itemsFrom_add, List.map_map, List.map_map, Nat.zero_add, Nat.add_comm offset]
  rfl

theorem MadeOf.itemsFrom {text : List Char} {tokens : List Token} (made : MadeOf text tokens)
    (offset : Nat) : itemsFrom offset text = (tokens.map (.shift offset)).map .token := by
  have alone := made.itemsFrom_append breaks_nil offset
  rwa [List.append_nil, itemsFrom_nil, List.append_nil] at alone

theorem MadeOf.isSealed {text : List Char} {tokens : List Token} (made : MadeOf text tokens) :
    Sealed text := by
  intro offset later breaks
  rw [made.itemsFrom_append breaks, made.itemsFrom]

theorem MadeOf.contents {text : List Char} {tokens : List Token} (made : MadeOf text tokens) :
    contents text = contentsOf tokens := by
  rw [Lexer.contents, made.itemsFrom, List.map_map, ← contentsOf_shift 0]
  rfl

theorem Split.madeOf {offset : Nat} {text : List Char} {token : Token}
    (split : Split offset text token) :
    MadeOf split.written [⟨token.kind, token.text, 0, Text.byteSize split.written⟩] where
  items later breaks := by
    rw [split.lexed.itemsFrom_append breaks, split.token_text, Nat.zero_add]
    rfl
  start := by
    rintro _ ⟨⟩
    rfl
  stop := by
    rintro _ ⟨⟩
    rfl

/-- What is made of a token, a gap and what is made of further tokens is made of all of them. -/
theorem MadeOf.cons {written gap piece : List Char} {kind : TokenKind} {tokens : List Token}
    (nonempty : written ≠ []) (several : tokens ≠ []) (rest : MadeOf piece tokens)
    (trivia : Trivia gap) (found : ∀ later, Breaks later →
      recognize (written ++ (gap ++ (piece ++ later))) = some (kind, written.length)) :
    MadeOf (written ++ (gap ++ piece))
      (⟨kind, String.ofList written, 0, Text.byteSize written⟩ ::
        tokens.map (.shift (Text.byteSize written + Text.byteSize gap))) where
  items later breaks := by
    have first := itemsFrom_token nonempty (found later breaks) 0
    rw [Nat.zero_add, itemsFrom_trivia trivia, rest.itemsFrom_append breaks] at first
    simp only [List.append_assoc, Text.byteSize_append, List.map_cons, List.cons_append,
      ← Nat.add_assoc]
    exact first
  start := by
    rintro _ ⟨⟩
    rfl
  stop token ends := by
    obtain ⟨last, isLast⟩ := Option.isSome_iff_exists.1 (List.getLast?_isSome.2 several)
    rw [List.getLast?_cons, List.getLast?_map, isLast] at ends
    cases ends
    simp only [Option.map_some, Option.getD_some, Token.shift, Span.shift, rest.stop last isLast,
      Text.byteSize_append]
    omega

/-- The text from the first to the last of the tokens that a text starts with is made of just these
tokens. -/
theorem exists_piece {offset : Nat} {text : List Char} {first last : Token}
    {more right : List Token}
    (lexed : itemsFrom offset text = (first :: more ++ right).map .token)
    (ends : (first :: more).getLast? = some last) :
    ∃ gap piece after tokens, text = gap ++ (piece ++ after) ∧ Trivia gap ∧
      first.span.start = offset + Text.byteSize gap ∧
      last.span.stop = offset + Text.byteSize gap + Text.byteSize piece ∧
      MadeOf piece tokens ∧ contentsOf tokens = contentsOf (first :: more) := by
  induction more generalizing offset text first with
  | nil =>
    obtain ⟨split, _⟩ := exists_split lexed
    obtain rfl : first = last := Option.some.inj ends
    exact ⟨split.gap, split.written, split.after, _, split.text, split.trivia,
      split.start, split.stop, split.madeOf, rfl⟩
  | cons second more ih =>
    obtain ⟨split, others⟩ := exists_split lexed
    obtain ⟨gap, piece, after, tokens, whole, trivia, start, stop, made, same⟩ :=
      ih others.symm (by rwa [List.getLast?_cons_cons] at ends)
    have several : tokens ≠ [] := by
      rintro rfl
      cases same
    have found : ∀ later, Breaks later → recognize (split.written ++ (gap ++ (piece ++ later))) =
        some (first.kind, split.written.length) := by
      intro later breaks
      have before := split.found
      rw [whole, ← List.append_assoc gap, ← List.append_assoc] at before
      rw [← List.append_assoc gap, ← List.append_assoc]
      apply recognize_append breaks before
      · rw [List.length_append]
        exact Nat.le_add_right _ _
      · exact fun none => split.nonempty (List.append_eq_nil_iff.1 none).1
    refine ⟨split.gap, split.written ++ (gap ++ piece), after, _, ?_, split.trivia, split.start, ?_,
      made.cons split.nonempty several trivia found, ?_⟩
    · refine split.text.trans ?_
      rw [whole]
      simp only [List.append_assoc]
    · rw [stop, split.stop, Text.byteSize_append, Text.byteSize_append]
      omega
    · have moved := contentsOf_shift (Text.byteSize split.written + Text.byteSize gap) tokens
      rw [← split.token_text]
      exact congrArg (_ :: ·) (moved.trans same)

theorem exists_prefix {offset : Nat} {text : List Char} {left right : List Token}
    (lexed : itemsFrom offset text = (left ++ right).map .token) :
    ∃ before after, text = before ++ after ∧
      itemsFrom (offset + Text.byteSize before) after = right.map .token := by
  induction left generalizing offset text with
  | nil => exact ⟨[], text, rfl, lexed⟩
  | cons token left ih =>
    obtain ⟨split, others⟩ := exists_split lexed
    obtain ⟨before, after, whole, rest⟩ := ih others.symm
    refine ⟨split.gap ++ split.written ++ before, after, ?_, ?_⟩
    · refine split.text.trans ?_
      rw [whole]
      simp only [List.append_assoc]
    · rw [split.stop] at rest
      rw [Text.byteSize_append, Text.byteSize_append, ← Nat.add_assoc, ← Nat.add_assoc]
      exact rest

end CirText.Lexer

namespace CirText

theorem Text.slice_append (before piece after : List Char) :
    slice (before ++ (piece ++ after)) (byteSize before) (byteSize before + byteSize piece) =
      piece := by
  have drops : ∀ before rest, dropBytes? (before ++ rest) (byteSize before) = some rest := by
    intro before rest
    induction before with
    | nil => cases rest <;> rfl
    | cons c before ih =>
      obtain ⟨size, same⟩ := Nat.exists_eq_succ_of_ne_zero (Nat.ne_of_gt c.utf8Size_pos)
      rw [byteSize, same, Nat.succ_add, List.cons_append, dropBytes?, same]
      rw [if_pos (by omega), show size + byteSize before + 1 - size.succ = byteSize before by omega]
      exact ih
  have takes : ∀ piece, takeBytes? (piece ++ after) (byteSize piece) = some piece := by
    intro piece
    induction piece with
    | nil => cases after <;> rfl
    | cons c piece ih =>
      obtain ⟨size, same⟩ := Nat.exists_eq_succ_of_ne_zero (Nat.ne_of_gt c.utf8Size_pos)
      rw [byteSize, same, Nat.succ_add, List.cons_append, takeBytes?, same]
      rw [if_pos (by omega), show size + byteSize piece + 1 - size.succ =
        byteSize piece by omega, ih]
      rfl
  rw [slice, if_pos (Nat.le_add_right _ _), drops, Nat.add_sub_cancel_left]
  exact congrArg (Option.getD · []) (takes piece)

theorem lexItems_of_errors {source : String} (clean : (tokenize source).errors = []) :
    lexItems source = (tokenize source).tokens.map .token := by
  unfold tokenize at clean ⊢
  dsimp only at clean ⊢
  generalize lexItems source = items at clean ⊢
  induction items with
  | nil => rfl
  | cons item items ih =>
    cases item with
    | token token => exact congrArg (LexItem.token token :: ·) (ih clean)
    | error error => cases clean

theorem exists_split_of_mem {source : String} (clean : (tokenize source).errors = [])
    {token : Token} (member : token ∈ (tokenize source).tokens) :
    ∃ offset text, Nonempty (Lexer.Split offset text token) := by
  obtain ⟨left, right, whole⟩ := List.append_of_mem member
  have lexed := lexItems_of_errors clean
  rw [whole] at lexed
  obtain ⟨before, after, _, rest⟩ := Lexer.exists_prefix lexed
  obtain ⟨split, _⟩ := Lexer.exists_split rest
  exact ⟨_, _, ⟨split⟩⟩

/-- The text of a token is that of a token of its class. -/
theorem lexed_of_mem {source : String} (clean : (tokenize source).errors = []) {token : Token}
    (member : token ∈ (tokenize source).tokens) : Lexer.Lexed token.kind token.text.toList := by
  obtain ⟨_, _, ⟨split⟩⟩ := exists_split_of_mem clean member
  rw [split.token_text, String.toList_ofList]
  exact split.lexed

/-- A token is as long as its text. -/
theorem stop_of_mem {source : String} (clean : (tokenize source).errors = []) {token : Token}
    (member : token ∈ (tokenize source).tokens) :
    token.span.stop = token.span.start + Text.byteSize token.text.toList := by
  obtain ⟨_, _, ⟨split⟩⟩ := exists_split_of_mem clean member
  rw [split.stop, split.start, split.token_text, String.toList_ofList]

/-- A piece of a source unit that is taken over as it is written is made of the tokens that it is
taken from. -/
theorem madeOf_slice {source : String} (clean : (tokenize source).errors = [])
    {taken : List Token} (within : taken <:+: (tokenize source).tokens) {first last : Token}
    (starts : taken.head? = some first) (ends : taken.getLast? = some last) :
    ∃ tokens, Lexer.MadeOf ((first.span.cover last.span).slice source.toList) tokens ∧
      Lexer.contentsOf tokens = Lexer.contentsOf taken := by
  obtain ⟨left, right, whole⟩ := within
  obtain ⟨more, rfl⟩ := List.head?_eq_some_iff.1 starts
  have ordered := ordered_tokens source
  rw [← whole] at ordered
  obtain ⟨_, inOrder⟩ := ordered.append_left.append_right
  have lexed := lexItems_of_errors clean
  rw [← whole, List.append_assoc] at lexed
  obtain ⟨before, rest, split, later⟩ := Lexer.exists_prefix lexed
  obtain ⟨gap, piece, after, tokens, same, _, start, stop, made, contents⟩ :=
    Lexer.exists_piece later ends
  have isPiece : (first.span.cover last.span).slice source.toList = piece := by
    have parts : source.toList = before ++ gap ++ (piece ++ after) := by
      rw [split, same, List.append_assoc]
    rw [inOrder.cover_eq starts ends, Span.slice, parts]
    dsimp only
    rw [start, stop, Nat.zero_add, ← Text.byteSize_append]
    exact Text.slice_append (before ++ gap) piece after
  exact ⟨tokens, isPiece ▸ made, contents⟩

end CirText
