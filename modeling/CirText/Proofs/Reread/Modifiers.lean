import CirText.Proofs.Reread.Lists

/-!
# Reading modifiers again

A run of modifiers is printed in a fixed order, so it is read again in another order than before.
This does no harm: all that reading a modifier does to scopes is to note the use of a symbol, and no
table lets two modifiers do so. And of all arguments only an attribute can hide what comes behind
it, by a brace, when parsing looks for a colon; there is one at most as well.
-/

namespace CirText

open CirText.Parser CirText.Reader CirText.Cursor

variable {α R S : Type}

/-! ## One modifier of a kind -/

/-- Whether a modifier may have an argument of a kind. -/
def Modifier.takes (kind : ArgumentKind) (modifier : Modifier) : Bool :=
  modifier.rule.takes kind

/-- In a run there is one modifier with an argument of a kind at most, if there is one such rule. -/
theorem ModifierTable.Run.few {rules : List ModifierRule} {modifiers : List Modifier}
    (run : Run rules modifiers) {kind : ArgumentKind} (few : rules.countP (·.takes kind) ≤ 1) :
    (modifiers.filter (Modifier.takes kind)).length ≤ 1 := by
  let chosen := modifiers.filter (Modifier.takes kind)
  have slots : ((modifiers.map (·.rule)).map (·.slot)).Nodup := by
    rw [List.map_map]
    exact run.distinct
  have distinct : (modifiers.map (·.rule)).Nodup := slots.of_map
  have nodup : (chosen.map (·.rule)).Nodup := distinct.sublist (List.filter_sublist.map _)
  have inside : chosen.map (·.rule) ⊆ rules.filter (·.takes kind) := by
    intro rule member
    obtain ⟨modifier, isChosen, rfl⟩ := List.mem_map.1 member
    obtain ⟨isModifier, holds⟩ := List.mem_filter.1 isChosen
    exact List.mem_filter.2 ⟨(run.fits modifier isModifier).1, holds⟩
  have length := (nodup.subperm inside).length_le
  rw [List.length_map] at length
  rw [List.countP_eq_length_filter] at few
  exact length.trans few

namespace Parser

variable {source : String} {printed : List Char} {region : R → List Token → Prop}
  {rules : List ModifierRule} {modifier : Modifier} {modifiers : List Modifier}
  {tokens beyond : List Token}

/-! ## Runs of modifiers -/

/-- A modifier is read. -/
def ModifierReads (rules : List ModifierRule) : Meaning Modifier :=
  fun source before modifier after =>
    rules.find? (fun rule => before.cursor.atWord rule.keyword) = some modifier.rule ∧
      ModifierArgumentReads modifier.rule.argument source before.next modifier.argument after

theorem ModifierReads.leads {source : List Char} {before after : Stage}
    (reads : ModifierReads rules source before modifier after) : before.Leads after :=
  before.leads_next.trans ((Means.modifierArgumentReads _).leads _ _ _ _ reads.2)

/-- Modifiers are read one after the other, and there is no other one behind them. -/
inductive RowReads (rules : List ModifierRule) (source : List Char) :
    Stage → List Modifier → Stage → Prop where
  /-- No further keyword. -/
  | nil {stage : Stage}
      (ends : rules.find? (fun rule => stage.cursor.atWord rule.keyword) = none) :
      RowReads rules source stage [] stage
  /-- Another modifier. -/
  | cons {before middle after : Stage} {modifier : Modifier} {modifiers : List Modifier}
      (first : ModifierReads rules source before modifier middle)
      (rest : RowReads rules source middle modifiers after) :
      RowReads rules source before (modifier :: modifiers) after

theorem ModifiersRead.row {source : List Char} {before after : Stage} {earlier : List Modifier}
    (reads : ModifiersRead rules source earlier before modifiers after) :
    ∃ more, modifiers = earlier ++ more ∧ RowReads rules source before more after := by
  induction reads with
  | nil ends => exact ⟨[], (List.append_nil _).symm, .nil ends⟩
  | @cons earlier _ before middle after rule argument keyword first free rest ih =>
    obtain ⟨more, rfl, row⟩ := ih
    have here : ModifierReads rules source before ⟨rule, argument⟩ middle := ⟨keyword, first⟩
    exact ⟨⟨rule, argument⟩ :: more, by rw [List.append_assoc]; rfl, .cons here row⟩

/-- Modifiers that are read one after the other are a run if no two of them fill the same slot. -/
theorem RowReads.modifiersRead {source : List Char} {before after : Stage}
    (row : RowReads rules source before modifiers after) {earlier : List Modifier}
    (distinct : ((earlier ++ modifiers).map (·.rule.slot)).Nodup) :
    ModifiersRead rules source earlier before (earlier ++ modifiers) after := by
  induction row generalizing earlier with
  | nil ends =>
    rw [List.append_nil]
    exact .nil ends
  | @cons before middle after modifier modifiers first rest ih =>
    have free : ModifierTable.filling? earlier modifier.rule.slot = none := by
      rw [ModifierTable.filling?, List.find?_eq_none]
      intro other member same
      rw [List.map_append, List.nodup_append] at distinct
      exact distinct.2.2 _ (List.mem_map_of_mem member) _ List.mem_cons_self (eq_of_beq same)
    rw [List.append_cons] at distinct ⊢
    exact .cons first.1 first.2 free (ih distinct)

/-! ## Reading a modifier again -/

/-- Unless it is a symbol, an argument is read in the same way whatever has been read before. -/
theorem ArgumentReads.anywhere {source : List Char} {before after : Stage} {kind : ArgumentKind}
    {argument : Argument} (reads : ArgumentReads kind source before argument after)
    (noSymbol : kind ≠ .symbol) (tracker : Tracker) (nextId : Nat) :
    ArgumentReads kind source ⟨before.cursor, tracker, nextId⟩ argument
        ⟨after.cursor, tracker, nextId⟩ ∧
      after.tracker = before.tracker ∧ after.nextId = before.nextId := by
  cases kind with
  | word | integer =>
    obtain ⟨found, ⟨isFound, rest, rfl⟩, rfl⟩ := reads
    exact ⟨⟨found, ⟨isFound, rest, rfl⟩, rfl⟩, rfl, rfl⟩
  | «symbol» => exact absurd rfl noSymbol
  | «attribute» =>
    obtain ⟨value, reads, rfl⟩ := reads
    have ofForm : ∀ form, AttributeReads form source before value after →
        AttributeReads form source ⟨before.cursor, tracker, nextId⟩ value
            ⟨after.cursor, tracker, nextId⟩ ∧
          after.tracker = before.tracker ∧ after.nextId = before.nextId := by
      rintro form ⟨sameForm, rest, given, rfl, place⟩
      exact ⟨⟨sameForm, rest, given, rfl, place⟩, rfl, rfl⟩
    unfold NamedAttributeReads at reads
    split at reads
    · rename_i isAlias
      obtain ⟨again, same⟩ := ofForm _ reads
      refine ⟨⟨value, ?_, rfl⟩, same⟩
      rw [NamedAttributeReads, if_pos isAlias]
      exact again
    · rename_i noAlias
      obtain ⟨again, same⟩ := ofForm _ reads.2
      refine ⟨⟨value, ?_, rfl⟩, same⟩
      rw [NamedAttributeReads, if_neg noAlias]
      exact ⟨reads.1, again⟩

/-- Unless it takes a symbol, a modifier is read in the same way whatever has been read before. -/
theorem ModifierReads.anywhere {source : List Char} {before after : Stage}
    (reads : ModifierReads rules source before modifier after)
    (noSymbol : modifier.takes .symbol = false) (tracker : Tracker) (nextId : Nat) :
    ModifierReads rules source ⟨before.cursor, tracker, nextId⟩ modifier
        ⟨after.cursor, tracker, nextId⟩ ∧
      after.tracker = before.tracker ∧ after.nextId = before.nextId := by
  obtain ⟨keyword, reads⟩ := reads
  unfold ModifierReads ModifierArgumentReads
  unfold ModifierArgumentReads at reads
  split at reads
  · obtain ⟨none, rfl⟩ := reads
    exact ⟨⟨keyword, none, rfl⟩, rfl, rfl⟩
  · rename_i form given
    have noKind : form.kind ≠ .symbol := by
      rintro isSymbol
      rw [Modifier.takes, ModifierRule.takes, given, Option.any_some, isSymbol] at noSymbol
      cases noSymbol
    split at reads
    · rename_i leftOut
      obtain ⟨none, rfl⟩ := reads
      refine ⟨⟨keyword, ?_⟩, rfl, rfl⟩
      rw [if_pos]
      · exact ⟨none, rfl⟩
      · exact leftOut
    · rename_i opens
      obtain ⟨opening, first, ⟨isOpening, rest, rfl⟩, argument, last, reads, closing,
        ⟨isClosing, closes, rfl⟩, found⟩ := reads
      obtain ⟨again, sameTracker, sameId⟩ := reads.anywhere noKind tracker nextId
      refine ⟨⟨keyword, ?_⟩, sameTracker, sameId⟩
      rw [if_neg]
      · exact ⟨opening, ⟨before.next.next.cursor, tracker, nextId⟩,
          ⟨isOpening, rest, rfl⟩, argument,
          ⟨last.cursor, tracker, nextId⟩, again, closing, ⟨isClosing, closes, rfl⟩, found⟩
      · exact opens

/-- The argument of a modifier is read again. -/
theorem repeats_argument (clean : (tokenize source).errors = []) (kind : ArgumentKind) :
    Repeats source printed (ArgumentReads kind)
      (fun argument => (argument.piece kind).SpelledBy printed region)
      (fun argument again => argument.unplaced = again.unplaced) := by
  cases kind with
  | word =>
    refine @Repeats.token _ _ _ _ _ _ (fun found => found.kind = .identifier)
      (fun found => .lexeme ⟨found.text, found.span⟩) .rfl ?_
    rintro found _ isFound ⟨twin, rfl, isTwin, text⟩
    exact ⟨twin, rfl, isTwin, face_of_content (isTwin.trans isFound.symm) text, by
      rw [Argument.unplaced, Argument.unplaced, Lexeme.unplaced, Lexeme.unplaced, text]⟩
  | integer =>
    refine @Repeats.token _ _ _ _ _ _ (fun found => found.kind = .integer)
      (fun found => .lexeme ⟨found.text, found.span⟩) .rfl ?_
    rintro found _ isFound ⟨twin, rfl, isTwin, text⟩
    exact ⟨twin, rfl, isTwin, face_of_content (isTwin.trans isFound.symm) text, by
      rw [Argument.unplaced, Argument.unplaced, Lexeme.unplaced, Lexeme.unplaced, text]⟩
  | «symbol» =>
    rintro before after _ tokens ⟨used, refers, rfl⟩ within isSpelled
    obtain ⟨alike, again⟩ := repeats_name .symbol refers within isSpelled
    refine ⟨alike, fun beyond mark other rest similar => ?_⟩
    obtain ⟨b, last, refersAgain, lastRest, similar, same⟩ := again beyond mark other rest similar
    exact ⟨.symbol b, last, ⟨b, refersAgain, rfl⟩, lastRest, similar, congrArg Argument.symbol same⟩
  | «attribute» =>
    rintro before after _ tokens ⟨value, reads, rfl⟩ within isSpelled
    obtain ⟨alike, again⟩ := repeats_namedAttribute clean reads within isSpelled
    refine ⟨alike, fun beyond mark other rest similar => ?_⟩
    obtain ⟨b, last, readsAgain, lastRest, similar, same⟩ := again beyond mark other rest similar
    exact ⟨.attribute b, last, ⟨b, readsAgain, rfl⟩, lastRest, similar,
      congrArg Argument.attribute same⟩

theorem unmarked_closing (form : ArgumentSyntax) {token : Token} {rest : List Token}
    (isClosing : token.isPunct form.closing = true) : Unmarked (token :: rest) := by
  apply Unmarked.of_punct isClosing <;> rw [ArgumentSyntax.closing] <;> split <;> rintro ⟨⟩

/-- A bare word that comes in front of other tokens. -/
theorem Stage.atWord_of_rest {stage : Stage} {token : Token} {rest : List Token} {text : String}
    (given : stage.rest = token :: rest) : stage.cursor.atWord text = token.isWord text := by
  rw [Cursor.atWord, Cursor.peek, show stage.cursor.rest = token :: rest from given]
  rfl

/-- A mark is spelled by a mark. -/
theorem Spelled.punct_cons {mark : Punct} {pieces : List (Piece R)}
    (spelled : Spelled printed region (.punct mark :: pieces) tokens) :
    ∃ token rest, tokens = token :: rest ∧ token.isPunct mark = true ∧
      Spelled printed region pieces rest := by
  obtain ⟨token, rest, rfl, ⟨kind, _⟩, later⟩ := Spelled.token_cons_iff.1 spelled
  exact ⟨token, rest, rfl, beq_iff_eq.2 kind, later⟩

/-- A word is spelled by a word. -/
theorem Spelled.word_cons {text : String} {pieces : List (Piece R)}
    (spelled : Spelled printed region (.word text :: pieces) tokens) :
    ∃ token rest, tokens = token :: rest ∧ token.isWord text = true ∧
      Spelled printed region pieces rest := by
  obtain ⟨token, rest, rfl, ⟨kind, same⟩, later⟩ := Spelled.token_cons_iff.1 spelled
  exact ⟨token, rest, rfl, Bool.and_eq_true_iff.2 ⟨beq_iff_eq.2 kind, beq_iff_eq.2 same⟩, later⟩

theorem face_of_punct {mark : Punct} {token twin : Token} (isMark : token.isPunct mark = true)
    (isTwin : twin.isPunct mark = true) : twin.face = token.face := by
  have kind : token.kind = .punct mark := beq_iff_eq.1 isMark
  refine face_of_kind ((beq_iff_eq.1 isTwin).trans kind.symm) ?_
  rw [kind]
  rintro ⟨⟩

theorem content_of_words {text : String} {token twin : Token} (isWord : token.isWord text = true)
    (isTwin : twin.isWord text = true) : twin.kind = token.kind ∧ twin.text = token.text := by
  obtain ⟨kind, written⟩ := Bool.and_eq_true_iff.1 isWord
  obtain ⟨twinKind, twinWritten⟩ := Bool.and_eq_true_iff.1 isTwin
  exact ⟨(beq_iff_eq.1 twinKind).trans (beq_iff_eq.1 kind).symm,
    (beq_iff_eq.1 twinWritten).trans (beq_iff_eq.1 written).symm⟩

/-- The argument of a modifier is read again wherever no parenthesis comes behind it. -/
theorem ModifierArgumentReads.again (clean : (tokenize source).errors = []) {before after : Stage}
    {rule : ModifierRule} {argument : Option Argument}
    (reads : ModifierArgumentReads rule.argument source.toList before argument after)
    (simple : rule.argument.all (fun form => !(form.optional && form.angled)) = true)
    (within : before.rest <:+ (tokenize source).tokens)
    (isSpelled : Spelled printed region (Modifier.pieces ⟨rule, argument⟩).tail.tail tokens) :
    (∃ taken, before.rest = taken ++ after.rest ∧ Alike taken tokens) ∧
      ∀ beyond, startsWith .leftParen beyond = false →
        Meaning.ReadsAgain (ModifierArgumentReads rule.argument) printed
          (fun argument again => argument.map Argument.unplaced =
            again.map Argument.unplaced) before
            argument after tokens beyond := by
  cases given : rule.argument with
  | none =>
    rw [given] at reads
    obtain ⟨rfl, rfl⟩ := reads
    obtain rfl : tokens = [] := isSpelled
    exact ⟨⟨[], rfl, .nil⟩, fun beyond _ other rest similar =>
      ⟨none, other, ⟨rfl, rfl⟩, rest, similar, rfl⟩⟩
  | some form =>
    rw [given] at reads simple
    simp only [ModifierArgumentReads] at reads
    split at reads
    · rename_i leftOut
      obtain ⟨rfl, rfl⟩ := reads
      obtain rfl : tokens = [] := isSpelled
      have optional := (Bool.and_eq_true_iff.1 leftOut).1
      have opening : form.opening = .leftParen := by
        rw [Option.all_some, optional, Bool.true_and, Bool.not_eq_true'] at simple
        rw [ArgumentSyntax.opening, simple]
        rfl
      refine ⟨⟨[], rfl, .nil⟩, fun beyond absent other rest similar =>
        ⟨none, other, ?_, rest, similar, rfl⟩⟩
      have noOpening : other.cursor.atPunct form.opening = false := by
        rw [opening, Stage.atPunct_eq, rest]
        exact absent
      simp [ModifierArgumentReads, optional, noOpening]
    · obtain ⟨opening, first, ⟨isOpening, opens⟩, argument, last, reads, closing,
        ⟨isClosing, closes⟩, rfl⟩ := reads
      simp only [Modifier.pieces, List.tail_cons, given] at isSpelled
      obtain ⟨twin, later, rfl, isTwin, isSpelled⟩ := Spelled.punct_cons isSpelled
      obtain ⟨inside, _, rfl, isArgument, isLast⟩ := isSpelled
      obtain ⟨final, _, rfl, isFinal, rfl⟩ := Spelled.punct_cons isLast
      have inner : first.rest <:+ (tokenize source).tokens :=
        List.IsSuffix.trans ⟨[opening], opens.1.symm⟩ within
      obtain ⟨⟨taken, rest, alike⟩, again⟩ :=
        repeats_argument clean form.kind reads inner isArgument
      refine ⟨⟨opening :: taken ++ [closing], ?_, ?_⟩, fun beyond _ other tokensRest similar => ?_⟩
      · rw [opens.1, rest, closes.1]
        simp
      · exact .cons (face_of_punct isOpening isTwin)
          (alike.append (.cons (face_of_punct isClosing isFinal) .nil))
      · have mark : SameMark last.rest (final :: beyond) := by
          rw [closes.1]
          exact (unmarked_closing form isClosing).sameMark (unmarked_closing form isFinal)
        have firstRest : other.rest = twin :: (inside ++ (final :: beyond)) := by
          rw [tokensRest]
          simp
        obtain ⟨passes, next⟩ := Stage.passes_of_rest firstRest
        obtain ⟨b, last', readsAgain, lastRest, similar, same⟩ :=
          again _ mark other.next next (opens.2 ▸ similar.next)
        obtain ⟨passesFinal, finalRest⟩ := Stage.passes_of_rest lastRest
        refine ⟨some b, last'.next, ?_, finalRest, closes.2 ▸ similar.next, congrArg some same⟩
        have isOpening : other.cursor.atPunct form.opening = true := by
          rw [Stage.atPunct_of_rest firstRest, isTwin]
        simp only [ModifierArgumentReads, isOpening, Bool.not_true, Bool.and_false]
        exact ⟨twin, _, ⟨isTwin, passes⟩, b, last', readsAgain, final, ⟨isFinal, passesFinal⟩, rfl⟩

/-- A modifier is read again wherever no parenthesis comes behind it. -/
theorem ModifierReads.again (clean : (tokenize source).errors = []) {before after : Stage}
    (reads : ModifierReads rules source.toList before modifier after)
    (simple : modifier.rule.argument.all (fun form => !(form.optional && form.angled)) = true)
    (within : before.rest <:+ (tokenize source).tokens)
    (isSpelled : Spelled printed region modifier.pieces tokens) :
    (∃ taken, before.rest = taken ++ after.rest ∧ Alike taken tokens) ∧
      ∀ beyond, startsWith .leftParen beyond = false →
        (ModifierReads rules).ReadsAgain printed
          (fun modifier again => modifier.unplaced = again.unplaced) before modifier after tokens
            beyond := by
  obtain ⟨rule, argument⟩ := modifier
  obtain ⟨keyword, reads⟩ := reads
  have here := List.find?_some keyword
  obtain ⟨isWord, passes⟩ :=
    (Stage.passes_iff (·.isWord rule.keyword) fun _ => rfl).1 ⟨here, rfl, rfl⟩
  obtain ⟨twin, later, rfl, isTwin, isSpelled⟩ :=
    Spelled.word_cons (Spelled.blank_cons_iff.1 isSpelled)
  have content := content_of_words isWord isTwin
  have inner : before.next.rest <:+ (tokenize source).tokens :=
    List.IsSuffix.trans ⟨[_], passes.1.symm⟩ within
  obtain ⟨⟨taken, rest, alike⟩, again⟩ := reads.again clean simple inner isSpelled
  refine ⟨⟨_ :: taken, by
    rw [passes.1, rest]; rfl, .cons (face_of_content content.1 content.2) alike⟩,
    fun beyond absent other tokensRest similar => ?_⟩
  obtain ⟨b, last, readsAgain, lastRest, similar, same⟩ :=
    again beyond absent other.next (Stage.passes_of_rest tokensRest).2 similar.next
  refine ⟨⟨rule, b⟩, last, ⟨?_, readsAgain⟩, lastRest, similar, ?_⟩
  · have sameWords : ∀ text, other.cursor.atWord text = before.cursor.atWord text := by
      intro text
      rw [Stage.atWord_of_rest tokensRest, Stage.atWord_of_rest passes.1,
        Token.isWord, Token.isWord,
        content.1, content.2]
    simp only [sameWords]
    exact keyword
  · exact congrArg (Modifier.mk rule) same

/-! ## Reading a run again -/

/-- Whether a modifier that has been read between two stages is read again from its printed tokens
wherever no parenthesis comes behind it, and a symbol where the scopes are as at the first stage. -/
def Recalls (rules : List ModifierRule) (printed : List Char) (region : R → List Token → Prop)
    (first last : Stage) (modifier : Modifier) : Prop :=
  ∀ tokens, Spelled printed region modifier.pieces tokens → ∀ beyond,
    startsWith .leftParen beyond = false → ∀ other : Stage, other.rest = tokens ++ beyond →
      (modifier.takes .symbol = true → first.Similar other) →
        ∃ again final, ModifierReads rules printed other again final ∧ final.rest = beyond ∧
          modifier.unplaced = again.unplaced ∧
            if modifier.takes .symbol then last.Similar final else other.Similar final

theorem ModifierReads.recalls (clean : (tokenize source).errors = []) {before after : Stage}
    (reads : ModifierReads rules source.toList before modifier after)
    (simple : modifier.rule.argument.all (fun form => !(form.optional && form.angled)) = true)
    (within : before.rest <:+ (tokenize source).tokens) :
    Recalls rules printed region before after modifier := by
  intro tokens isSpelled beyond absent other rest similar
  cases takes : modifier.takes .symbol with
  | true =>
    obtain ⟨again, final, readsAgain, finalRest, same, unplaced⟩ :=
      (reads.again clean simple within isSpelled).2 beyond absent other rest (similar takes)
    exact ⟨again, final, readsAgain, finalRest, unplaced, same⟩
  | false =>
    -- Where nothing is noted, scopes may just as well have been like this when it was read.
    obtain ⟨moved, _⟩ := reads.anywhere takes other.tracker other.nextId
    obtain ⟨again, final, readsAgain, finalRest, same, unplaced⟩ :=
      (moved.again clean simple within isSpelled).2 beyond absent other rest ⟨rfl, rfl⟩
    have similar : other.Similar final := ⟨same.tracker, same.nextId⟩
    exact ⟨again, final, readsAgain, finalRest, unplaced, similar⟩

/-- All modifiers of a run are read again, and only a symbol matters to the scopes. -/
theorem RowReads.recalls (clean : (tokenize source).errors = []) {before after : Stage}
    (row : RowReads rules source.toList before modifiers after)
    (simple : ∀ modifier ∈ modifiers,
      modifier.rule.argument.all (fun form => !(form.optional && form.angled)) = true)
    (within : before.rest <:+ (tokenize source).tokens)
    (few : (modifiers.filter (Modifier.takes .symbol)).length ≤ 1) :
    (∀ modifier ∈ modifiers, Recalls rules printed region before after modifier) ∧
      (modifiers.filter (Modifier.takes .symbol) = [] → before.Similar after) := by
  induction row with
  | nil => exact ⟨List.forall_mem_nil _, fun _ => .refl _⟩
  | @cons before middle after modifier modifiers first rest ih =>
    obtain ⟨simpleFirst, simpleRest⟩ := List.forall_mem_cons.1 simple
    obtain ⟨taken, toMiddle⟩ := first.leads
    have fewer : (modifiers.filter (Modifier.takes .symbol)).length ≤ 1 :=
      ((List.sublist_cons_self _ _).filter _).length_le.trans few
    obtain ⟨others, unchanged⟩ := ih simpleRest (List.IsSuffix.trans ⟨taken, toMiddle.symm⟩ within)
      fewer
    have recalled : Recalls rules printed region before middle modifier :=
      first.recalls clean simpleFirst within
    cases takes : modifier.takes .symbol with
    | true =>
      rw [List.filter_cons_of_pos takes, List.length_cons] at few
      have none : modifiers.filter (Modifier.takes .symbol) = [] :=
        List.eq_nil_of_length_eq_zero (Nat.le_zero.1 (Nat.le_of_succ_le_succ few))
      have later := unchanged none
      refine ⟨List.forall_mem_cons.2 ⟨?_, fun other member => ?_⟩, ?_⟩
      · intro tokens isSpelled beyond absent stage restTokens similar
        obtain ⟨again, final, readsAgain, finalRest, same, unplaced⟩ :=
          recalled tokens isSpelled beyond absent stage restTokens similar
        refine ⟨again, final, readsAgain, finalRest, same, ?_⟩
        rw [takes, if_pos rfl] at unplaced ⊢
        exact later.symm.trans unplaced
      · intro tokens isSpelled beyond absent stage restTokens _
        have noSymbol : other.takes .symbol = false :=
          Bool.eq_false_iff.2 (List.filter_eq_nil_iff.1 none other member)
        exact others other member tokens isSpelled beyond absent stage restTokens
          (fun isSymbol => absurd isSymbol (by rw [noSymbol]; exact Bool.false_ne_true))
      · rw [List.filter_cons_of_pos takes]
        rintro ⟨⟩
    | false =>
      have here : before.Similar middle := by
        obtain ⟨_, tracker, nextId⟩ := first.anywhere takes before.tracker before.nextId
        exact ⟨by rw [tracker], nextId⟩
      refine ⟨List.forall_mem_cons.2 ⟨?_, fun other member => ?_⟩, ?_⟩
      · intro tokens isSpelled beyond absent stage restTokens similar
        obtain ⟨again, final, readsAgain, finalRest, same, unplaced⟩ :=
          recalled tokens isSpelled beyond absent stage restTokens similar
        refine ⟨again, final, readsAgain, finalRest, same, ?_⟩
        rw [takes] at unplaced ⊢
        exact unplaced
      · intro tokens isSpelled beyond absent stage restTokens similar
        exact others other member tokens isSpelled beyond absent stage restTokens
          fun isSymbol => here.symm.trans (similar isSymbol)
      · rw [List.filter_cons_of_neg (by rw [takes]; exact Bool.false_ne_true)]
        exact fun none => here.trans (unchanged none)

/-- The tokens of modifiers start with a keyword. -/
theorem startsWith_modifiers {mark : Punct}
    (spelled : Spelled printed region (modifiers.flatMap Modifier.pieces) tokens)
    (absent : startsWith mark beyond = false) : startsWith mark (tokens ++ beyond) = false := by
  cases modifiers with
  | nil =>
    obtain rfl : tokens = [] := spelled
    exact absent
  | cons modifier modifiers =>
    rw [List.flatMap_cons, Modifier.pieces, List.cons_append, List.cons_append] at spelled
    obtain ⟨token, rest, rfl, isWord, _⟩ := Spelled.word_cons (Spelled.blank_cons_iff.1 spelled)
    have kind : token.kind = .identifier := beq_iff_eq.1 (Bool.and_eq_true_iff.1 isWord).1
    simp [startsWith, Token.isPunct, kind]

/-- Modifiers that are read again one by one are read again one after the other, if one of them is a
symbol at most. -/
theorem row_again {first last other : Stage}
    (each : ∀ modifier ∈ modifiers, Recalls rules printed region first last modifier)
    (few : (modifiers.filter (Modifier.takes .symbol)).length ≤ 1)
    (spelled : Spelled printed region (modifiers.flatMap Modifier.pieces) tokens)
    (absent : startsWith .leftParen beyond = false)
    (ends : ∀ stage : Stage, stage.rest = beyond →
      rules.find? (fun rule => stage.cursor.atWord rule.keyword) = none)
    (rest : other.rest = tokens ++ beyond)
    (similar : modifiers.filter (Modifier.takes .symbol) ≠ [] → first.Similar other) :
    ∃ again final, RowReads rules printed other again final ∧ final.rest = beyond ∧
      again.map Modifier.unplaced = modifiers.map Modifier.unplaced ∧
        (modifiers.filter (Modifier.takes .symbol) = [] → other.Similar final) ∧
        (modifiers.filter (Modifier.takes .symbol) ≠ [] → last.Similar final) := by
  induction modifiers generalizing tokens other with
  | nil =>
    obtain rfl : tokens = [] := spelled
    exact ⟨[], other, .nil (ends other rest), rest, rfl, fun _ => .refl _, fun some =>
      absurd rfl some⟩
  | cons modifier modifiers ih =>
    rw [List.flatMap_cons] at spelled
    obtain ⟨here, later, rfl, isFirst, isRest⟩ := Spelled.append_iff.1 spelled
    rw [List.append_assoc] at rest
    obtain ⟨recalls, eachRest⟩ := List.forall_mem_cons.1 each
    have fewer : (modifiers.filter (Modifier.takes .symbol)).length ≤ 1 :=
      ((List.sublist_cons_self _ _).filter _).length_le.trans few
    cases takes : modifier.takes .symbol with
    | true =>
      rw [List.filter_cons_of_pos takes] at few similar ⊢
      have none : modifiers.filter (Modifier.takes .symbol) = [] :=
        List.eq_nil_of_length_eq_zero (Nat.le_zero.1 (Nat.le_of_succ_le_succ few))
      obtain ⟨again, middle, reads, middleRest, same, noted⟩ :=
        recalls here isFirst _ (startsWith_modifiers isRest absent) other rest fun _ =>
          similar (by simp)
      rw [takes, if_pos rfl] at noted
      obtain ⟨others, final, row, finalRest, sameRest, unchanged, _⟩ :=
        ih eachRest fewer isRest middleRest (fun some => absurd none some)
      refine ⟨again :: others, final, .cons reads row, finalRest, ?_, by rintro ⟨⟩, fun _ =>
        noted.trans (unchanged none)⟩
      rw [List.map_cons, List.map_cons, same, sameRest]
    | false =>
      rw [List.filter_cons_of_neg (by rw [takes]; exact Bool.false_ne_true)] at few similar ⊢
      obtain ⟨again, middle, reads, middleRest, same, unchanged⟩ :=
        recalls here isFirst _ (startsWith_modifiers isRest absent) other rest fun isSymbol =>
          absurd isSymbol (by rw [takes]; exact Bool.false_ne_true)
      rw [takes] at unchanged
      have unchanged : other.Similar middle := unchanged
      obtain ⟨others, final, row, finalRest, sameRest, none, some⟩ :=
        ih eachRest fewer isRest middleRest fun some => (similar some).trans unchanged
      refine ⟨again :: others, final, .cons reads row, finalRest, ?_,
        fun absent => unchanged.trans (none absent), some⟩
      rw [List.map_cons, List.map_cons, same, sameRest]

/-! ## Looking for a colon behind modifiers -/

/-- A token that is no mark does not matter when parsing looks for a colon. -/
theorem closes_noMark {depth : Nat} {token : Token} (noMark : ∀ mark, token.kind ≠ .punct mark) :
    closesBeforeColon depth (token :: tokens) = closesBeforeColon depth tokens := by
  apply closesBeforeColon_cons <;> exact beq_eq_false_iff_ne.2 (noMark _)

/-- A modifier does not matter when parsing looks for a colon, unless it has an attribute. -/
theorem closes_modifier (fits : modifier.Fits) (noAttribute : modifier.takes .attribute = false)
    (spelled : Spelled printed region modifier.pieces tokens) (rest : List Token) (depth : Nat) :
    closesBeforeColon (depth + 1) (tokens ++ rest) = closesBeforeColon (depth + 1) rest := by
  obtain ⟨rule, argument⟩ := modifier
  obtain ⟨token, later, rfl, isWord, spelled⟩ :=
    Spelled.word_cons (Spelled.blank_cons_iff.1 spelled)
  have wordKind : token.kind = .identifier := beq_iff_eq.1 (Bool.and_eq_true_iff.1 isWord).1
  rw [List.cons_append, closes_noMark (by rw [wordKind]; rintro _ ⟨⟩)]
  cases argument with
  | none =>
    obtain rfl : later = [] := spelled
    rfl
  | some argument =>
    cases given : rule.argument with
    | none =>
      rw [Modifier.Fits, given] at fits
      cases fits
    | some form =>
      rw [Modifier.Fits, given] at fits
      have noKind : form.kind ≠ .attribute := by
        intro isAttribute
        rw [Modifier.takes, ModifierRule.takes, given, Option.any_some, isAttribute] at noAttribute
        cases noAttribute
      simp only [given] at spelled
      obtain ⟨opening, later, rfl, isOpening, inner, _, rfl, isArgument, closes⟩ :=
        Spelled.punct_cons spelled
      obtain ⟨closing, _, rfl, isClosing, rfl⟩ := Spelled.punct_cons closes
      obtain ⟨single, rfl, noMark⟩ : ∃ single, inner = [single] ∧
          ∀ mark, single.kind ≠ .punct mark := by
        cases argument with
        | lexeme word =>
          obtain ⟨single, rfl, kind, _⟩ := isArgument
          refine ⟨single, rfl, fun mark => ?_⟩
          rw [kind]
          split <;> rintro ⟨⟩
        | «symbol» used =>
          obtain ⟨single, rfl, kind, _⟩ := isArgument
          refine ⟨single, rfl, fun mark => ?_⟩
          rw [kind]
          cases used.kind <;> rintro ⟨⟩
        | «attribute» value =>
          cases kind : form.kind with
          | «attribute» => exact absurd kind noKind
          | _ =>
            have takes : form.kind.Takes (.attribute value) := fits
            rw [kind] at takes
            cases takes
      cases angled : form.angled with
      | true =>
        rw [ArgumentSyntax.opening, angled, if_pos rfl] at isOpening
        rw [ArgumentSyntax.closing, angled, if_pos rfl] at isClosing
        have openingKind : opening.kind = .punct .less := beq_iff_eq.1 isOpening
        have closingKind : closing.kind = .punct .greater := beq_iff_eq.1 isClosing
        simp only [List.cons_append, List.nil_append]
        rw [closesBeforeColon_cons, closes_noMark noMark, closesBeforeColon_cons] <;>
          simp [Token.isPunct, openingKind, closingKind]
      | false =>
        rw [ArgumentSyntax.opening, angled, if_neg Bool.false_ne_true] at isOpening
        rw [ArgumentSyntax.closing, angled, if_neg Bool.false_ne_true] at isClosing
        simp only [List.cons_append, List.nil_append]
        rw [closesBeforeColon_opening isOpening, closes_noMark noMark,
          closesBeforeColon_closing isClosing]

/-- Whether tokens stand for a modifier that fits its rule. -/
def PartOf (printed : List Char) (region : R → List Token → Prop) (modifier : Modifier)
    (part : Modifier × List Token) : Prop :=
  part.1 = modifier ∧ modifier.Fits ∧ Spelled printed region modifier.pieces part.2

theorem parts_of_spelled (fits : ∀ modifier ∈ modifiers, modifier.Fits)
    (spelled : Spelled printed region (modifiers.flatMap Modifier.pieces) tokens) :
    ∃ parts, tokens = parts.flatMap Prod.snd ∧
      List.Forall₂ (PartOf printed region) modifiers parts := by
  induction modifiers generalizing tokens with
  | nil => exact ⟨[], spelled, .nil⟩
  | cons modifier modifiers ih =>
    rw [List.flatMap_cons] at spelled
    obtain ⟨here, later, rfl, isFirst, isRest⟩ := Spelled.append_iff.1 spelled
    obtain ⟨fitsFirst, fitsRest⟩ := List.forall_mem_cons.1 fits
    obtain ⟨parts, rfl, all⟩ := ih fitsRest isRest
    exact ⟨(modifier, here) :: parts, rfl, .cons ⟨rfl, fitsFirst, isFirst⟩ all⟩

/-- The tokens of a modifier start with a keyword. -/
theorem PartOf.noColon {part : Modifier × List Token}
    (spelled : PartOf printed region modifier part)
    (later : List Token) : startsWith .colon (part.2 ++ later) = false := by
  obtain ⟨rfl, _, spelled⟩ := spelled
  obtain ⟨token, rest, same, isWord, _⟩ := Spelled.word_cons (Spelled.blank_cons_iff.1 spelled)
  have kind : token.kind = .identifier := beq_iff_eq.1 (Bool.and_eq_true_iff.1 isWord).1
  simp [same, startsWith, Token.isPunct, kind]

/-- Whether a modifier may have an attribute. -/
def takesAttribute (part : Modifier × List Token) : Bool :=
  part.1.takes .attribute

/-- Only the modifiers with an attribute matter when parsing looks for a colon. -/
theorem scans_attributes {parts : List (Modifier × List Token)}
    (all : List.Forall₂ (PartOf printed region) modifiers parts)
    (noColon : startsWith .colon beyond = false) :
    Scans (parts.flatMap Prod.snd ++ beyond)
      ((parts.filter takesAttribute).flatMap Prod.snd ++ beyond) := by
  induction all with
  | nil => exact .refl _
  | @cons modifier part modifiers parts first rest ih =>
    rw [List.flatMap_cons, List.append_assoc]
    cases takes : takesAttribute part with
    | true =>
      rw [List.filter_cons_of_pos takes, List.flatMap_cons, List.append_assoc]
      exact (Alike.refl part.2).scans ih
    | false =>
      rw [List.filter_cons_of_neg (by rw [takes]; exact Bool.false_ne_true)]
      refine .trans ⟨?_, fun depth => ?_⟩ ih
      · rw [first.noColon]
        cases rest with
        | nil => exact noColon
        | cons next =>
          rw [List.flatMap_cons, List.append_assoc]
          exact next.noColon _
      · obtain ⟨rfl, fits, spelled⟩ := first
        exact (closes_modifier fits takes spelled _ depth).symm

theorem eq_of_perm_of_few {items others : List α} (perm : items.Perm others)
    (few : items.length ≤ 1) : items = others := by
  match items, perm, few with
  | [], perm, _ => exact perm.nil_eq
  | [a], perm, _ => exact perm.singleton_eq

/-- Modifiers are looked through for a colon in any order alike. -/
theorem scans_perm {parts others : List (Modifier × List Token)} {reordered : List Modifier}
    (all : List.Forall₂ (PartOf printed region) modifiers parts)
    (again : List.Forall₂ (PartOf printed region) reordered others) (perm : parts.Perm others)
    (few : (modifiers.filter (Modifier.takes .attribute)).length ≤ 1)
    (noColon : startsWith .colon beyond = false) :
    Scans (parts.flatMap Prod.snd ++ beyond) (others.flatMap Prod.snd ++ beyond) := by
  have fewParts : (parts.filter takesAttribute).length ≤ 1 := by
    have same : modifiers = parts.map Prod.fst := by
      clear few perm again
      induction all with
      | nil => rfl
      | cons first _ ih => rw [List.map_cons, first.1, ih]
    rw [same, List.filter_map, List.length_map] at few
    exact few
  have core := eq_of_perm_of_few (perm.filter takesAttribute) fewParts
  have left := scans_attributes all noColon
  rw [core] at left
  exact left.trans (scans_attributes again noColon).symm

/-- Modifiers are looked through for a colon in the source as in their printed tokens in the same
order. -/
theorem RowReads.scans (clean : (tokenize source).errors = []) {before after : Stage}
    (row : RowReads rules source.toList before modifiers after)
    (simple : ∀ modifier ∈ modifiers,
      modifier.rule.argument.all (fun form => !(form.optional && form.angled)) = true)
    (within : before.rest <:+ (tokenize source).tokens) {parts : List (Modifier × List Token)}
    (all : List.Forall₂ (PartOf printed region) modifiers parts)
    (behind : Scans after.rest beyond) :
    Scans before.rest (parts.flatMap Prod.snd ++ beyond) := by
  induction row generalizing parts with
  | nil =>
    cases all
    exact behind
  | @cons before middle after modifier modifiers first rest ih =>
    cases all with
    | @cons _ part _ parts spelled others =>
      obtain ⟨simpleFirst, simpleRest⟩ := List.forall_mem_cons.1 simple
      obtain ⟨rfl, _, isSpelled⟩ := spelled
      obtain ⟨⟨taken, toMiddle, alike⟩, _⟩ := first.again clean simpleFirst within isSpelled
      have later := ih simpleRest (List.IsSuffix.trans ⟨taken, toMiddle.symm⟩ within) others behind
      rw [List.flatMap_cons, List.append_assoc, toMiddle]
      exact alike.scans later

end Parser

end CirText
