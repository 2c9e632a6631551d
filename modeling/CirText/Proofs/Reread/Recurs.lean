import CirText.Proofs.Parser.Passage
import CirText.Proofs.Parser.Sight
import CirText.Proofs.Printed
import CirText.Proofs.Reread.Ahead
import CirText.Proofs.Reread.Tracker

/-!
# Reading again what has been printed

What is read somewhere in a source text is read again from the printed tokens that stand for it,
wherever they are met with the scopes and the number for the next operation as they were in the
source, if parsing looks ahead alike. Names, marks, types and attributes are even repeated token by
token, and hardly anything has to be known about what comes behind them.
-/

namespace CirText

open CirText.Lexer CirText.Reader

/-- Text that is taken over has the tokens that it is taken from. -/
theorem Embedded.contents {source : String} (clean : (tokenize source).errors = [])
    {taken : List Token} {text : String} {span : Span}
    (embedded : Embedded source.toList taken text span)
    (within : taken <:+: (tokenize source).tokens) :
    contentsOf taken = Lexer.contents text.toList := by
  obtain ⟨rfl, first, last, starts, ends, rfl⟩ := embedded
  obtain ⟨tokens, made, contents⟩ := madeOf_slice clean within starts ends
  rw [String.toList_ofList, made.contents, contents]

namespace Parser

variable {α β : Type}

/-! ## Stages -/

/-- Whether two stages differ in the position and in the places of names only. -/
structure Stage.Similar (stage other : Stage) : Prop where
  tracker : other.tracker.unplaced = stage.tracker.unplaced
  nextId : other.nextId = stage.nextId

namespace Stage.Similar

variable {stage other last : Stage}

theorem refl (stage : Stage) : stage.Similar stage :=
  ⟨rfl, rfl⟩

theorem symm (similar : stage.Similar other) : other.Similar stage :=
  ⟨similar.tracker.symm, similar.nextId.symm⟩

theorem trans (left : stage.Similar other) (right : other.Similar last) : stage.Similar last :=
  ⟨right.tracker.trans left.tracker, right.nextId.trans left.nextId⟩

theorem next (similar : stage.Similar other) : stage.next.Similar other.next :=
  ⟨similar.tracker, similar.nextId⟩

theorem push (similar : stage.Similar other) :
    Stage.Similar { stage with tracker := stage.tracker.push }
      { other with tracker := other.tracker.push } where
  tracker := by
    dsimp only
    rw [Tracker.push_unplaced, Tracker.push_unplaced, similar.tracker]
  nextId := similar.nextId

theorem pop (similar : stage.Similar other) :
    Stage.Similar { stage with tracker := stage.tracker.pop.1 }
      { other with tracker := other.tracker.pop.1 } where
  tracker := by
    have here := stage.tracker.pop_unplaced
    have there := other.tracker.pop_unplaced
    rw [similar.tracker, here] at there
    exact (Prod.mk.inj there).1.symm
  nextId := similar.nextId

/-- If closing a scope leaves nothing unresolved, it does not do so in the other stage. -/
theorem resolved (similar : stage.Similar other) (resolved : stage.tracker.pop.2 = []) :
    other.tracker.pop.2 = [] := by
  have here := stage.tracker.pop_unplaced
  have there := other.tracker.pop_unplaced
  rw [similar.tracker, here, resolved] at there
  exact List.map_eq_nil_iff.1 (Prod.mk.inj there).2.symm

end Stage.Similar

theorem Stage.passes_of_rest {stage : Stage} {token : Token} {rest : List Token}
    (given : stage.rest = token :: rest) :
    stage.Passes token stage.next ∧ stage.next.rest = rest := by
  have next : stage.next.rest = rest := by
    rw [Stage.rest_next, given]
    rfl
  exact ⟨⟨by rw [given, next], rfl⟩, next⟩

/-- A mark that comes in front of other tokens. -/
theorem Stage.atPunct_of_rest {stage : Stage} {token : Token} {rest : List Token} {mark : Punct}
    (given : stage.rest = token :: rest) : stage.cursor.atPunct mark = token.isPunct mark := by
  rw [Cursor.atPunct, Cursor.peek, show stage.cursor.rest = token :: rest from given]
  rfl

/-- A name is defined again. -/
theorem Stage.Defines.again {before after other : Stage} {kind : NameKind} {found twin : Token}
    {defined : Definition} (defines : before.Defines kind found defined after)
    (similar : before.Similar other) (name : twin.name = found.name) :
    ∃ b last, other.Defines kind twin b last ∧ last.rest = other.rest ∧ after.Similar last ∧
      defined.unplaced = b.unplaced := by
  obtain ⟨free, rfl, rfl⟩ := defines
  have here := before.tracker.clash?_unplaced kind found.name
  have there := other.tracker.clash?_unplaced kind found.name
  rw [similar.tracker, here, free] at there
  have home : other.tracker.home kind = before.tracker.home kind := by
    rw [← Tracker.home_unplaced, similar.tracker, Tracker.home_unplaced]
  refine ⟨_, _, ⟨?_, rfl, rfl⟩, rfl, ⟨?_, similar.nextId⟩, ?_⟩
  · rw [name]
    exact Option.map_eq_none_iff.1 there.symm
  · have tables : other.tracker.table.unplaced = before.tracker.table.unplaced :=
      congrArg Tracker.table similar.tracker
    have others := similar.tracker
    rw [Tracker.unplaced, Tracker.unplaced, Tracker.mk.injEq] at others ⊢
    refine ⟨?_, others.2⟩
    dsimp only
    rw [SymbolTable.insert_unplaced, SymbolTable.insert_unplaced, tables, name, home]
    rfl
  · rw [name, home]
    rfl

/-- A name is used again. -/
theorem Stage.Refers.again {before after other : Stage} {kind : NameKind} {used : Reference}
    (refers : before.Refers kind used after) (similar : before.Similar other) {twin : Token}
    {beyond : List Token} (isName : twin.kind = nameToken kind) (name : twin.name = used.name)
    (rest : other.rest = twin :: beyond) :
    ∃ b last, other.Refers kind b last ∧ last.rest = beyond ∧ after.Similar last ∧
      used.unplaced = b.unplaced := by
  obtain ⟨found, _, _, rfl, rfl⟩ := refers
  have sameName : (before.tracker.refer kind found.name found.span).1.name = found.name := by
    cases kind <;> rfl
  rw [sameName] at name
  have next : other.next.rest = beyond := (Stage.passes_of_rest rest).2
  obtain ⟨used, tracker⟩ := before.tracker.refer_unplaced kind found.name found.span
  obtain ⟨other_used, other_tracker⟩ := other.tracker.refer_unplaced kind twin.name twin.span
  rw [similar.tracker, name] at other_used other_tracker
  refine ⟨_, { other.next with tracker := (other.tracker.refer kind twin.name twin.span).2 },
    ⟨twin, isName, ?_, rfl, rfl⟩, next, ⟨?_, similar.nextId⟩, ?_⟩
  · rw [rest]
    exact congrArg (twin :: ·) next.symm
  · rw [name]
    exact other_tracker.trans tracker.symm
  · rw [name]
    exact used.trans other_used.symm

/-! ## Reading again -/

/-- Whether what is read between two stages is read again from other tokens with others beyond. -/
def Meaning.ReadsAgain (meaning : Meaning α) (printed : List Char) (same : α → α → Prop)
    (before : Stage) (a : α) (after : Stage) (tokens beyond : List Token) : Prop :=
  ∀ other : Stage, other.rest = tokens ++ beyond → before.Similar other →
    ∃ b last, meaning printed other b last ∧ last.rest = beyond ∧ after.Similar last ∧ same a b

/-- Whether what is read of a source is read from tokens like those that stand for it in a printed
text, from which it is read again. -/
def Repeats (source : String) (printed : List Char) (meaning : Meaning α)
    (spelled : α → List Token → Prop) (same : α → α → Prop) : Prop :=
  ∀ {before after : Stage} {a : α} {tokens : List Token}, meaning source.toList before a after →
    before.rest <:+ (tokenize source).tokens → spelled a tokens →
      (∃ taken, before.rest = taken ++ after.rest ∧ Alike taken tokens) ∧
        ∀ beyond, SameMark after.rest beyond →
          meaning.ReadsAgain printed same before a after tokens beyond

/-- Whether what is read of a source is read again from the tokens that stand for it in a printed
text, if what comes beyond them is like what came behind, where some things must not come. -/
def Recurs (source : String) (printed : List Char) (meaning : Meaning α)
    (spelled : α → List Token → Prop) (same : α → α → Prop) (bars : List Bar) : Prop :=
  ∀ {before after : Stage} {a : α} {tokens beyond : List Token},
    meaning source.toList before a after → before.rest <:+ (tokenize source).tokens →
      spelled a tokens → Kindred after.rest beyond →
        (∀ bar ∈ bars, bar.holds after.cursor = false) →
          Kindred before.rest (tokens ++ beyond) ∧
            meaning.ReadsAgain printed same before a after tokens beyond

variable {source : String} {printed : List Char} {meaning : Meaning α}
  {spelled : α → List Token → Prop} {same : α → α → Prop} {bars : List Bar}

theorem Repeats.recurs (repeats : Repeats source printed meaning spelled same) :
    Recurs source printed meaning spelled same [] := by
  intro before after a tokens beyond reads within isSpelled kindred _
  obtain ⟨⟨taken, rest, alike⟩, again⟩ := repeats reads within isSpelled
  rw [rest]
  exact ⟨alike.kindred kindred, again beyond kindred.sameMark⟩

/-! ## Tokens -/

/-- A single token. -/
theorem Repeats.token {accepts : Token → Prop} {value : Token → α}
    (means : ∀ {source before a after}, meaning source before a after ↔
      ∃ found, (accepts found ∧ before.Passes found after) ∧ a = value found)
    (twins : ∀ {found tokens}, accepts found → spelled (value found) tokens →
      ∃ twin, tokens = [twin] ∧ accepts twin ∧ twin.face = found.face ∧
        same (value found) (value twin)) : Repeats source printed meaning spelled same := by
  intro before after a tokens reads _ isSpelled
  obtain ⟨found, ⟨isFound, passes⟩, rfl⟩ := means.1 reads
  obtain ⟨twin, rfl, isTwin, face, isSame⟩ := twins isFound isSpelled
  refine ⟨⟨[found], passes.1, .cons face .nil⟩, fun beyond _ other rest similar => ?_⟩
  obtain ⟨passesTwin, next⟩ := Stage.passes_of_rest rest
  refine ⟨value twin, other.next, means.2 ⟨twin, ⟨isTwin, passesTwin⟩, rfl⟩, next, ?_, isSame⟩
  rw [passes.2]
  exact similar.next

/-- The use of a name. -/
theorem repeats_name {R : Type} {region : R → List Token → Prop} (kind : NameKind) :
    Repeats source printed (fun _ before used after => before.Refers kind used after)
      (fun used => (Piece.reference used).SpelledBy printed region)
      (fun used again => used.unplaced = again.unplaced) := by
  intro before after used tokens refers _ isSpelled
  obtain ⟨twin, rfl, isName, name⟩ := isSpelled
  have sameKind : used.kind = kind := by
    obtain ⟨found, _, _, rfl, _⟩ := refers
    cases kind <;> rfl
  rw [sameKind] at isName
  obtain ⟨found, isFound, rest, _⟩ := id refers
  have noWord : found.kind ≠ .identifier := by
    rw [isFound]
    cases kind <;> nofun
  exact ⟨⟨[found], rest, .cons (face_of_kind (isName.trans isFound.symm) noWord) .nil⟩,
    fun beyond _ other tokensRest similar => refers.again similar isName name tokensRest⟩

/-! ## Types and attributes -/

/-- Text that is taken over from the source is taken over again from the printed text. -/
theorem Stage.Embeds.again (clean : (tokenize source).errors = [])
    {read : (tokens : List Token) → Reader.Reading tokens}
    (leaves : ∀ tokens, Leaves tokens (read tokens))
    (echoes : ∀ {behind beyond}, SameMark behind beyond → ∀ tokens,
      Echoes behind beyond read tokens)
    {before after : Stage} {text : String} {span : Span}
    (embeds : before.Embeds source.toList read text span after)
    (within : before.rest <:+ (tokenize source).tokens) {tokens : List Token}
    (copied : Copied printed text tokens) :
    (∃ taken, before.rest = taken ++ after.rest ∧ Alike taken tokens) ∧
      ∀ beyond, SameMark after.rest beyond → ∀ other : Stage, other.rest = tokens ++ beyond →
        before.Similar other → ∃ place last, other.Embeds printed read text place last ∧
          last.rest = beyond ∧ after.Similar last := by
  obtain ⟨taken, rest, embedded⟩ := embeds.embedded
  have inside : taken <:+: (tokenize source).tokens :=
    List.IsInfix.trans ⟨[], after.rest, by rw [rest, List.nil_append]⟩ within.isInfix
  obtain ⟨left, given, rfl, rfl, _⟩ := embeds
  have behind : (before.cursor.advanceTo left.1).rest = left.1 :=
    Sees.advanceTo_rest (suffix_of_ok (leaves _) given)
  have behind : Stage.rest { before with cursor := before.cursor.advanceTo left.1 } = left.1 :=
    behind
  have contents : contentsOf tokens = contentsOf taken :=
    copied.contents.trans (embedded.contents clean inside).symm
  refine ⟨⟨taken, rest, alike_of_contents contents⟩, fun beyond mark other tokensRest similar => ?_⟩
  rw [behind] at rest mark
  have echo := echo_of_contents contents left.1 beyond
  rw [← rest, ← tokensRest] at echo
  obtain ⟨more, found, echo⟩ := echoes mark _ left given (List.suffix_refl _) _ echo
  have beyondLeft : more.1 = beyond := echo.eq_beyond
  let last : Stage := { other with cursor := other.cursor.advanceTo more.1 }
  have lastRest : last.rest = beyond := by
    change (other.cursor.advanceTo more.1).rest = beyond
    rw [Sees.advanceTo_rest (suffix_of_ok (leaves _) found), beyondLeft]
  have again : other.Embeds printed read _ (other.cursor.spanBetween last.cursor) last :=
    ⟨more, found, rfl, rfl, rfl⟩
  refine ⟨other.cursor.spanBetween last.cursor, last, ?_, lastRest, similar.tracker, similar.nextId⟩
  -- The place of the text is that of the tokens, from which the printed text has been taken.
  obtain ⟨takenAgain, restAgain, textAgain, first, final, starts, ends, place⟩ := again.embedded
  rw [lastRest, tokensRest, List.append_cancel_right_eq] at restAgain
  subst restAgain
  obtain ⟨_, _, startsToo, endsToo, slice⟩ := copied.slice
  obtain rfl := Option.some.inj (starts.symm.trans startsToo)
  obtain rfl := Option.some.inj (ends.symm.trans endsToo)
  refine ⟨more, found, rfl, rfl, ?_⟩
  rw [place, slice, String.ofList_toList]

variable (clean : (tokenize source).errors = [])

include clean

theorem repeats_type : Repeats source printed TypeReads
    (fun written => Copied printed written.text)
    (fun written again => written.unplaced = again.unplaced) := by
  intro before after written tokens reads within copied
  obtain ⟨alike, again⟩ := reads.again clean leaves_type echoes_type within copied
  refine ⟨alike, fun beyond mark other rest similar => ?_⟩
  obtain ⟨place, last, embeds, lastRest, lastSimilar⟩ := again beyond mark other rest similar
  exact ⟨⟨written.text, place⟩, last, embeds, lastRest, lastSimilar, rfl⟩

theorem repeats_attributeOf (form : AttributeForm) : Repeats source printed (AttributeReads form)
    (fun value => Copied printed value.text)
    (fun value again => value.unplaced = again.unplaced) := by
  rintro before after value tokens ⟨sameForm, reads⟩ within copied
  obtain ⟨alike, again⟩ := reads.again clean (leaves_ofForm form)
    (fun same => echoes_ofForm same form) within copied
  refine ⟨alike, fun beyond mark other rest similar => ?_⟩
  obtain ⟨place, last, embeds, lastRest, lastSimilar⟩ := again beyond mark other rest similar
  exact ⟨⟨value.text, value.form, place⟩, last, ⟨sameForm, embeds⟩, lastRest, lastSimilar, rfl⟩

omit clean in
theorem startsWithAlias_of_aliasName {tokens : List Token}
    {left : { rest : List Token // rest.length < tokens.length }}
    (given : aliasName tokens = .ok left) : startsWithAlias tokens = true := by
  unfold aliasName at given
  split at given
  · cases given
  · split at given
    · rename_i isAlias
      exact isAlias
    · cases given

omit clean in
theorem startsWithAlias_of_dialect {tokens : List Token}
    {left : { rest : List Token // rest.length < tokens.length }}
    (given : dialect tokens = .ok left) : startsWithAlias tokens = false := by
  unfold dialect at given
  split at given
  · cases given
  · split at given
    · rename_i isDialect
      exact isDialect.2
    · cases given

omit clean in
theorem atAttributeAlias_eq (cursor : Cursor) :
    cursor.atAttributeAlias = startsWithAlias cursor.rest := by
  cases rest : cursor.rest with
  | nil => simp [Cursor.atAttributeAlias, Cursor.peek, rest, Token.isAttributeAlias,
      Cursor.endToken, Token.endAt, startsWithAlias]
  | cons token tokens =>
    cases tokens <;> simp [Cursor.atAttributeAlias, Cursor.peek, Cursor.peekAt, rest,
      Token.isAttributeAlias, startsWithAlias, Cursor.endToken, Token.isPunct, Token.endAt]

omit clean in
theorem AttributeReads.isAlias {text : List Char} {before after : Stage} {value : AttributeText}
    (reads : AttributeReads .aliasName text before value after) :
    before.cursor.atAttributeAlias = true := by
  obtain ⟨_, left, given, _⟩ := reads
  change aliasName before.cursor.rest = .ok left at given
  rw [atAttributeAlias_eq]
  exact startsWithAlias_of_aliasName given

omit clean in
theorem AttributeReads.isDialect {text : List Char} {before after : Stage} {value : AttributeText}
    (reads : AttributeReads .dialect text before value after) :
    before.cursor.atAttributeAlias = false ∧ before.cursor.atKind .attributeName = true := by
  have read := reads
  obtain ⟨_, left, given, _⟩ := read
  change dialect before.cursor.rest = .ok left at given
  rw [atAttributeAlias_eq]
  refine ⟨startsWithAlias_of_dialect given, ?_⟩
  obtain ⟨kind, member, same⟩ := Grammar.starts_attributeOf reads
  rw [List.mem_singleton.1 member] at same
  exact beq_iff_eq.2 same

omit clean in
theorem AttributeReads.isDictionary {text : List Char} {before after : Stage}
    {value : AttributeText} (reads : AttributeReads .dictionary text before value after) :
    before.cursor.atAttributeAlias = false ∧ before.cursor.atPunct .leftBrace = true := by
  obtain ⟨kind, member, same⟩ := Grammar.starts_attributeOf reads
  rw [List.mem_singleton.1 member] at same
  refine ⟨?_, beq_iff_eq.2 same⟩
  rw [Cursor.atAttributeAlias, Token.isAttributeAlias, same]
  rfl

theorem repeats_namedAttribute : Repeats source printed NamedAttributeReads
    (fun value => Copied printed value.text)
    (fun value again => value.unplaced = again.unplaced) := by
  intro before after value tokens reads within copied
  unfold NamedAttributeReads at reads
  split at reads
  · obtain ⟨alike, again⟩ := repeats_attributeOf clean .aliasName reads within copied
    refine ⟨alike, fun beyond mark other rest similar => ?_⟩
    obtain ⟨found, last, readsAgain, goesOn⟩ := again beyond mark other rest similar
    refine ⟨found, last, ?_, goesOn⟩
    rw [NamedAttributeReads, if_pos readsAgain.isAlias]
    exact readsAgain
  · obtain ⟨alike, again⟩ := repeats_attributeOf clean .dialect reads.2 within copied
    refine ⟨alike, fun beyond mark other rest similar => ?_⟩
    obtain ⟨found, last, readsAgain, goesOn⟩ := again beyond mark other rest similar
    refine ⟨found, last, ?_, goesOn⟩
    rw [NamedAttributeReads, if_neg (by rw [readsAgain.isDialect.1]; exact Bool.false_ne_true)]
    exact ⟨readsAgain.isDialect.2, readsAgain⟩

/-- An optional attribute is read again if no other attribute comes behind it. -/
theorem recurs_trailingAttribute : Recurs source printed TrailingAttributeReads
    (fun
      | none, tokens => tokens = []
      | some value, tokens => Copied printed value.text tokens)
    (fun found again => found.map AttributeText.unplaced = again.map AttributeText.unplaced)
    [.guard (.kind .attributeName)] := by
  intro before after found tokens beyond reads within isSpelled kindred barred
  unfold TrailingAttributeReads at reads
  split at reads
  · obtain ⟨value, reads, rfl⟩ := reads
    obtain ⟨alike, again⟩ := Repeats.recurs (repeats_attributeOf clean .aliasName) reads within
      isSpelled kindred (by rintro _ ⟨⟩)
    refine ⟨alike, fun other rest similar => ?_⟩
    obtain ⟨value, last, readsAgain, lastRest, lastSimilar, same⟩ := again other rest similar
    refine ⟨some value, last, ?_, lastRest, lastSimilar, congrArg some same⟩
    rw [TrailingAttributeReads, if_pos readsAgain.isAlias]
    exact ⟨value, readsAgain, rfl⟩
  · split at reads
    · obtain ⟨value, reads, rfl⟩ := reads
      obtain ⟨alike, again⟩ := Repeats.recurs (repeats_attributeOf clean .dictionary) reads
        within isSpelled kindred (by rintro _ ⟨⟩)
      refine ⟨alike, fun other rest similar => ?_⟩
      obtain ⟨value, last, readsAgain, lastRest, lastSimilar, same⟩ := again other rest similar
      obtain ⟨noAlias, isBrace⟩ := readsAgain.isDictionary
      refine ⟨some value, last, ?_, lastRest, lastSimilar, congrArg some same⟩
      rw [TrailingAttributeReads, if_neg (by rw [noAlias]; exact Bool.false_ne_true),
        if_pos isBrace]
      exact ⟨value, readsAgain, rfl⟩
    · rename_i noAlias noBrace
      obtain ⟨rfl, rfl⟩ := reads
      obtain rfl : tokens = [] := isSpelled
      refine ⟨kindred, fun other rest similar => ⟨none, other, ?_, rest, similar, rfl⟩⟩
      have face : face other.cursor.rest = face after.cursor.rest := by
        rw [show other.cursor.rest = beyond from rest]
        exact kindred.face
      have noName : other.cursor.atKind .attributeName = false :=
        (Guard.holds_congr (.kind .attributeName) rfl face).trans
          (barred _ (List.mem_singleton_self _))
      have noOpening : other.cursor.atPunct .leftBrace = after.cursor.atPunct .leftBrace :=
        Guard.holds_congr (.punct .leftBrace) rfl face
      have notAlias : ¬other.cursor.atAttributeAlias = true := by
        rw [Cursor.atAttributeAlias, Token.isAttributeAlias,
          show (other.cursor.peek.kind == .attributeName) = false from noName]
        exact Bool.false_ne_true
      rw [TrailingAttributeReads, if_neg notAlias, noOpening, if_neg noBrace]
      exact ⟨rfl, rfl⟩

end Parser

end CirText
