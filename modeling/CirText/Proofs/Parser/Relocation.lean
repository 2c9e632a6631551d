import CirText.Proofs.Reread.Lists
import CirText.Proofs.Reread.Tables

/-!
# What a text goes on with, elsewhere in another text

If a text goes on with what another one goes on with, but at another offset, then what is read there
of the one is read of the other as well. It is the same but for its places.
-/

namespace CirText

open CirText.Parser CirText.Reader

/-- The span that is as far behind one offset as the given one is behind another. -/
def Span.move (origin target : Nat) (span : Span) : Span :=
  ⟨span.start - origin + target, span.stop - origin + target⟩

/-- The token that is as far behind one offset as the given one is behind another. -/
def Token.move (origin target : Nat) (token : Token) : Token :=
  { token with span := token.span.move origin target }

theorem Span.cover_move (origin target : Nat) (first last : Span) :
    (first.move origin target).cover (last.move origin target) =
      (first.cover last).move origin target := by
  simp only [move, cover, Nat.add_min_add_right, Nat.add_max_add_right, Nat.sub_min_sub_right,
    Nat.sub_max_sub_right]

/-- Two source texts the second of which goes on, from an offset on, with what the first one goes on
with. -/
structure Relocation where
  /-- The first text. -/
  source : List Char
  /-- The second text. -/
  other : List Char
  /-- The offset in the first text from which on that is so. -/
  origin : Nat
  /-- The offset in the second text from which on that is so. -/
  target : Nat
  slices : ∀ span : Span, origin ≤ span.start → (span.move origin target).slice other =
    span.slice source

namespace Relocation

/-- A token of the first text in the second one. -/
def moved (texts : Relocation) : Token → Token :=
  .move texts.origin texts.target

theorem contentsOf_moved (texts : Relocation) (tokens : List Token) :
    Lexer.contentsOf (tokens.map texts.moved) = Lexer.contentsOf tokens := by
  rw [Lexer.contentsOf, List.map_map]
  rfl

theorem sameMark_moved (texts : Relocation) (tokens : List Token) :
    SameMark tokens (tokens.map texts.moved) := by
  cases tokens <;> exact ⟨rfl, rfl⟩

theorem startsWithAlias_moved (texts : Relocation) (tokens : List Token) :
    startsWithAlias (tokens.map texts.moved) = startsWithAlias tokens := by
  match tokens with
  | [] => rfl
  | [_] => rfl
  | _ :: _ :: _ => rfl

variable {texts : Relocation} {α : Type} {before after stage twin : Stage} {found : Token}

/-- Whether one stage of reading the second text has left what another one of reading the first text
has. -/
structure Follows (texts : Relocation) (stage twin : Stage) : Prop where
  rest : twin.rest = stage.rest.map texts.moved
  within : ∀ token ∈ stage.rest, texts.origin ≤ token.span.start
  similar : stage.Similar twin

namespace Follows

/-! ### Looking ahead -/

theorem peek_eq (follows : texts.Follows stage twin) :
    twin.cursor.peek.kind = stage.cursor.peek.kind ∧ twin.cursor.peek.text =
      stage.cursor.peek.text := by
  rw [Cursor.peek, Cursor.peek, show twin.cursor.rest = _ from follows.rest,
    show stage.cursor.rest = stage.rest from rfl]
  cases stage.rest <;> exact ⟨rfl, rfl⟩

/-- Every condition on the next token is satisfied in both texts or in none. -/
theorem holds_eq (follows : texts.Follows stage twin) (guard : Guard) :
    guard.holds twin.cursor = guard.holds stage.cursor := by
  obtain ⟨kind, text⟩ := follows.peek_eq
  cases guard <;>
    simp only [Guard.holds, Cursor.atPunct, Cursor.atWord, Cursor.atKind, Token.isPunct,
    Token.isWord, kind, text]

theorem atPunct_eq (follows : texts.Follows stage twin) (mark : Punct) :
    twin.cursor.atPunct mark = stage.cursor.atPunct mark :=
  follows.holds_eq (.punct mark)

theorem atWord_eq (follows : texts.Follows stage twin) (text : String) :
    twin.cursor.atWord text = stage.cursor.atWord text :=
  follows.holds_eq (.word text)

theorem atEnd_eq (follows : texts.Follows stage twin) : twin.cursor.atEnd = stage.cursor.atEnd := by
  rw [Stage.atEnd_eq, Stage.atEnd_eq, follows.rest, List.isEmpty_map]

theorem length_rest (follows : texts.Follows stage twin) :
    twin.rest.length = stage.rest.length := by
  rw [follows.rest, List.length_map]

theorem atAttributeAlias_eq (follows : texts.Follows stage twin) :
    twin.cursor.atAttributeAlias = stage.cursor.atAttributeAlias := by
  rw [Parser.atAttributeAlias_eq, Parser.atAttributeAlias_eq, show twin.cursor.rest =
    _ from follows.rest, startsWithAlias_moved]
  rfl

/-! ### Going on -/

/-- A stage that differs in its scopes only. -/
theorem withTracker (follows : texts.Follows stage twin) {tracker other : Tracker}
    (similar : Stage.Similar { stage with tracker } { twin with tracker := other }) :
    texts.Follows { stage with tracker } { twin with tracker := other } :=
  ⟨follows.rest, follows.within, similar⟩

theorem next (follows : texts.Follows stage twin) : texts.Follows stage.next twin.next where
  rest := by
    rw [Stage.rest_next, Stage.rest_next, follows.rest, List.map_drop]
  within token member := by
    rw [Stage.rest_next] at member
    exact follows.within token (List.mem_of_mem_drop member)
  similar := follows.similar.next

theorem passes (follows : texts.Follows before twin) (passes : before.Passes found after) :
    twin.Passes (texts.moved found) twin.next ∧ texts.Follows after twin.next := by
  obtain ⟨rest, rfl⟩ := passes
  refine ⟨⟨?_, rfl⟩, follows.next⟩
  rw [follows.rest, rest, follows.next.rest]
  rfl

theorem pastComma (follows : texts.Follows stage twin) :
    texts.Follows stage.pastComma twin.pastComma := by
  rw [Stage.pastComma, Stage.pastComma, follows.atPunct_eq]
  split
  · exact follows.next
  · exact follows

theorem pastSeparator (follows : texts.Follows stage twin) (separator : Separator) :
    texts.Follows (stage.pastSeparator separator) (twin.pastSeparator separator) := by
  cases separator with
  | comma => exact follows.pastComma
  | blank => exact follows

/-- The same name is defined. -/
theorem defines (follows : texts.Follows before twin) {kind : NameKind} {defined : Definition}
    (defines : before.Defines kind found defined after) {other : Token}
    (name : other.name = found.name) :
    ∃ b last, twin.Defines kind other b last ∧ defined.unplaced = b.unplaced ∧
      texts.Follows after last := by
  obtain ⟨b, last, again, lastRest, similar, same⟩ := defines.again follows.similar name
  obtain ⟨_, _, rfl⟩ := defines
  exact ⟨b, last, again, same, lastRest.trans follows.rest, follows.within, similar⟩

/-- The same name is used. -/
theorem refers (follows : texts.Follows before twin) {kind : NameKind} {used : Reference}
    (refers : before.Refers kind used after) :
    ∃ b last, twin.Refers kind b last ∧ used.unplaced = b.unplaced ∧ texts.Follows after last := by
  obtain ⟨found, isName, rest, isUsed, _⟩ := id refers
  have name : (texts.moved found).name = used.name := by
    rw [isUsed]
    cases kind <;> rfl
  have sameKind : (texts.moved found).kind = nameToken kind := isName
  have twinRest : twin.rest = texts.moved found :: after.rest.map texts.moved := by
    rw [follows.rest, rest, List.map_cons]
  obtain ⟨b, last, again, lastRest, similar, same⟩ :=
    refers.again follows.similar sameKind name twinRest
  refine ⟨b, last, again, same, lastRest, fun token member => ?_, similar⟩
  exact follows.within token (by rw [rest]; exact List.mem_cons_of_mem _ member)

/-- The same text is taken over. -/
theorem embeds (follows : texts.Follows before twin) {read : (tokens : List Token) → Reading tokens}
    (leaves : ∀ tokens, Leaves tokens (read tokens))
    (echoes : ∀ {behind beyond}, SameMark behind beyond → ∀ tokens,
      Echoes behind beyond read tokens)
    {text : String} {span : Span} (embeds : before.Embeds texts.source read text span after) :
    ∃ place last, twin.Embeds texts.other read text place last ∧ texts.Follows after last := by
  obtain ⟨taken, rest, embedded⟩ := embeds.embedded
  obtain ⟨left, given, rfl, rfl, _⟩ := embeds
  have behind : Stage.rest { before with cursor := before.cursor.advanceTo left.1 } = left.1 :=
    Sees.advanceTo_rest (suffix_of_ok (leaves _) given)
  rw [behind] at rest
  have twinRest : twin.rest = taken.map texts.moved ++ left.1.map texts.moved :=
    follows.rest.trans ((congrArg (List.map texts.moved) rest).trans List.map_append)
  have echo := echo_of_contents (texts.contentsOf_moved taken) left.1
    (left.1.map texts.moved)
  rw [← rest, ← twinRest] at echo
  obtain ⟨more, goesOn, echo⟩ :=
    echoes (texts.sameMark_moved left.1) _ left given (List.suffix_refl _) _ echo
  let last : Stage := { twin with cursor := twin.cursor.advanceTo more.1 }
  have lastRest : last.rest = left.1.map texts.moved :=
    (Sees.advanceTo_rest (suffix_of_ok (leaves _) goesOn)).trans echo.eq_beyond
  have again : twin.Embeds texts.other read _ (twin.cursor.spanBetween last.cursor) last :=
    ⟨more, goesOn, rfl, rfl, rfl⟩
  refine ⟨twin.cursor.spanBetween last.cursor, last, ?_, ?_⟩
  · -- The text stands at the same tokens in both source texts.
    obtain ⟨takenAgain, restAgain, _, first, final, starts, ends, place⟩ := again.embedded
    rw [lastRest, twinRest, List.append_cancel_right_eq] at restAgain
    obtain ⟨isText, head, tail, headStarts, tailEnds, whole⟩ := embedded
    rw [← restAgain, List.head?_map, headStarts, Option.map_some, Option.some.injEq] at starts
    rw [← restAgain, List.getLast?_map, tailEnds, Option.map_some, Option.some.injEq] at ends
    subst starts ends
    refine ⟨more, goesOn, rfl, rfl, ?_⟩
    have inside : ∀ token ∈ taken, texts.origin ≤ token.span.start := fun token member =>
      follows.within token (by rw [rest]; exact List.mem_append_left _ member)
    have from_ : texts.origin ≤ (head.span.cover tail.span).start :=
      Nat.le_min.2 ⟨inside head (List.mem_of_head? headStarts),
        inside tail (List.mem_of_getLast? tailEnds)⟩
    rw [isText, place, whole]
    exact congrArg String.ofList
      ((texts.slices _ from_).symm.trans (by rw [← Span.cover_move]; rfl))
  · refine ⟨by rw [lastRest, behind], fun token member => ?_, follows.similar.tracker,
      follows.similar.nextId⟩
    rw [behind] at member
    exact follows.within token (by rw [rest]; exact List.mem_append_right _ member)

end Follows

/-! ## What is carried over -/

/-- Whether what is read of the first text is read of the second one, where that goes on in the same
way, as something that is related to it. -/
def Carries (texts : Relocation) (meaning : Meaning α) (same : α → α → Prop) : Prop :=
  ∀ {before after twin : Stage} {a : α}, meaning texts.source before a after →
    texts.Follows before twin →
    ∃ b last, meaning texts.other twin b last ∧ same a b ∧ texts.Follows after last

namespace Carries

/-- A single token that is accepted for its class and its text. -/
theorem token {accepts : Token → Prop} {value : Token → α} {same : α → α → Prop}
    (accepted : ∀ token, accepts token → accepts (texts.moved token))
    (related : ∀ token, same (value token) (value (texts.moved token))) :
    texts.Carries (fun _ before a after => ∃ found, (accepts found ∧ before.Passes found after) ∧
      a = value found) same := by
  rintro before after twin _ ⟨found, ⟨isFound, passes⟩, rfl⟩ follows
  obtain ⟨again, done⟩ := follows.passes passes
  exact ⟨_, _, ⟨_, ⟨accepted found isFound, again⟩, rfl⟩, related found, done⟩

theorem type : texts.Carries TypeReads fun a b => a.unplaced = b.unplaced := by
  intro before after twin written reads follows
  obtain ⟨place, last, again, done⟩ := follows.embeds leaves_type echoes_type reads
  exact ⟨⟨written.text, place⟩, last, again, rfl, done⟩

theorem attributeOf (form : AttributeForm) :
    texts.Carries (AttributeReads form) fun a b => a.unplaced = b.unplaced := by
  rintro before after twin value ⟨sameForm, reads⟩ follows
  obtain ⟨place, last, again, done⟩ :=
    follows.embeds (leaves_ofForm form) (fun same => echoes_ofForm same form) reads
  exact ⟨⟨value.text, value.form, place⟩, last, ⟨sameForm, again⟩, rfl, done⟩

theorem namedAttribute : texts.Carries NamedAttributeReads fun a b => a.unplaced = b.unplaced := by
  intro before after twin value reads follows
  unfold NamedAttributeReads at reads ⊢
  simp only [follows.atAttributeAlias_eq]
  split at reads
  · rename_i isAlias
    simp only [if_pos isAlias]
    exact attributeOf .aliasName reads follows
  · rename_i noAlias
    simp only [if_neg noAlias]
    obtain ⟨isName, reads⟩ := reads
    obtain ⟨b, last, again, same, done⟩ := attributeOf .dialect reads follows
    exact ⟨b, last, ⟨(follows.holds_eq (.kind .attributeName)).trans isName, again⟩, same, done⟩

theorem trailingAttribute : texts.Carries TrailingAttributeReads
    fun a b => a.map AttributeText.unplaced = b.map AttributeText.unplaced := by
  intro before after twin found reads follows
  unfold TrailingAttributeReads at reads ⊢
  simp only [follows.atAttributeAlias_eq, follows.atPunct_eq]
  split at reads
  · rename_i isAlias
    simp only [if_pos isAlias]
    obtain ⟨value, reads, rfl⟩ := reads
    obtain ⟨b, last, again, same, done⟩ := attributeOf .aliasName reads follows
    exact ⟨some b, last, ⟨b, again, rfl⟩, congrArg some same, done⟩
  · rename_i noAlias
    simp only [if_neg noAlias]
    split at reads
    · rename_i isBrace
      simp only [if_pos isBrace]
      obtain ⟨value, reads, rfl⟩ := reads
      obtain ⟨b, last, again, same, done⟩ := attributeOf .dictionary reads follows
      exact ⟨some b, last, ⟨b, again, rfl⟩, congrArg some same, done⟩
    · rename_i noBrace
      simp only [if_neg noBrace]
      obtain ⟨rfl, rfl⟩ := reads
      exact ⟨none, twin, ⟨rfl, rfl⟩, rfl, follows⟩

/-! ### Lists -/

section Lists

variable {item : Meaning α} {same : α → α → Prop} (each : texts.Carries item same)

include each

theorem tail : texts.Carries (TailReads item) (List.Forall₂ same) := by
  intro before after twin items reads follows
  induction reads generalizing twin with
  | nil ends => exact ⟨[], twin, .nil ((follows.atPunct_eq .comma).trans ends), .nil, follows⟩
  | cons comma first _ ih =>
    obtain ⟨b, middle, firstAgain, sameFirst, midway⟩ := each first follows.next
    obtain ⟨others, last, othersAgain, sameOthers, done⟩ := ih midway
    exact ⟨b :: others, last,
      .cons ((follows.atPunct_eq .comma).trans comma) firstAgain othersAgain,
      .cons sameFirst sameOthers, done⟩

theorem separated : texts.Carries (SeparatedReads item)
    fun a b => same a.1 b.1 ∧ List.Forall₂ same a.2 b.2 := by
  rintro before after twin found ⟨middle, first, others⟩ follows
  obtain ⟨b, between, firstAgain, sameFirst, midway⟩ := each first follows
  obtain ⟨rest, last, othersAgain, sameOthers, done⟩ := tail each others midway
  exact ⟨(b, rest), last, ⟨between, firstAgain, othersAgain⟩, ⟨sameFirst, sameOthers⟩, done⟩

theorem listed : texts.Carries (ListedReads item) (List.Forall₂ same) := by
  intro before after twin items reads follows
  cases reads with
  | nil ends => exact ⟨[], twin, .nil ((follows.atPunct_eq .rightParen).trans ends), .nil, follows⟩
  | cons inside all =>
    obtain ⟨⟨b, others⟩, last, again, ⟨sameFirst, sameOthers⟩, done⟩ := separated each all follows
    exact ⟨b :: others, last, .cons ((follows.atPunct_eq .rightParen).trans inside) again,
      .cons sameFirst sameOthers, done⟩

theorem ellipsis : texts.Carries (EllipsisReads item)
    fun a b => List.Forall₂ same a.1 b.1 ∧ a.2 = b.2 := by
  intro before after twin found reads follows
  induction reads generalizing twin with
  | ellipsis here =>
    exact ⟨([], true), twin.next, .ellipsis ((follows.atPunct_eq .ellipsis).trans here),
      ⟨.nil, rfl⟩, follows.next⟩
  | last absent only ends =>
    obtain ⟨b, last, again, isSame, done⟩ := each only follows
    exact ⟨([b], false), last, .last ((follows.atPunct_eq .ellipsis).trans absent) again
      ((done.atPunct_eq .comma).trans ends), ⟨.cons isSame .nil, rfl⟩, done⟩
  | more absent first comma _ ih =>
    obtain ⟨b, middle, firstAgain, sameFirst, midway⟩ := each first follows
    obtain ⟨⟨others, isOpen⟩, last, othersAgain, ⟨sameOthers, rfl⟩, done⟩ := ih midway.next
    exact ⟨(b :: others, _), last, .more ((follows.atPunct_eq .ellipsis).trans absent) firstAgain
      ((midway.atPunct_eq .comma).trans comma) othersAgain, ⟨.cons sameFirst sameOthers, rfl⟩, done⟩

theorem listedWithEllipsis : texts.Carries (ListedWithEllipsisReads item)
    fun a b => List.Forall₂ same a.1 b.1 ∧ a.2 = b.2 := by
  intro before after twin found reads follows
  unfold ListedWithEllipsisReads at reads ⊢
  simp only [follows.atPunct_eq]
  split at reads
  · rename_i closes
    simp only [if_pos closes]
    obtain ⟨rfl, rfl⟩ := reads
    exact ⟨([], false), twin, ⟨rfl, rfl⟩, ⟨.nil, rfl⟩, follows⟩
  · rename_i inside
    simp only [if_neg inside]
    exact ellipsis each reads follows

theorem bracketed (separator : Separator) :
    texts.Carries (BracketedReads separator item) (List.Forall₂ same) := by
  intro before after twin items reads follows
  induction reads generalizing twin with
  | nil ends =>
    exact ⟨[], twin.next, .nil ((follows.atPunct_eq .rightBracket).trans ends), .nil, follows.next⟩
  | cons inside more first _ ih =>
    obtain ⟨b, middle, firstAgain, sameFirst, midway⟩ := each first follows
    obtain ⟨others, last, othersAgain, sameOthers, done⟩ := ih (midway.pastSeparator separator)
    exact ⟨b :: others, last, .cons ((follows.atPunct_eq .rightBracket).trans inside)
      (follows.atEnd_eq.trans more) firstAgain othersAgain, .cons sameFirst sameOthers, done⟩

theorem repeated (next : Guard) : texts.Carries (RepeatedReads next item) (List.Forall₂ same) := by
  intro before after twin items reads follows
  induction reads generalizing twin with
  | nil ends => exact ⟨[], twin, .nil ((follows.holds_eq next).trans ends), .nil, follows⟩
  | cons goesOn first _ ih =>
    obtain ⟨b, middle, firstAgain, sameFirst, midway⟩ := each first follows
    obtain ⟨others, last, othersAgain, sameOthers, done⟩ := ih midway.pastComma
    exact ⟨b :: others, last, .cons ((follows.holds_eq next).trans goesOn) firstAgain othersAgain,
      .cons sameFirst sameOthers, done⟩

end Lists

/-! ### Modifiers -/

theorem argument (kind : ArgumentKind) :
    texts.Carries (ArgumentReads kind) fun a b => a.unplaced = b.unplaced := by
  cases kind with
  | word | integer =>
    apply token
    · exact fun _ accepted => accepted
    · exact fun _ => rfl
  | «symbol» =>
    rintro before after twin _ ⟨used, reads, rfl⟩ follows
    obtain ⟨b, last, again, same, done⟩ := follows.refers reads
    exact ⟨.symbol b, last, ⟨b, again, rfl⟩, congrArg Argument.symbol same, done⟩
  | «attribute» =>
    rintro before after twin _ ⟨value, reads, rfl⟩ follows
    obtain ⟨b, last, again, same, done⟩ := namedAttribute reads follows
    exact ⟨.attribute b, last, ⟨b, again, rfl⟩, congrArg Argument.attribute same, done⟩

theorem modifierArgument (form : Option ArgumentSyntax) :
    texts.Carries (ModifierArgumentReads form)
      fun a b => a.map Argument.unplaced = b.map Argument.unplaced := by
  intro before after twin found reads follows
  cases form with
  | none =>
    obtain ⟨rfl, rfl⟩ := reads
    exact ⟨none, twin, ⟨rfl, rfl⟩, rfl, follows⟩
  | some form =>
    simp only [ModifierArgumentReads, follows.atPunct_eq] at reads ⊢
    split at reads
    · rename_i leftOut
      simp only [if_pos leftOut]
      obtain ⟨rfl, rfl⟩ := reads
      exact ⟨none, twin, ⟨rfl, rfl⟩, rfl, follows⟩
    · rename_i opens
      simp only [if_neg opens]
      obtain ⟨opening, first, ⟨isOpening, passes⟩, value, last, reads, closing,
          ⟨isClosing, closes⟩, rfl⟩ :=
        reads
      obtain ⟨passesAgain, inside⟩ := follows.passes passes
      obtain ⟨b, final, again, same, outside⟩ := argument form.kind reads inside
      obtain ⟨closesAgain, done⟩ := outside.passes closes
      exact ⟨some b, _,
        ⟨texts.moved opening, _, ⟨isOpening, passesAgain⟩, b, final, again, texts.moved closing,
        ⟨isClosing, closesAgain⟩, rfl⟩, congrArg some same, done⟩

/-- A run of modifiers behind earlier ones. -/
theorem modifiers (rules : List ModifierRule) {earlier others found : List Modifier}
    (same : earlier.map Modifier.unplaced = others.map Modifier.unplaced)
    (reads : ModifiersRead rules texts.source earlier before found after)
    (follows : texts.Follows before twin) :
    ∃ b last, ModifiersRead rules texts.other others twin b last ∧
      found.map Modifier.unplaced = b.map Modifier.unplaced ∧ texts.Follows after last := by
  have finds : ∀ {stage twin}, texts.Follows stage twin →
      rules.find? (fun rule => twin.cursor.atWord rule.keyword) =
        rules.find? fun rule => stage.cursor.atWord rule.keyword := by
    intro stage twin follows
    simp only [follows.atWord_eq]
  induction reads generalizing twin others with
  | nil ends => exact ⟨others, twin, .nil ((finds follows).trans ends), same, follows⟩
  | @cons earlier modifiers before middle after rule argument keyword first free _ ih =>
    obtain ⟨value, between, again, sameValue, midway⟩ := modifierArgument _ first follows.next
    have added : (earlier ++ [(⟨rule, argument⟩ : Modifier)]).map Modifier.unplaced =
        (others ++ [(⟨rule, value⟩ : Modifier)]).map Modifier.unplaced := by
      rw [List.map_append, List.map_append, same]
      exact congrArg (fun value => others.map Modifier.unplaced ++ [(⟨rule, value⟩ : Modifier)])
        sameValue
    obtain ⟨b, last, restAgain, sameAll, done⟩ := ih added midway
    have stillFree : ModifierTable.filling? others rule.slot = none := by
      have here := ModifierTable.filling?_unplaced earlier rule.slot
      rw [same, ModifierTable.filling?_unplaced, free] at here
      exact Option.map_eq_none_iff.1 here
    exact ⟨b, last, .cons ((finds follows).trans keyword) again stillFree restAgain, sameAll, done⟩

end Carries

end Relocation

end CirText
