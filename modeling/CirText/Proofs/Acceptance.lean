import CirText.Proofs.Parser.Passage
import CirText.Proofs.Sublanguage.Accepted

/-!
# What is read as a type or an attribute

From wherever the cursor stands, a type or an attribute is read exactly if tokens in front of it
derive from the grammar. What is read is then these tokens, and its text is the source text at their
place.
-/

namespace CirText

variable {α : Type} {part : Reader.Part} {source : List Char} {make : String → Span → α}
  {cursor after : Cursor}

namespace Cursor

/-- What has been read as a part of the grammar: the tokens in front that derive from it, and no
others do, made into a text with its place. The cursor has moved behind them. -/
structure Took (part : Reader.Part) (source : List Char) (make : String → Span → α)
    (cursor : Cursor) (found : α) (after : Cursor) : Prop where
  taken : ∃ taken text span, cursor.rest = taken ++ after.rest ∧
    Reader.Derives part taken after.rest ∧ after = cursor.advance taken.length ∧
      Embedded source taken text span ∧ found = make text span
  only : ∀ others behind, cursor.rest = others ++ behind → Reader.Derives part others behind →
    behind = after.rest
  forward : cursor.position < after.position
  within : after.position + after.rest.length = cursor.position + cursor.rest.length

/-- Whether exactly a part of the grammar is read: reading succeeds if tokens in front derive from
it, and only then. -/
structure ReadsExactly (part : Reader.Part) (source : List Char) (make : String → Span → α)
    (cursor : Cursor) (outcome : Except SublanguageError (α × Cursor)) : Prop where
  accepts : (∃ found after, outcome = .ok (found, after)) ↔
    ∃ taken behind, cursor.rest = taken ++ behind ∧ Reader.Derives part taken behind
  took : ∀ found after, outcome = .ok (found, after) → cursor.Took part source make found after

theorem position_advance {taken behind : List Token} (more : cursor.rest = taken ++ behind) :
    (cursor.advance taken.length).position = cursor.position + taken.length := by
  induction taken generalizing cursor with
  | nil => rfl
  | cons token taken ih =>
    have next : cursor.next.rest = taken ++ behind := by
      rw [rest_next, more]
      rfl
    rw [List.length_cons, advance, ih next, position_next more, Nat.add_assoc, Nat.add_comm 1]

theorem advanceTo_append {taken behind : List Token} (more : cursor.rest = taken ++ behind) :
    cursor.advanceTo behind = cursor.advance taken.length := by
  rw [advanceTo, more, List.length_append, Nat.add_sub_cancel]

/-- What stands between the first and the last of some tokens is taken over as a text. -/
theorem embedded_spanBetween {taken behind : List Token} (some : taken ≠ [])
    (more : cursor.rest = taken ++ behind) {span : Span}
    (between : span = cursor.spanBetween (cursor.advance taken.length)) :
    Embedded source taken (String.ofList (span.slice source)) span := by
  have ends := List.getLast?_eq_some_getLast some
  have moved := advance_spec ends more
  have first : cursor.peek = taken.head some := by
    rw [peek, more, List.headD_eq_head?_getD, List.head?_append_of_ne_nil _ some,
      List.head?_eq_some_head some]
    rfl
  refine ⟨rfl, _, _, List.head?_eq_some_head some, ends, ?_⟩
  rw [between, spanBetween, moved.1]
  simp only [if_neg (Nat.not_le_of_lt moved.2), first]

/-- A failed reader has nothing in front of it that derives. -/
theorem readsExactly_error (failed : Reader.leftBehind part cursor.rest = none)
    (error : SublanguageError) : cursor.ReadsExactly part source make (.error error) where
  accepts := by
    constructor
    · rintro ⟨_, _, ⟨⟩⟩
    · rintro ⟨taken, behind, more⟩
      rw [Reader.leftBehind_eq_some_iff.2 ⟨taken, more⟩] at failed
      cases failed
  took := by
    rintro _ _ ⟨⟩

/-- A reader that succeeds has taken what derives. -/
theorem readsExactly_ok {rest : List Token} (fewer : rest.length < cursor.rest.length)
    (given : Reader.leftBehind part cursor.rest = some rest) {span : Span}
    (between : span = cursor.spanBetween (cursor.advanceTo rest)) :
    cursor.ReadsExactly part source make
      (.ok (make (String.ofList (span.slice source)) span, cursor.advanceTo rest)) := by
  obtain ⟨taken, more, derives⟩ := Reader.leftBehind_eq_some_iff.1 given
  have nonempty : taken ≠ [] := by
    rintro rfl
    rw [more] at fewer
    exact Nat.lt_irrefl _ fewer
  have moved := advanceTo_append more
  have behind : (cursor.advanceTo rest).rest = rest := by
    rw [moved, rest_advance, more, List.drop_left]
  have position := position_advance more
  refine ⟨⟨fun _ => ⟨taken, rest, more, derives⟩, fun _ => ⟨_, _, rfl⟩⟩, ?_⟩
  rintro _ _ ⟨⟩
  constructor
  · refine ⟨taken, _, span, by rwa [behind], by rwa [behind], moved, ?_, rfl⟩
    exact embedded_spanBetween nonempty more (moved ▸ between)
  · intro others left split derivesOthers
    rw [behind]
    exact (derivesOthers.unique derives (split.symm.trans more)).2
  · rw [moved, position]
    exact Nat.lt_add_of_pos_right (List.length_pos_of_ne_nil nonempty)
  · rw [behind, moved, position, more, List.length_append, Nat.add_assoc]

theorem readsExactly_type (source : List Char) (cursor : Cursor) :
    cursor.ReadsExactly .type source TypeText.mk (cursor.readType source) := by
  unfold readType
  cases outcome : Reader.type cursor.rest with
  | error mismatch =>
    have failed : Reader.leftBehind .type cursor.rest = none := by
      rw [Reader.leftBehind, outcome]
      rfl
    exact readsExactly_error failed _
  | ok rest =>
    have given : Reader.leftBehind .type cursor.rest = some rest.1 := by
      rw [Reader.leftBehind, outcome]
      rfl
    exact readsExactly_ok rest.2 given rfl

theorem readsExactly_attribute (source : List Char) (form : AttributeForm) (cursor : Cursor) :
    cursor.ReadsExactly (.attributeOf form) source (fun text span =>
      AttributeText.mk text form span)
      (cursor.readAttribute source form) := by
  unfold readAttribute
  cases outcome : Reader.ofForm form cursor.rest with
  | error mismatch =>
    have failed : Reader.leftBehind (.attributeOf form) cursor.rest = none := by
      rw [Reader.leftBehind, outcome]
      rfl
    exact readsExactly_error failed _
  | ok rest =>
    have given : Reader.leftBehind (.attributeOf form) cursor.rest = some rest.1 := by
      rw [Reader.leftBehind, outcome]
      rfl
    exact readsExactly_ok rest.2 given rfl

/-- Types and attributes of every form are read exactly as the grammar has them. -/
theorem sublanguages_readExactly (source : List Char) (cursor : Cursor) :
    cursor.ReadsExactly .type source TypeText.mk (cursor.readType source) ∧
      ∀ form, cursor.ReadsExactly (.attributeOf form) source
        (fun text span => AttributeText.mk text form span) (cursor.readAttribute source form) :=
  ⟨readsExactly_type source cursor, fun form => readsExactly_attribute source form cursor⟩

end Cursor

end CirText
