import CirText.Grammar.Basic
import CirText.Parser.Recovery
import CirText.Proofs.Sublanguage.Echo
import CirText.Proofs.Token.Contents

/-!
# Tokens that go on alike

Where a module is read and where it is read again from its printed text, not quite the same tokens
come next: modifiers stand in another order, and commas have come or gone. But as far as parsing
looks ahead they are alike. It looks at the class of the next token and, for a word that is no
modifier, at its text. And to tell the header of a block from a label it looks whether parentheses
are closed in front of a colon, however far away that is.
-/

namespace CirText

open CirText.Reader CirText.Cursor CirText.Lexer

variable {tokens others : List Token} {token twin : Token}

/-! ## The next token -/

/-- The keywords of modifiers. -/
def modifierWords : List String :=
  (ModifierTable.beforeFunctionName.rules ++ ModifierTable.afterFunctionSignature.rules ++
    ModifierTable.afterCall.rules ++ ModifierTable.afterTryCall.rules ++
    ModifierTable.ofMemoryAccess.rules ++ ModifierTable.beforeGlobalName.rules).map (·.keyword)

/-- What decides how to go on with a token: its class, and the text of a word that is no
modifier. -/
def Token.face (token : Token) : TokenKind × Option String :=
  (token.kind,
    if token.kind = .identifier ∧ token.text ∉ modifierWords then some token.text else none)

/-- What decides how to go on with the next token. -/
def face (tokens : List Token) : TokenKind × Option String :=
  (tokens.headD (.endAt 0)).face

theorem face_of_content (kind : twin.kind = token.kind) (text : twin.text = token.text) :
    twin.face = token.face := by
  rw [Token.face, Token.face, kind, text]

theorem face_of_kind (kind : twin.kind = token.kind) (noWord : token.kind ≠ .identifier) :
    twin.face = token.face := by
  simp only [Token.face, kind, noWord, false_and, if_false]

theorem peek_face (cursor : Cursor) : cursor.peek.face = face cursor.rest := by
  rw [face, Cursor.peek]
  cases cursor.rest <;> rfl

theorem startsWith_face (mark : Punct) (tokens : List Token) :
    startsWith mark tokens = ((face tokens).1 == .punct mark) := by
  cases tokens <;> rfl

/-- Whether a condition asks for no modifier. -/
def Guard.isPlain : Guard → Bool
  | .word text => !modifierWords.contains text
  | _ => true

/-- A condition that asks for no modifier depends on how to go on only. -/
theorem Guard.holds_congr (guard : Guard) (plain : guard.isPlain = true) {cursor other : Cursor}
    (same : face other.rest = face cursor.rest) : guard.holds other = guard.holds cursor := by
  rw [← peek_face, ← peek_face] at same
  have kind : other.peek.kind = cursor.peek.kind := congrArg Prod.fst same
  cases guard with
  | punct mark => simp only [holds, atPunct, Token.isPunct, kind]
  | kind class_ => simp only [holds, atKind, kind]
  | word text =>
    have noModifier : text ∉ modifierWords := by
      simpa [isPlain] using plain
    have isWord : ∀ token : Token,
        token.isWord text = true ↔ token.face = (.identifier, some text) := by
      intro token
      rw [Token.isWord, Token.face, Bool.and_eq_true, beq_iff_eq, beq_iff_eq, Prod.mk.injEq]
      constructor
      · rintro ⟨isWord, rfl⟩
        exact ⟨isWord, if_pos ⟨isWord, noModifier⟩⟩
      · rintro ⟨isWord, written⟩
        split at written
        · exact ⟨isWord, Option.some.inj written⟩
        · cases written
    rw [holds, holds, Cursor.atWord, Cursor.atWord, Bool.eq_iff_iff, isWord, isWord, same]

/-- Whether a modifier comes next depends on how to go on only. -/
theorem atWord_modifier_congr {cursor other : Cursor} (same : face other.rest = face cursor.rest)
    (none : ∀ word ∈ modifierWords, cursor.atWord word = false) :
    ∀ word ∈ modifierWords, other.atWord word = false := by
  have isModifier : ∀ token : Token, (∃ word ∈ modifierWords, token.isWord word = true) ↔
      token.face = (.identifier, Option.none) := by
    intro token
    simp only [Token.isWord, Token.face, Bool.and_eq_true, beq_iff_eq, Prod.mk.injEq]
    constructor
    · rintro ⟨_, member, isWord, rfl⟩
      exact ⟨isWord, if_neg fun clear => clear.2 member⟩
    · rintro ⟨isWord, hidden⟩
      split at hidden
      · cases hidden
      · rename_i masked
        exact ⟨token.text, by_contra fun clear => masked ⟨isWord, clear⟩, isWord, rfl⟩
  rw [← peek_face, ← peek_face] at same
  intro word member
  by_contra isWord
  have masked := (isModifier other.peek).1 ⟨word, member, Bool.eq_true_of_not_eq_false isWord⟩
  rw [same] at masked
  obtain ⟨earlier, known, present⟩ := (isModifier cursor.peek).2 masked
  rw [show cursor.peek.isWord earlier = false from none earlier known] at present
  cases present

/-! ## Closing parentheses -/

/-- Whether tokens close parentheses in front of a colon alike, and start with a colon alike. -/
structure Scans (tokens others : List Token) : Prop where
  colon : startsWith .colon others = startsWith .colon tokens
  closes : ∀ depth, closesBeforeColon (depth + 1) others = closesBeforeColon (depth + 1) tokens

theorem head?_any_colon (tokens : List Token) :
    tokens.head?.any (·.isPunct .colon) = startsWith .colon tokens := by
  cases tokens <;> rfl

/-- A token that is no parenthesis and no brace does not matter. -/
theorem closesBeforeColon_cons {depth : Nat} (noOpening : token.isPunct .leftParen = false)
    (noClosing : token.isPunct .rightParen = false) (noLeft : token.isPunct .leftBrace = false)
    (noRight : token.isPunct .rightBrace = false) :
    closesBeforeColon depth (token :: tokens) = closesBeforeColon depth tokens := by
  rw [closesBeforeColon, noOpening, noClosing, noLeft, noRight]
  rfl

theorem closesBeforeColon_opening {depth : Nat} (isOpening : token.isPunct .leftParen = true) :
    closesBeforeColon depth (token :: tokens) = closesBeforeColon (depth + 1) tokens := by
  rw [closesBeforeColon, if_pos isOpening]

/-- A parenthesis that is closed inside another one. -/
theorem closesBeforeColon_closing {depth : Nat} (isClosing : token.isPunct .rightParen = true) :
    closesBeforeColon (depth + 2) (token :: tokens) = closesBeforeColon (depth + 1) tokens := by
  have kind : token.kind = .punct .rightParen := beq_iff_eq.1 isClosing
  have inside : ¬depth + 2 ≤ 1 := by omega
  simp only [closesBeforeColon, Token.isPunct, kind]
  rw [if_neg (by decide), if_pos (by decide), if_neg inside]
  rfl

theorem closesBeforeColon_brace {depth : Nat}
    (isBrace : (token.isPunct .leftBrace || token.isPunct .rightBrace) = true) :
    closesBeforeColon depth (token :: tokens) = false := by
  have noParen : token.isPunct .leftParen = false ∧ token.isPunct .rightParen = false := by
    rcases Bool.or_eq_true_iff.1 isBrace with left | right
    · simp [Token.isPunct, beq_iff_eq.1 left]
    · simp [Token.isPunct, beq_iff_eq.1 right]
  rw [closesBeforeColon, noParen.1, noParen.2, isBrace]
  rfl

namespace Scans

theorem refl (tokens : List Token) : Scans tokens tokens :=
  ⟨rfl, fun _ => rfl⟩

theorem symm (scans : Scans tokens others) : Scans others tokens :=
  ⟨scans.colon.symm, fun depth => (scans.closes depth).symm⟩

theorem trans {last : List Token} (left : Scans tokens others) (right : Scans others last) :
    Scans tokens last :=
  ⟨right.colon.trans left.colon, fun depth => (right.closes depth).trans (left.closes depth)⟩

theorem cons (kind : twin.kind = token.kind) (scans : Scans tokens others) :
    Scans (token :: tokens) (twin :: others) where
  colon := by simp only [startsWith, Token.isPunct, kind]
  closes depth := by
    have isPunct : ∀ mark, twin.isPunct mark = token.isPunct mark := by
      intro mark
      rw [Token.isPunct, Token.isPunct, kind]
    have closing : (if depth + 1 ≤ 1 then others.head?.any (·.isPunct .colon)
        else closesBeforeColon (depth + 1 - 1) others) =
          if depth + 1 ≤ 1 then tokens.head?.any (·.isPunct .colon)
          else closesBeforeColon (depth + 1 - 1) tokens := by
      cases depth with
      | zero => rw [if_pos (Nat.le_refl 1), if_pos (Nat.le_refl 1), head?_any_colon,
          head?_any_colon, scans.colon]
      | succ depth => rw [Nat.add_sub_cancel, scans.closes, if_neg (by omega), if_neg (by omega)]
    rw [closesBeforeColon, closesBeforeColon, isPunct, isPunct, isPunct, isPunct, closing,
      scans.closes (depth + 1), scans.closes depth]

/-- A comma that is there in the first only. -/
theorem comma_left {comma : Token} (isComma : comma.isPunct .comma = true)
    (scans : Scans tokens others) (noColon : startsWith .colon tokens = false) :
    Scans (comma :: tokens) others := by
  have kind : comma.kind = .punct .comma := beq_iff_eq.1 isComma
  constructor
  · rw [scans.colon, noColon, startsWith, Token.isPunct, kind]
    rfl
  · intro depth
    rw [scans.closes, closesBeforeColon_cons] <;> simp [Token.isPunct, kind]

/-- A comma that is there in the second only. -/
theorem comma_right {comma : Token} (isComma : comma.isPunct .comma = true)
    (scans : Scans tokens others) (noColon : startsWith .colon tokens = false) :
    Scans tokens (comma :: others) := by
  have kind : comma.kind = .punct .comma := beq_iff_eq.1 isComma
  constructor
  · rw [noColon, startsWith, Token.isPunct, kind]
    rfl
  · intro depth
    rw [← scans.closes, closesBeforeColon_cons] <;> simp [Token.isPunct, kind]

end Scans

/-! ## Tokens that go on alike -/

/-- Whether parsing looks ahead into tokens alike. -/
structure Kindred (tokens others : List Token) : Prop where
  /-- The next token decides alike. -/
  face : face others = face tokens
  /-- Parentheses are closed in front of a colon alike. -/
  closes : ∀ depth, closesBeforeColon (depth + 1) others = closesBeforeColon (depth + 1) tokens

namespace Kindred

theorem startsWith_eq (kindred : Kindred tokens others) (mark : Punct) :
    startsWith mark others = startsWith mark tokens := by
  rw [startsWith_face, startsWith_face, kindred.face]

theorem sameMark (kindred : Kindred tokens others) : SameMark tokens others :=
  ⟨kindred.startsWith_eq .less, kindred.startsWith_eq .colon⟩

theorem scans (kindred : Kindred tokens others) : Scans tokens others :=
  ⟨kindred.startsWith_eq .colon, kindred.closes⟩

/-- Tokens after the first need to be scanned alike only. -/
theorem of_scans (face : twin.face = token.face) (scans : Scans tokens others) :
    Kindred (token :: tokens) (twin :: others) where
  face := face
  closes := (scans.cons (congrArg Prod.fst face)).closes

theorem cons (face : twin.face = token.face) (kindred : Kindred tokens others) :
    Kindred (token :: tokens) (twin :: others) :=
  of_scans face kindred.scans

theorem nil : Kindred [] [] :=
  ⟨rfl, fun _ => rfl⟩

/-- What comes after a brace does not matter. -/
theorem brace {mark : Punct} (isBrace : mark = .leftBrace ∨ mark = .rightBrace)
    (here : startsWith mark tokens = true) (there : startsWith mark others = true) :
    Kindred tokens others := by
  match tokens, others, here, there with
  | token :: tokens, other :: others, here, there =>
    have kind : token.kind = .punct mark := beq_iff_eq.1 here
    have otherKind : other.kind = .punct mark := beq_iff_eq.1 there
    have noWord : token.kind ≠ .identifier := by simp [kind]
    refine ⟨face_of_kind (otherKind.trans kind.symm) noWord, fun depth => ?_⟩
    rw [closesBeforeColon_brace, closesBeforeColon_brace] <;>
      rcases isBrace with rfl | rfl <;> simp [Token.isPunct, kind, otherKind]

end Kindred

/-! ## Tokens that are alike -/

/-- Whether tokens decide one by one how to go on in the same way. -/
def Alike (tokens copy : List Token) : Prop :=
  List.Forall₂ (fun token twin => twin.face = token.face) tokens copy

theorem Alike.refl (tokens : List Token) : Alike tokens tokens :=
  List.forall₂_same.2 fun _ _ => rfl

theorem Alike.kindred {taken copy : List Token} (alike : Alike taken copy)
    (kindred : Kindred tokens others) : Kindred (taken ++ tokens) (copy ++ others) := by
  induction alike with
  | nil => exact kindred
  | cons face _ ih => exact ih.cons face

theorem Alike.scans {taken copy : List Token} (alike : Alike taken copy)
    (scans : Scans tokens others) : Scans (taken ++ tokens) (copy ++ others) := by
  induction alike with
  | nil => exact scans
  | cons face _ ih => exact ih.cons (congrArg Prod.fst face)

/-- What comes behind tokens that are alike needs to be scanned alike only. -/
theorem Alike.kindred_of_scans {taken copy : List Token} (alike : Alike taken copy)
    (several : taken ≠ []) (scans : Scans tokens others) :
    Kindred (taken ++ tokens) (copy ++ others) := by
  cases alike with
  | nil => exact absurd rfl several
  | cons face rest => exact .of_scans face (Alike.scans rest scans)

theorem Alike.append {taken copy more later : List Token} (left : Alike taken copy)
    (right : Alike more later) : Alike (taken ++ more) (copy ++ later) :=
  List.rel_append left right

theorem alike_of_contents {taken copy : List Token}
    (contents : contentsOf copy = contentsOf taken) :
    Alike taken copy := by
  induction taken generalizing copy with
  | nil =>
    rw [List.map_eq_nil_iff.1 contents]
    exact .nil
  | cons token taken ih =>
    cases copy with
    | nil => cases contents
    | cons twin copy =>
      obtain ⟨same, later⟩ := List.cons.inj contents
      obtain ⟨kind, text⟩ := Prod.mk.inj (Option.some.inj same)
      exact .cons (face_of_content kind text) (ih later)

/-- Tokens with the same contents are the same up to what comes after them. -/
theorem echo_of_contents {taken copy : List Token} (contents : contentsOf copy = contentsOf taken)
    (behind beyond : List Token) : Echo behind beyond (taken ++ behind) (copy ++ beyond) := by
  induction taken generalizing copy with
  | nil =>
    rw [List.map_eq_nil_iff.1 contents]
    exact .here
  | cons token taken ih =>
    cases copy with
    | nil => cases contents
    | cons twin copy =>
      obtain ⟨same, later⟩ := List.cons.inj contents
      obtain ⟨kind, text⟩ := Prod.mk.inj (Option.some.inj same)
      exact .cons kind text (ih later)

end CirText
