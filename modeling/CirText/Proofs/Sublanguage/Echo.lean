import CirText.Proofs.Sublanguage.Rest

/-!
# Reading the same tokens elsewhere

What a reader of a sublanguage takes is decided by the tokens that it takes, and by whether an angle
bracket or a colon comes after them. So it takes the same tokens wherever they stand, if there is
the same answer to that.
-/

namespace CirText.Reader

/-- Whether tokens and a copy of them are the same up to what comes behind the tokens and beyond the
copy. -/
inductive Echo (behind beyond : List Token) : List Token → List Token → Prop where
  /-- What comes behind and beyond. -/
  | here : Echo behind beyond behind beyond
  /-- The same token in both. -/
  | cons {token twin : Token} {tokens copy : List Token} (kind : twin.kind = token.kind)
      (text : twin.text = token.text) (later : Echo behind beyond tokens copy) :
      Echo behind beyond (token :: tokens) (twin :: copy)

/-- Whether tokens agree on starting with an angle bracket or with a colon. -/
structure SameMark (behind beyond : List Token) : Prop where
  less : startsWith .less beyond = startsWith .less behind
  colon : startsWith .colon beyond = startsWith .colon behind

variable {behind beyond tokens copy : List Token} {token twin : Token}

namespace Echo

/-- A token with all that comes behind still after it has a twin. -/
theorem of_cons (echo : Echo behind beyond (token :: tokens) copy) (within : behind <:+ tokens) :
    ∃ twin later, copy = twin :: later ∧ twin.kind = token.kind ∧ twin.text = token.text ∧
      Echo behind beyond tokens later := by
  cases echo with
  | here =>
    have longer := within.length_le
    rw [List.length_cons] at longer
    omega
  | cons kind text later => exact ⟨_, _, rfl, kind, text, later⟩

/-- Up to what comes behind, there are the same marks. -/
theorem startsWith_eq (echo : Echo behind beyond tokens copy) (more : behind.length < tokens.length)
    (mark : Punct) : startsWith mark copy = startsWith mark tokens := by
  cases echo with
  | here => exact absurd more (Nat.lt_irrefl _)
  | cons kind text later => rw [startsWith, startsWith, Token.isPunct, Token.isPunct, kind]

theorem sameMark (echo : Echo behind beyond tokens copy) (same : SameMark behind beyond) :
    SameMark tokens copy := by
  cases echo with
  | here => exact same
  | cons kind text later =>
    constructor <;> rw [startsWith, startsWith, Token.isPunct, Token.isPunct, kind]

theorem suffix (echo : Echo behind beyond tokens copy) : behind <:+ tokens := by
  induction echo with
  | here => exact List.suffix_refl _
  | @cons token twin tokens copy _ _ _ ih => exact ih.trans (List.suffix_cons token tokens)

/-- What is left of the copy when nothing is left but what comes behind. -/
theorem eq_beyond (echo : Echo behind beyond behind copy) : copy = beyond := by
  cases echo with
  | here => rfl
  | cons _ _ later =>
    have longer := later.suffix.length_le
    rw [List.length_cons] at longer
    omega

/-- What comes after a mark that is there in both. -/
theorem tail {mark : Punct} (echo : Echo behind beyond tokens copy)
    (starts : startsWith mark tokens = true) (within : behind <:+ tokens.tail) :
    Echo behind beyond tokens.tail copy.tail := by
  cases tokens with
  | nil => cases starts
  | cons token tokens =>
    obtain ⟨twin, later, rfl, _, _, echo⟩ := echo.of_cons within
    exact echo

end Echo

/-! ## Groups -/

/-- What is an end of tokens and is left when at least one of them has been taken is an end of those
after the first. -/
theorem suffix_of_shorter {left : List Token} (shorter : left.length < (token :: tokens).length)
    (within : left <:+ token :: tokens) : left <:+ tokens := by
  rcases List.suffix_cons_iff.1 within with rfl | inside
  · exact absurd shorter (Nat.lt_irrefl _)
  · exact inside

theorem closesGroup_eq (kind : twin.kind = token.kind) : closesGroup twin = closesGroup token := by
  simp only [closesGroup, Token.isPunct, kind]

theorem opensGroup_eq (kind : twin.kind = token.kind) : opensGroup twin = opensGroup token := by
  simp only [opensGroup, Token.isPunct, kind]

theorem echo_skipGroup {depth : Nat} (echo : Echo behind beyond tokens copy)
    {left : { rest : List Token // rest.length < tokens.length }}
    (given : skipGroup depth tokens = some left) (within : behind <:+ left.1) :
    ∃ more, skipGroup depth copy = some more ∧ Echo behind beyond left.1 more.1 := by
  induction tokens generalizing depth copy with
  | nil => cases given
  | cons token tokens ih =>
    rw [skipGroup] at given
    split at given
    · rename_i closes
      cases given
      obtain ⟨twin, later, rfl, kind, _, echo⟩ := echo.of_cons within
      rw [skipGroup, closesGroup_eq kind, if_pos closes]
      exact ⟨_, rfl, echo⟩
    · rename_i inside
      dsimp only at given
      split at given
      · rename_i after found
        cases given
        obtain ⟨twin, later, rfl, kind, _, echo⟩ :=
          echo.of_cons (within.trans (suffix_skipGroup _ _ after found))
        obtain ⟨more, goesOn, echo⟩ := ih echo found within
        rw [skipGroup, closesGroup_eq kind, if_neg inside, opensGroup_eq kind]
        simp only [goesOn]
        exact ⟨_, rfl, echo⟩
      · cases given

/-- Whether a reader takes from a copy of tokens what it takes from them. -/
def Echoes (behind beyond : List Token) {fewer : List Token → List Token → Prop}
    (read : (tokens : List Token) → Except Mismatch { rest : List Token // fewer tokens rest })
    (tokens : List Token) : Prop :=
  ∀ left, read tokens = .ok left → behind <:+ left.1 → ∀ copy, Echo behind beyond tokens copy →
    ∃ more, read copy = .ok more ∧ Echo behind beyond left.1 more.1

theorem echoes_optionalGroup (same : SameMark behind beyond) (message : String)
    (tokens : List Token) : Echoes behind beyond (optionalGroup message) tokens := by
  intro left given within copy echo
  unfold optionalGroup at given ⊢
  rw [(echo.sameMark same).less]
  split at given
  · rename_i starts
    rw [if_pos starts]
    split at given
    · rename_i rest found
      cases given
      obtain ⟨more, goesOn, echo⟩ := echo_skipGroup echo found within
      rw [goesOn]
      exact ⟨_, rfl, echo⟩
    · cases given
  · rename_i absent
    cases given
    rw [if_neg absent]
    exact ⟨_, rfl, echo⟩

theorem echoes_requiredGroup (mark : Punct) (message : String) (tokens : List Token) :
    Echoes behind beyond (requiredGroup mark message) tokens := by
  intro left given within copy echo
  have marks := echo.startsWith_eq (Nat.lt_of_le_of_lt within.length_le left.2) mark
  unfold requiredGroup at given ⊢
  rw [marks]
  split at given
  · rename_i starts
    rw [if_pos starts]
    split at given
    · rename_i rest found
      cases given
      obtain ⟨more, goesOn, echo⟩ := echo_skipGroup echo found within
      rw [goesOn]
      exact ⟨_, rfl, echo⟩
    · cases given
  · cases given

/-! ## Types -/

mutual

theorem echoes_type (same : SameMark behind beyond) (tokens : List Token) :
    Echoes behind beyond type tokens := by
  cases tokens with
  | nil =>
    intro left
    exact absurd left.2 (Nat.not_lt_zero _)
  | cons token rest =>
    intro left given within copy echo
    unfold type at given
    dsimp only at given
    split at given
    · rename_i isName
      split at given
      · rename_i after found
        cases given
        have shorter := suffix_of_ok (leaves_optionalGroup openType rest) found
        obtain ⟨twin, later, rfl, kind, text, echo⟩ := echo.of_cons (within.trans shorter)
        obtain ⟨more, goesOn, echo⟩ := echoes_optionalGroup same _ _ _ found within _ echo
        unfold type
        simp only [kind, isName, goesOn]
        exact ⟨_, rfl, echo⟩
      · cases given
    · rename_i isWord
      split at given
      · rename_i scalar
        cases given
        obtain ⟨twin, later, rfl, kind, text, echo⟩ := echo.of_cons within
        unfold type
        simp only [kind, isWord, text, scalar, if_true]
        exact ⟨_, rfl, echo⟩
      · rename_i notScalar
        split at given
        · rename_i shaped
          split at given
          · rename_i opens
            split at given
            · rename_i after found
              cases given
              have shorter := suffix_of_ok (leaves_optionalGroup openType rest) found
              obtain ⟨twin, later, rfl, kind, text, echo⟩ := echo.of_cons (within.trans shorter)
              obtain ⟨more, goesOn, further⟩ := echoes_optionalGroup same _ _ _ found within _ echo
              unfold type
              simp only [kind, isWord, text, notScalar, shaped, if_true,
                (echo.sameMark same).less, opens, goesOn]
              exact ⟨_, rfl, further⟩
            · cases given
          · cases given
        · cases given
    · rename_i isOpening
      split at given
      · cases given
      · cases given
      · rename_i arrow results shorter inputs
        have fewer : results.length < rest.length := Nat.lt_of_succ_lt shorter
        have leaves := suffix_of_ok (leaves_typeList rest) inputs
        split at given
        · rename_i isArrow
          -- With or without parentheses, the results are behind an arrow that has a twin.
          have arrowed (toResults : behind <:+ results) : ∃ twin other more shorter,
              copy = twin :: other ∧ twin.kind = token.kind ∧
                typeList other = .ok ⟨more, shorter⟩ ∧
                  Echo behind beyond (arrow :: results) more := by
            have toArrow := toResults.trans (List.suffix_cons arrow results)
            have inner := echoes_typeList same _ _ inputs toArrow
            obtain ⟨twin, later, rfl, kind, _, echo⟩ := echo.of_cons (toArrow.trans leaves)
            obtain ⟨⟨more, shorter⟩, goesOn, echo⟩ := inner later echo
            exact ⟨twin, later, more, shorter, rfl, kind, goesOn, echo⟩
          split at given
          · rename_i several
            split at given
            · rename_i after outputs
              cases given
              have leaves := suffix_of_ok (leaves_typeList results.tail) outputs
              have inside := within.trans leaves
              have toResults := inside.trans (List.tail_suffix results)
              have inner := echoes_typeList same _ _ outputs within
              obtain ⟨twin, later, more, _, rfl, kind, goesOn, echo⟩ := arrowed toResults
              obtain ⟨other, more, rfl, arrowKind, _, echo⟩ := echo.of_cons toResults
              have more : behind.length < results.length := by
                have shorter := Nat.lt_of_le_of_lt within.length_le after.2
                rw [List.length_tail] at shorter
                omega
              have opens := (echo.startsWith_eq more .leftParen).trans several
              obtain ⟨last, ends, echo⟩ := inner _ (echo.tail several inside)
              unfold type
              simp only [kind, isOpening, goesOn, Token.isPunct, arrowKind] at isArrow ⊢
              rw [if_pos isArrow, if_pos opens]
              simp only [ends]
              exact ⟨_, rfl, echo⟩
            · cases given
          · rename_i single
            split at given
            · rename_i after output
              cases given
              have leaves := suffix_of_ok (leaves_type results) output
              have toResults := within.trans leaves
              have inner := echoes_type same _ _ output within
              obtain ⟨twin, later, more, _, rfl, kind, goesOn, echo⟩ := arrowed toResults
              obtain ⟨other, more, rfl, arrowKind, _, echo⟩ := echo.of_cons toResults
              have more := Nat.lt_of_le_of_lt within.length_le after.2
              have opens := echo.startsWith_eq more .leftParen
              obtain ⟨last, ends, echo⟩ := inner _ echo
              unfold type
              simp only [kind, isOpening, goesOn, Token.isPunct, arrowKind] at isArrow ⊢
              rw [if_pos isArrow, if_neg (opens ▸ single)]
              simp only [ends]
              exact ⟨_, rfl, echo⟩
            · cases given
        · cases given
    · cases given
termination_by (tokens.length, 0)
decreasing_by
  all_goals
    simp only [List.length_tail, List.length_cons, Prod.lex_def]
    omega

theorem echoes_typeList (same : SameMark behind beyond) (tokens : List Token) :
    Echoes behind beyond typeList tokens := by
  cases tokens with
  | nil =>
    intro left
    exact absurd left.2 (Nat.not_lt_zero _)
  | cons token rest =>
    intro left given within copy echo
    unfold typeList at given
    split at given
    · rename_i closes
      cases given
      obtain ⟨twin, later, rfl, kind, _, echo⟩ := echo.of_cons within
      unfold typeList
      simp only [Token.isPunct, kind] at closes ⊢
      rw [if_pos closes]
      exact ⟨_, rfl, echo⟩
    · rename_i more
      have inner := echoes_types same (token :: rest) _ given within copy echo
      have leaves := suffix_of_ok (leaves_types (token :: rest)) given
      obtain ⟨twin, later, rfl, kind, text, _⟩ :=
        echo.of_cons (within.trans (suffix_of_shorter left.2 leaves))
      unfold typeList
      simp only [Token.isPunct, kind] at more ⊢
      rw [if_neg more]
      exact inner
termination_by (tokens.length, 2)

theorem echoes_types (same : SameMark behind beyond) (tokens : List Token) :
    Echoes behind beyond types tokens := by
  intro left given within copy echo
  unfold types at given
  split at given
  · cases given
  · cases given
  · rename_i token rest shorter first
    have fewer : rest.length < tokens.length := Nat.lt_of_succ_lt shorter
    split at given
    · rename_i isComma
      split at given
      · rename_i after others
        cases given
        have leaves := suffix_of_ok (leaves_types rest) others
        have toRest := within.trans leaves
        have inner := echoes_types same _ _ others within
        obtain ⟨⟨_, _⟩, goesOn, echo⟩ :=
          echoes_type same _ _ first (toRest.trans (List.suffix_cons token rest)) copy echo
        obtain ⟨twin, later, rfl, kind, _, echo⟩ := echo.of_cons toRest
        obtain ⟨last, ends, echo⟩ := inner later echo
        unfold types
        simp only [goesOn, Token.isPunct, kind] at isComma ⊢
        rw [if_pos isComma]
        simp only [ends]
        exact ⟨_, rfl, echo⟩
      · cases given
    · rename_i noComma
      split at given
      · rename_i closes
        cases given
        obtain ⟨⟨_, _⟩, goesOn, echo⟩ :=
          echoes_type same _ _ first (within.trans (List.suffix_cons token rest)) copy echo
        obtain ⟨twin, later, rfl, kind, _, echo⟩ := echo.of_cons within
        unfold types
        simp only [goesOn, Token.isPunct, kind] at noComma closes ⊢
        rw [if_neg noComma, if_pos closes]
        exact ⟨_, rfl, echo⟩
      · cases given
termination_by (tokens.length, 1)

end

/-! ## Attributes -/

/-- Without a colon there is no type. -/
theorem typeSuffix_of_not (absent : startsWith .colon tokens = false) :
    typeSuffix tokens = .ok ⟨tokens, Nat.le_refl _⟩ := by
  cases tokens with
  | nil => rfl
  | cons token rest =>
    have noColon : ¬token.isPunct .colon = true := Bool.eq_false_iff.1 absent
    unfold typeSuffix
    dsimp only
    rw [if_neg noColon]

/-- Without an equals sign there is no value. -/
theorem entryValue_of_not (absent : startsWith .equal tokens = false) :
    entryValue tokens = .ok ⟨tokens, Nat.le_refl _⟩ := by
  unfold entryValue
  cases tokens with
  | nil => rfl
  | cons token rest =>
    have noEqual : ¬token.isPunct .equal = true := Bool.eq_false_iff.1 absent
    dsimp only
    rw [if_neg noEqual]

theorem echoes_typeSuffix (same : SameMark behind beyond) (tokens : List Token) :
    Echoes behind beyond typeSuffix tokens := by
  intro left given within copy echo
  have marks := (echo.sameMark same).colon
  cases starts : startsWith .colon tokens with
  | false =>
    rw [typeSuffix_of_not starts] at given
    cases given
    rw [typeSuffix_of_not (marks.trans starts)]
    exact ⟨_, rfl, echo⟩
  | true =>
    cases tokens with
    | nil => cases starts
    | cons colon rest =>
      have isColon : colon.isPunct .colon = true := starts
      unfold typeSuffix at given
      dsimp only at given
      rw [if_pos isColon] at given
      split at given
      · rename_i after found
        cases given
        have leaves := suffix_of_ok (leaves_type rest) found
        obtain ⟨twin, later, rfl, kind, _, echo⟩ := echo.of_cons (within.trans leaves)
        obtain ⟨more, goesOn, echo⟩ := echoes_type same _ _ found within _ echo
        have isTwin : twin.isPunct .colon = true := marks.trans starts
        unfold typeSuffix
        dsimp only
        rw [if_pos isTwin]
        simp only [goesOn]
        exact ⟨_, rfl, echo⟩
      · cases given

theorem echoes_groupAndSuffix (same : SameMark behind beyond) (tokens : List Token) :
    Echoes behind beyond groupAndSuffix tokens := by
  intro left given within copy echo
  unfold groupAndSuffix at given ⊢
  split at given
  · cases given
  · rename_i middle shorter group
    split at given
    · rename_i after found
      cases given
      have leaves := suffix_of_ok (leaves_typeSuffix middle) found
      obtain ⟨⟨_, _⟩, goesOn, echo⟩ :=
        echoes_optionalGroup same _ _ _ group (within.trans leaves) _ echo
      obtain ⟨more, ends, echo⟩ := echoes_typeSuffix same _ _ found within _ echo
      simp only [goesOn, ends]
      exact ⟨_, rfl, echo⟩
    · cases given

theorem echoes_typeValue (same : SameMark behind beyond) (tokens : List Token) :
    Echoes behind beyond typeValue tokens := by
  intro left given within copy echo
  unfold typeValue at given ⊢
  split at given
  · rename_i after found
    cases given
    obtain ⟨more, goesOn, echo⟩ := echoes_type same _ _ found within _ echo
    simp only [goesOn]
    exact ⟨_, rfl, echo⟩
  · cases given

/-- A token that may be the name of an entry may be it elsewhere. -/
theorem isEntryName_eq (kind : twin.kind = token.kind) : isEntryName twin = isEntryName token := by
  simp only [isEntryName, kind]

mutual

theorem echoes_value (same : SameMark behind beyond) (tokens : List Token) :
    Echoes behind beyond value tokens := by
  cases tokens with
  | nil =>
    intro left
    exact absurd left.2 (Nat.not_lt_zero _)
  | cons token rest =>
    intro left given within copy echo
    have typed := echoes_typeValue same (token :: rest) left
    unfold value at given
    dsimp only at given
    split at given
    · rename_i isName
      split at given
      · rename_i after found
        cases given
        have leaves := suffix_of_ok (leaves_groupAndSuffix rest) found
        obtain ⟨twin, later, rfl, kind, _, echo⟩ := echo.of_cons (within.trans leaves)
        obtain ⟨more, goesOn, echo⟩ := echoes_groupAndSuffix same _ _ found within _ echo
        unfold value
        simp only [kind, isName, goesOn]
        exact ⟨_, rfl, echo⟩
      · cases given
    iterate 3
      · rename_i isLiteral
        split at given
        · rename_i after found
          cases given
          have leaves := suffix_of_ok (leaves_typeSuffix rest) found
          obtain ⟨twin, later, rfl, kind, _, echo⟩ := echo.of_cons (within.trans leaves)
          obtain ⟨more, goesOn, echo⟩ := echoes_typeSuffix same _ _ found within _ echo
          unfold value
          simp only [kind, isLiteral, goesOn]
          exact ⟨_, rfl, echo⟩
        · cases given
    · rename_i isSymbol
      cases given
      obtain ⟨twin, later, rfl, kind, _, echo⟩ := echo.of_cons within
      unfold value
      simp only [kind, isSymbol]
      exact ⟨_, rfl, echo⟩
    · rename_i isWord
      split at given
      · rename_i isValue
        cases given
        obtain ⟨twin, later, rfl, kind, text, echo⟩ := echo.of_cons within
        unfold value
        simp only [kind, isWord, text, isValue, if_true]
        exact ⟨_, rfl, echo⟩
      · rename_i noValue
        split at given
        · rename_i isElements
          split at given
          · cases given
          · rename_i middle shorter group
            split at given
            · rename_i after found
              cases given
              have leaves := suffix_of_ok (leaves_typeSuffix middle) found
              have inside := suffix_of_ok (leaves_requiredGroup .less _ rest) group
              obtain ⟨twin, later, rfl, kind, text, echo⟩ :=
                echo.of_cons ((within.trans leaves).trans inside)
              obtain ⟨⟨_, _⟩, goesOn, echo⟩ :=
                echoes_requiredGroup _ _ _ _ group (within.trans leaves) _ echo
              obtain ⟨more, ends, echo⟩ := echoes_typeSuffix same _ _ found within _ echo
              unfold value
              simp only [kind, isWord, text, noValue, isElements, if_true, goesOn, ends]
              exact ⟨_, rfl, echo⟩
            · cases given
        · rename_i noElements
          split at given
          · rename_i isLocation
            split at given
            · rename_i after found
              cases given
              have leaves := suffix_of_ok (leaves_requiredGroup .leftParen _ rest) found
              obtain ⟨twin, later, rfl, kind, text, echo⟩ := echo.of_cons (within.trans leaves)
              obtain ⟨more, goesOn, echo⟩ := echoes_requiredGroup _ _ _ _ found within _ echo
              unfold value
              simp only [kind, isWord, text, noValue, noElements, isLocation, if_true, goesOn]
              exact ⟨_, rfl, echo⟩
            · cases given
          · rename_i noLocation
            obtain ⟨more, goesOn, ends⟩ := typed given within copy echo
            have leaves := suffix_of_ok (leaves_typeValue (token :: rest)) given
            obtain ⟨twin, later, rfl, kind, text, _⟩ :=
              echo.of_cons (within.trans (suffix_of_shorter left.2 leaves))
            unfold value
            simp only [kind, isWord, text, noValue, noElements, noLocation]
            exact ⟨more, goesOn, ends⟩
    · rename_i isOpening
      split at given
      · rename_i after found
        cases given
        have leaves := suffix_of_ok (leaves_items rest) found
        have inner := echoes_items same _ _ found within
        obtain ⟨twin, later, rfl, kind, _, echo⟩ := echo.of_cons (within.trans leaves)
        obtain ⟨more, goesOn, echo⟩ := inner _ echo
        unfold value
        simp only [kind, isOpening, goesOn]
        exact ⟨_, rfl, echo⟩
      · cases given
    · rename_i isOpening
      split at given
      · rename_i after found
        cases given
        have leaves := suffix_of_ok (leaves_entries rest) found
        have inner := echoes_entries same _ _ found within
        obtain ⟨twin, later, rfl, kind, _, echo⟩ := echo.of_cons (within.trans leaves)
        obtain ⟨more, goesOn, echo⟩ := inner _ echo
        unfold value
        simp only [kind, isOpening, goesOn]
        exact ⟨_, rfl, echo⟩
      · cases given
    · rename_i noName noInteger noFloat noString noSymbol noWord noBracket noBrace
      obtain ⟨more, goesOn, ends⟩ := typed given within copy echo
      have leaves := suffix_of_ok (leaves_typeValue (token :: rest)) given
      obtain ⟨twin, later, rfl, kind, text, _⟩ :=
        echo.of_cons (within.trans (suffix_of_shorter left.2 leaves))
      unfold value
      simp only [kind]
      exact ⟨more, goesOn, ends⟩
termination_by (tokens.length, 0)

theorem echoes_items (same : SameMark behind beyond) (tokens : List Token) :
    Echoes behind beyond items tokens := by
  intro left given within copy echo
  have marks := echo.startsWith_eq (Nat.lt_of_le_of_lt within.length_le left.2) .rightBracket
  unfold items at given
  split at given
  · rename_i closes
    cases tokens with
    | nil => cases closes
    | cons closing rest =>
      cases given
      obtain ⟨twin, later, rfl, _, _, echo⟩ := echo.of_cons within
      unfold items
      rw [if_pos (marks.trans closes)]
      exact ⟨_, rfl, echo⟩
  · rename_i inside
    rw [← marks] at inside
    split at given
    · cases given
    · cases given
    · rename_i token rest shorter first
      have fewer : rest.length < tokens.length := Nat.lt_of_succ_lt shorter
      split at given
      · rename_i isComma
        split at given
        · rename_i after others
          cases given
          have leaves := suffix_of_ok (leaves_items rest) others
          have toRest := within.trans leaves
          have inner := echoes_items same _ _ others within
          obtain ⟨⟨_, _⟩, goesOn, echo⟩ :=
            echoes_value same _ _ first (toRest.trans (List.suffix_cons token rest)) copy echo
          obtain ⟨twin, later, rfl, kind, _, echo⟩ := echo.of_cons toRest
          obtain ⟨last, ends, echo⟩ := inner later echo
          unfold items
          rw [if_neg inside]
          simp only [goesOn, Token.isPunct, kind] at isComma ⊢
          rw [if_pos isComma]
          simp only [ends]
          exact ⟨_, rfl, echo⟩
        · cases given
      · rename_i noComma
        split at given
        · rename_i closes
          cases given
          obtain ⟨⟨_, _⟩, goesOn, echo⟩ :=
            echoes_value same _ _ first (within.trans (List.suffix_cons token rest)) copy echo
          obtain ⟨twin, later, rfl, kind, _, echo⟩ := echo.of_cons within
          unfold items
          rw [if_neg inside]
          simp only [goesOn, Token.isPunct, kind] at noComma closes ⊢
          rw [if_neg noComma, if_pos closes]
          exact ⟨_, rfl, echo⟩
        · cases given
termination_by (tokens.length, 1)

theorem echoes_entries (same : SameMark behind beyond) (tokens : List Token) :
    Echoes behind beyond entries tokens := by
  cases tokens with
  | nil =>
    intro left
    exact absurd left.2 (Nat.not_lt_zero _)
  | cons name rest =>
    intro left given within copy echo
    unfold entries at given
    dsimp only at given
    split at given
    · rename_i closes
      cases given
      obtain ⟨twin, later, rfl, kind, _, echo⟩ := echo.of_cons within
      unfold entries
      simp only [Token.isPunct, kind] at closes ⊢
      rw [if_pos closes]
      exact ⟨_, rfl, echo⟩
    · rename_i inside
      split at given
      · cases given
      · rename_i isName
        split at given
        · cases given
        · cases given
        · rename_i token after shorter value
          have fewer : after.length < rest.length := shorter
          have leaves := suffix_of_ok (leaves_entryValue rest) value
          -- What comes after the name and its value has a twin, if it comes before all the rest.
          have named (toAfter : behind <:+ after) : ∃ twin other more shorter,
              copy = twin :: other ∧ twin.kind = name.kind ∧
                entryValue other = .ok ⟨more, shorter⟩ ∧
                Echo behind beyond (token :: after) more := by
            have toToken := toAfter.trans (List.suffix_cons token after)
            have more : behind.length < (token :: after).length :=
              Nat.lt_succ_of_le toAfter.length_le
            have inner := echo_entryValue same _ _ value toToken more
            obtain ⟨twin, later, rfl, kind, _, echo⟩ := echo.of_cons (toToken.trans leaves)
            obtain ⟨⟨more, shorter⟩, goesOn, echo⟩ := inner later echo
            exact ⟨twin, later, more, shorter, rfl, kind, goesOn, echo⟩
          split at given
          · rename_i isComma
            split at given
            · rename_i final others
              cases given
              have left := suffix_of_ok (leaves_entries after) others
              have inner := echoes_entries same _ _ others within
              obtain ⟨twin, later, more, _, rfl, kind, goesOn, echo⟩ := named (within.trans left)
              obtain ⟨other, more, rfl, markKind, _, echo⟩ := echo.of_cons (within.trans left)
              obtain ⟨last, ends, echo⟩ := inner _ echo
              unfold entries
              simp only [Token.isPunct, kind, isEntryName_eq kind, markKind, goesOn]
                at inside isName isComma ⊢
              rw [if_neg inside, if_neg isName, if_pos isComma]
              simp only [ends]
              exact ⟨_, rfl, echo⟩
            · cases given
          · rename_i noComma
            split at given
            · rename_i closes
              cases given
              obtain ⟨twin, later, more, _, rfl, kind, goesOn, echo⟩ := named within
              obtain ⟨other, more, rfl, markKind, _, echo⟩ := echo.of_cons within
              unfold entries
              simp only [Token.isPunct, kind, isEntryName_eq kind, markKind, goesOn]
                at inside isName noComma closes ⊢
              rw [if_neg inside, if_neg isName, if_neg noComma, if_pos closes]
              exact ⟨_, rfl, echo⟩
            · cases given
termination_by (tokens.length, 0)
decreasing_by
  all_goals
    simp only [List.length_cons, Prod.lex_def]
    omega

/-- An entry of a dictionary is read in the same way if more than what comes behind is left. -/
theorem echo_entryValue (same : SameMark behind beyond) (tokens : List Token) :
    ∀ left, entryValue tokens = .ok left → behind <:+ left.1 → behind.length < left.1.length →
      ∀ copy, Echo behind beyond tokens copy →
        ∃ more, entryValue copy = .ok more ∧ Echo behind beyond left.1 more.1 := by
  cases tokens with
  | nil =>
    intro left _ _ more
    exact absurd (Nat.lt_of_lt_of_le more left.2) (Nat.not_lt_zero _)
  | cons equal rest =>
    intro left given within shorter copy echo
    have marks := echo.startsWith_eq (Nat.lt_of_lt_of_le shorter left.2) .equal
    cases starts : startsWith .equal (equal :: rest) with
    | false =>
      rw [entryValue_of_not starts] at given
      cases given
      rw [entryValue_of_not (marks.trans starts)]
      exact ⟨_, rfl, echo⟩
    | true =>
      have isEqual : equal.isPunct .equal = true := starts
      unfold entryValue at given
      rw [if_pos isEqual] at given
      split at given
      · rename_i after found
        cases given
        have leaves := suffix_of_ok (leaves_value rest) found
        have inner := echoes_value same _ _ found within
        obtain ⟨twin, later, rfl, _, _, echo⟩ := echo.of_cons (within.trans leaves)
        obtain ⟨more, goesOn, echo⟩ := inner _ echo
        have isTwin : twin.isPunct .equal = true := marks.trans starts
        unfold entryValue
        dsimp only
        rw [if_pos isTwin]
        simp only [goesOn]
        exact ⟨_, rfl, echo⟩
      · cases given
termination_by (tokens.length, 0)

end

theorem startsWithAlias_cons (token : Token) (rest : List Token) :
    startsWithAlias (token :: rest) = (token.kind == .attributeName &&
      !token.text.toList.contains '.' && !startsWith .less rest) := by
  cases rest <;> rfl

/-- The name of an attribute alias is one elsewhere. -/
theorem startsWithAlias_eq (kind : twin.kind = token.kind) (text : twin.text = token.text)
    (same : SameMark tokens copy) :
    startsWithAlias (twin :: copy) = startsWithAlias (token :: tokens) := by
  rw [startsWithAlias_cons, startsWithAlias_cons, kind, text, same.less]

/-- What is read of an attribute is decided by its tokens and by the mark that comes after them. -/
theorem echoes_ofForm (same : SameMark behind beyond) (form : AttributeForm) (tokens : List Token) :
    Echoes behind beyond (ofForm form) tokens := by
  cases form with
  | value => exact echoes_value same tokens
  | dialect =>
    intro left given within copy echo
    change dialect tokens = .ok left at given
    unfold dialect at given
    split at given
    · cases given
    · rename_i token rest
      split at given
      · rename_i isDialect
        split at given
        · rename_i after found
          cases given
          have leaves := suffix_of_ok (leaves_optionalGroup openAttribute rest) found
          obtain ⟨twin, later, rfl, kind, text, echo⟩ := echo.of_cons (within.trans leaves)
          obtain ⟨more, goesOn, ends⟩ := echoes_optionalGroup same _ _ _ found within _ echo
          change ∃ more, dialect (twin :: later) = .ok more ∧ _
          unfold dialect
          simp only [kind, startsWithAlias_eq kind text (echo.sameMark same)]
          rw [if_pos isDialect]
          simp only [goesOn]
          exact ⟨_, rfl, ends⟩
        · cases given
      · cases given
  | aliasName =>
    intro left given within copy echo
    change aliasName tokens = .ok left at given
    unfold aliasName at given
    split at given
    · cases given
    · rename_i token rest
      split at given
      · rename_i isAlias
        cases given
        obtain ⟨twin, later, rfl, kind, text, echo⟩ := echo.of_cons within
        change ∃ more, aliasName (twin :: later) = .ok more ∧ _
        unfold aliasName
        dsimp only
        rw [startsWithAlias_eq kind text (echo.sameMark same), if_pos isAlias]
        exact ⟨_, rfl, echo⟩
      · cases given
  | dictionary =>
    intro left given within copy echo
    change dictionary tokens = .ok left at given
    unfold dictionary at given
    split at given
    · cases given
    · rename_i token rest
      split at given
      · rename_i isOpening
        split at given
        · rename_i after found
          cases given
          have leaves := suffix_of_ok (leaves_entries rest) found
          obtain ⟨twin, later, rfl, kind, _, echo⟩ := echo.of_cons (within.trans leaves)
          obtain ⟨more, goesOn, echo⟩ := echoes_entries same _ _ found within _ echo
          change ∃ more, dictionary (twin :: later) = .ok more ∧ _
          unfold dictionary
          simp only [Token.isPunct, kind] at isOpening ⊢
          rw [if_pos isOpening]
          simp only [goesOn]
          exact ⟨_, rfl, echo⟩
        · cases given
      · cases given

end CirText.Reader
