import CirText.Sublanguage.Reader

/-!
# What the readers of types and attributes leave

A reader goes forward only: the tokens that it leaves when it succeeds, and those from the place
where it fails, are an end of the tokens that it was given.
-/

namespace CirText.Reader

/-- Whether the tokens that are left in the end are an end of the given ones. -/
def Leaves (tokens : List Token) {fewer : List Token → Prop} :
    Except Mismatch { rest : List Token // fewer rest } → Prop
  | .ok after => after.1 <:+ tokens
  | .error mismatch => mismatch.rest <:+ tokens

variable {fewer : List Token → Prop}

theorem suffix_of_ok {tokens : List Token} {outcome : Except Mismatch { rest // fewer rest }}
    {after : { rest // fewer rest }} (leaves : Leaves tokens outcome)
    (given : outcome = .ok after) :
    after.1 <:+ tokens := by
  rw [given] at leaves
  exact leaves

theorem suffix_of_error {tokens : List Token} {outcome : Except Mismatch { rest // fewer rest }}
    {mismatch : Mismatch} (leaves : Leaves tokens outcome) (given : outcome = .error mismatch) :
    mismatch.rest <:+ tokens := by
  rw [given] at leaves
  exact leaves

/-! ## Groups -/

theorem suffix_skipGroup (depth : Nat) (tokens : List Token) :
    ∀ rest ∈ skipGroup depth tokens, rest.1 <:+ tokens := by
  induction tokens generalizing depth with
  | nil =>
    intro rest given
    cases given
  | cons token tokens ih =>
    intro rest given
    simp only [skipGroup] at given
    split at given
    · cases given
      exact List.suffix_cons token tokens
    · split at given
      · rename_i after found
        cases given
        exact (ih _ after found).trans (List.suffix_cons token tokens)
      · cases given

theorem leaves_optionalGroup (message : String) (tokens : List Token) :
    Leaves tokens (optionalGroup message tokens) := by
  unfold optionalGroup
  split
  · split
    · rename_i rest found
      exact suffix_skipGroup 0 tokens rest found
    · exact List.nil_suffix
  · exact List.suffix_refl tokens

theorem leaves_requiredGroup (mark : Punct) (message : String) (tokens : List Token) :
    Leaves tokens (requiredGroup mark message tokens) := by
  unfold requiredGroup
  split
  · split
    · rename_i rest found
      exact suffix_skipGroup 0 tokens rest found
    · exact List.nil_suffix
  · exact List.suffix_refl tokens

/-! ## Types -/

mutual

theorem leaves_type (tokens : List Token) : Leaves tokens (type tokens) := by
  unfold type
  split
  · exact List.suffix_refl []
  · rename_i token rest
    have here : rest <:+ token :: rest := List.suffix_cons token rest
    split
    · have group := leaves_optionalGroup openType rest
      split
      · rename_i after found
        exact (suffix_of_ok group found).trans here
      · rename_i mismatch found
        exact (suffix_of_error group found).trans here
    · split
      · exact here
      · split
        · split
          · have group := leaves_optionalGroup openType rest
            split
            · rename_i after found
              exact (suffix_of_ok group found).trans here
            · rename_i mismatch found
              exact (suffix_of_error group found).trans here
          · exact here
        · exact List.suffix_refl _
    · have inputs := leaves_typeList rest
      split
      · rename_i mismatch found
        exact (suffix_of_error inputs found).trans here
      · exact List.nil_suffix
      · rename_i arrow results shorter found
        have left := (suffix_of_ok inputs found).trans here
        have behind : results <:+ token :: rest := (List.suffix_cons arrow results).trans left
        have fewer : results.length < rest.length := Nat.lt_of_succ_lt shorter
        split
        · split
          · have outputs := leaves_typeList results.tail
            have inside := (List.tail_suffix results).trans behind
            split
            · rename_i after found
              exact (suffix_of_ok outputs found).trans inside
            · rename_i mismatch found
              exact (suffix_of_error outputs found).trans inside
          · have output := leaves_type results
            split
            · rename_i after found
              exact (suffix_of_ok output found).trans behind
            · rename_i mismatch found
              exact (suffix_of_error output found).trans behind
        · exact left
    · exact List.suffix_refl _
termination_by (tokens.length, 0)
decreasing_by
  all_goals
    simp_all only [List.length_tail, List.length_cons, Prod.lex_def]
    omega

theorem leaves_typeList (tokens : List Token) : Leaves tokens (typeList tokens) := by
  unfold typeList
  split
  · exact leaves_types []
  · rename_i token rest
    split
    · exact List.suffix_cons token rest
    · exact leaves_types (token :: rest)
termination_by (tokens.length, 2)
decreasing_by
  all_goals
    simp_all [Prod.lex_def]

theorem leaves_types (tokens : List Token) : Leaves tokens (types tokens) := by
  unfold types
  have first := leaves_type tokens
  split
  · rename_i mismatch found
    exact suffix_of_error first found
  · exact List.nil_suffix
  · rename_i token rest shorter found
    have left := suffix_of_ok first found
    have behind : rest <:+ tokens := (List.suffix_cons token rest).trans left
    have fewer : rest.length < tokens.length := Nat.lt_of_succ_lt shorter
    split
    · have others := leaves_types rest
      split
      · rename_i after found
        exact (suffix_of_ok others found).trans behind
      · rename_i mismatch found
        exact (suffix_of_error others found).trans behind
    · split
      · exact behind
      · exact left
termination_by (tokens.length, 1)

end

/-! ## Attributes -/

theorem leaves_typeSuffix (tokens : List Token) : Leaves tokens (typeSuffix tokens) := by
  unfold typeSuffix
  split
  · exact List.nil_suffix
  · rename_i colon rest
    have written := leaves_type rest
    split
    · split
      · rename_i after found
        exact (suffix_of_ok written found).trans (List.suffix_cons colon rest)
      · rename_i mismatch found
        exact (suffix_of_error written found).trans (List.suffix_cons colon rest)
    · exact List.suffix_refl _

theorem leaves_groupAndSuffix (tokens : List Token) : Leaves tokens (groupAndSuffix tokens) := by
  unfold groupAndSuffix
  have group := leaves_optionalGroup openAttribute tokens
  split
  · rename_i mismatch found
    exact suffix_of_error group found
  · rename_i middle shorter found
    have behind := suffix_of_ok group found
    have written := leaves_typeSuffix middle
    split
    · rename_i after found
      exact (suffix_of_ok written found).trans behind
    · rename_i mismatch found
      exact (suffix_of_error written found).trans behind

theorem leaves_typeValue (tokens : List Token) : Leaves tokens (typeValue tokens) := by
  unfold typeValue
  have written := leaves_type tokens
  split
  · rename_i after found
    exact suffix_of_ok written found
  · exact List.suffix_refl tokens

mutual

theorem leaves_value (tokens : List Token) : Leaves tokens (value tokens) := by
  unfold value
  split
  · exact leaves_typeValue []
  · rename_i token rest
    have here : rest <:+ token :: rest := List.suffix_cons token rest
    have suffixed := leaves_typeSuffix rest
    split
    · have group := leaves_groupAndSuffix rest
      split
      · rename_i after found
        exact (suffix_of_ok group found).trans here
      · rename_i mismatch found
        exact (suffix_of_error group found).trans here
    iterate 3
      · split
        · rename_i after found
          exact (suffix_of_ok suffixed found).trans here
        · rename_i mismatch found
          exact (suffix_of_error suffixed found).trans here
    · exact here
    · split
      · exact here
      · split
        · have group :=
            leaves_requiredGroup .less ("expected `<...>` after `" ++ token.text ++ "`") rest
          split
          · rename_i mismatch found
            exact (suffix_of_error group found).trans here
          · rename_i middle shorter found
            have behind := (suffix_of_ok group found).trans here
            have written := leaves_typeSuffix middle
            split
            · rename_i after found
              exact (suffix_of_ok written found).trans behind
            · rename_i mismatch found
              exact (suffix_of_error written found).trans behind
        · split
          · have group := leaves_requiredGroup .leftParen "expected `(...)` after `loc`" rest
            split
            · rename_i after found
              exact (suffix_of_ok group found).trans here
            · rename_i mismatch found
              exact (suffix_of_error group found).trans here
          · exact leaves_typeValue (token :: rest)
    · have inside := leaves_items rest
      split
      · rename_i after found
        exact (suffix_of_ok inside found).trans here
      · rename_i mismatch found
        exact (suffix_of_error inside found).trans here
    · have inside := leaves_entries rest
      split
      · rename_i after found
        exact (suffix_of_ok inside found).trans here
      · rename_i mismatch found
        exact (suffix_of_error inside found).trans here
    · exact leaves_typeValue (token :: rest)
termination_by (tokens.length, 0)

theorem leaves_items (tokens : List Token) : Leaves tokens (items tokens) := by
  unfold items
  split
  · split
    · exact List.nil_suffix
    · rename_i closing rest _
      exact List.suffix_cons closing rest
  · have first := leaves_value tokens
    split
    · rename_i mismatch found
      exact suffix_of_error first found
    · exact List.nil_suffix
    · rename_i token rest shorter found
      have left := suffix_of_ok first found
      have behind : rest <:+ tokens := (List.suffix_cons token rest).trans left
      have fewer : rest.length < tokens.length := Nat.lt_of_succ_lt shorter
      split
      · have others := leaves_items rest
        split
        · rename_i after found
          exact (suffix_of_ok others found).trans behind
        · rename_i mismatch found
          exact (suffix_of_error others found).trans behind
      · split
        · exact behind
        · exact left
termination_by (tokens.length, 1)

theorem leaves_entries (tokens : List Token) : Leaves tokens (entries tokens) := by
  unfold entries
  split
  · exact List.suffix_refl []
  · rename_i name rest
    have here : rest <:+ name :: rest := List.suffix_cons name rest
    split
    · exact here
    · split
      · exact List.suffix_refl _
      · have given := leaves_entryValue rest
        split
        · rename_i mismatch found
          exact (suffix_of_error given found).trans here
        · exact List.nil_suffix
        · rename_i token after shorter found
          have left := (suffix_of_ok given found).trans here
          have behind : after <:+ name :: rest := (List.suffix_cons token after).trans left
          have fewer : after.length < rest.length := shorter
          split
          · have others := leaves_entries after
            split
            · rename_i final found
              exact (suffix_of_ok others found).trans behind
            · rename_i mismatch found
              exact (suffix_of_error others found).trans behind
          · split
            · exact behind
            · exact left
termination_by (tokens.length, 0)
decreasing_by
  all_goals
    simp_all only [List.length_cons, Prod.lex_def]
    omega

theorem leaves_entryValue (tokens : List Token) : Leaves tokens (entryValue tokens) := by
  unfold entryValue
  split
  · exact List.nil_suffix
  · rename_i equal rest
    have here : rest <:+ equal :: rest := List.suffix_cons equal rest
    split
    · have given := leaves_value rest
      split
      · rename_i after found
        exact (suffix_of_ok given found).trans here
      · rename_i mismatch found
        exact (suffix_of_error given found).trans here
    · exact List.suffix_refl _
termination_by (tokens.length, 0)

end

theorem leaves_ofForm (form : AttributeForm) (tokens : List Token) :
    Leaves tokens (ofForm form tokens) := by
  cases form with
  | value => exact leaves_value tokens
  | dialect =>
    change Leaves tokens (dialect tokens)
    unfold dialect
    split
    · exact List.suffix_refl []
    · rename_i token rest
      have group := leaves_optionalGroup openAttribute rest
      split
      · split
        · rename_i after found
          exact (suffix_of_ok group found).trans (List.suffix_cons token rest)
        · rename_i mismatch found
          exact (suffix_of_error group found).trans (List.suffix_cons token rest)
      · exact List.suffix_refl _
  | aliasName =>
    change Leaves tokens (aliasName tokens)
    unfold aliasName
    split
    · exact List.suffix_refl []
    · rename_i token rest
      split
      · exact List.suffix_cons token rest
      · exact List.suffix_refl _
  | dictionary =>
    change Leaves tokens (dictionary tokens)
    unfold dictionary
    split
    · exact List.suffix_refl []
    · rename_i token rest
      have inside := leaves_entries rest
      split
      · split
        · rename_i after found
          exact (suffix_of_ok inside found).trans (List.suffix_cons token rest)
        · rename_i mismatch found
          exact (suffix_of_error inside found).trans (List.suffix_cons token rest)
      · exact List.suffix_refl _

end CirText.Reader
