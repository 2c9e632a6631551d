import CirText.Proofs.Sublanguage.Echo
import CirText.Proofs.Sublanguage.Grammar

/-!
# What the readers of types and attributes leave, step by step

What a reader leaves when it succeeds is stated without the proof that it is less: one equation for
each class of tokens with which a part of the grammar can start. Counting brackets finds exactly the
end of a group.
-/

namespace CirText.Reader

variable {tokens taken rest : List Token} {token : Token}

/-! ## Groups -/

theorem not_closesGroup_of_opensGroup (opens : opensGroup token = true) :
    closesGroup token = false := by
  simp only [opensGroup, Token.isPunct, Bool.or_eq_true, beq_iff_eq] at opens
  rcases opens with ((same | same) | same) | same <;> simp [closesGroup, Token.isPunct, same]

theorem weight_of_opens (opens : opensGroup token = true) : weight token = 1 := by
  simp [weight, opens, not_closesGroup_of_opensGroup opens]

theorem weight_of_closes (closes : closesGroup token = true) : weight token = -1 := by
  have noOpening : opensGroup token = false := by
    by_contra opens
    rw [not_closesGroup_of_opensGroup (Bool.eq_true_of_not_eq_false opens)] at closes
    cases closes
  simp [weight, closes, noOpening]

theorem weight_of_neither (noOpening : opensGroup token = false)
    (noClosing : closesGroup token = false) :
    weight token = 0 := by
  simp [weight, noOpening, noClosing]

theorem nesting_cons (token : Token) (tokens : List Token) :
    nesting (token :: tokens) = weight token + nesting tokens := by
  simp only [nesting, weight, List.countP_cons]
  split <;> split <;> push_cast <;> ring

/-- Whether tokens close the given number of brackets, and no fewer of them do. -/
def Closes (depth : Int) (tokens : List Token) : Prop :=
  depth + nesting tokens = 0 ∧ ∀ count < tokens.length, 0 < depth + nesting (tokens.take count)

theorem closes_nil_iff {depth : Int} : Closes depth [] ↔ depth = 0 := by
  simp [Closes, nesting]

theorem closes_cons_iff {depth : Int} :
    Closes depth (token :: tokens) ↔ 0 < depth ∧ Closes (depth + weight token) tokens := by
  have shift : ∀ others, depth + nesting (token :: others) = depth + weight token +
      nesting others := by
    intro others
    rw [nesting_cons, Int.add_assoc]
  constructor
  · rintro ⟨closed, inside⟩
    refine ⟨?_, (shift tokens).symm.trans closed, fun count fewer => ?_⟩
    · have start := inside 0 (Nat.succ_pos _)
      simpa [nesting] using start
    · have later := inside (count + 1) (Nat.succ_lt_succ fewer)
      rwa [List.take_succ_cons, shift] at later
  · rintro ⟨positive, closed, inside⟩
    refine ⟨(shift tokens).trans closed, fun count fewer => ?_⟩
    cases count with
    | zero => simpa [nesting] using positive
    | succ count =>
      rw [List.take_succ_cons, shift]
      exact inside count (Nat.lt_of_succ_lt_succ fewer)

/-- Nothing closes what is closed. -/
theorem closes_zero_iff : Closes 0 tokens ↔ tokens = [] := by
  cases tokens with
  | nil => simp [closes_nil_iff]
  | cons token tokens => simp [closes_cons_iff]

/-- What is left behind the bracket that closes the last of some open ones. -/
def leftOfGroup (depth : Nat) (tokens : List Token) : Option (List Token) :=
  (skipGroup depth tokens).map (·.1)

theorem leftOfGroup_cons (depth : Nat) (token : Token) (tokens : List Token) :
    leftOfGroup depth (token :: tokens) =
      if closesGroup token && depth ≤ 1 then some tokens
      else leftOfGroup (if opensGroup token then depth + 1
        else if closesGroup token then depth - 1 else depth) tokens := by
  unfold leftOfGroup
  rw [skipGroup]
  split
  · rfl
  · dsimp only
    cases skipGroup (if opensGroup token then depth + 1
      else if closesGroup token then depth - 1 else depth) tokens <;> rfl

theorem leftOfGroup_eq_some_iff {depth : Nat} :
    leftOfGroup (depth + 1) tokens = some rest ↔
      ∃ taken, tokens = taken ++ rest ∧ Closes (depth + 1) taken := by
  induction tokens generalizing depth with
  | nil =>
    constructor
    · rintro ⟨⟩
    · rintro ⟨taken, split, closes⟩
      obtain ⟨rfl, rfl⟩ := List.append_eq_nil_iff.1 split.symm
      have := closes_nil_iff.1 closes
      omega
  | cons token tokens ih =>
    -- The bracket behind which nothing is open is the first token, or it comes later.
    have step : (∃ taken, token :: tokens = taken ++ rest ∧ Closes (depth + 1) taken) ↔
        ∃ taken, tokens = taken ++ rest ∧ Closes (depth + 1 + weight token) taken := by
      constructor
      · rintro ⟨taken, split, closes⟩
        cases taken with
        | nil =>
          have := closes_nil_iff.1 closes
          omega
        | cons first taken =>
          obtain ⟨rfl, rfl⟩ := List.cons.inj split
          exact ⟨taken, rfl, (closes_cons_iff.1 closes).2⟩
      · rintro ⟨taken, rfl, closes⟩
        exact ⟨token :: taken, rfl, closes_cons_iff.2 ⟨by omega, closes⟩⟩
    rw [leftOfGroup_cons, step]
    cases opens : opensGroup token with
    | true =>
      rw [not_closesGroup_of_opensGroup opens, weight_of_opens opens]
      simpa using @ih (depth + 1)
    | false =>
      cases closes : closesGroup token with
      | false =>
        rw [weight_of_neither opens closes]
        simpa using @ih depth
      | true =>
        rw [weight_of_closes closes]
        cases depth with
        | zero => simp [closes_zero_iff, eq_comm]
        | succ depth => simpa [show ¬depth + 1 + 1 ≤ 1 by omega] using @ih depth

theorem isGroup_cons_iff {mark : Punct} (opens : opensGroup token = true) :
    IsGroup mark (token :: tokens) ↔ token.isPunct mark = true ∧ Closes 1 tokens := by
  have shift : ∀ others, nesting (token :: others) = 1 + nesting others := by
    intro others
    rw [nesting_cons, weight_of_opens opens]
  constructor
  · rintro ⟨starts, closed, inside⟩
    refine ⟨starts, (shift tokens).symm.trans closed, fun count fewer => ?_⟩
    have later := inside (count + 1) (Nat.succ_pos _) (Nat.succ_lt_succ fewer)
    rwa [List.take_succ_cons, shift] at later
  · rintro ⟨isMark, closed, inside⟩
    refine ⟨isMark, (shift tokens).trans closed, fun count positive fewer => ?_⟩
    obtain ⟨count, rfl⟩ := Nat.exists_eq_add_of_lt positive
    rw [Nat.zero_add, List.take_succ_cons, shift]
    exact inside count (by simpa using fewer)

/-- The marks that open groups. -/
def opensWith (mark : Punct) : Prop :=
  ∀ token : Token, token.isPunct mark = true → opensGroup token = true

theorem opensWith_less : opensWith .less := by
  intro token isMark
  simp [opensGroup, isMark]

theorem opensWith_leftParen : opensWith .leftParen := by
  intro token isMark
  simp [opensGroup, isMark]

theorem IsGroup.starts_append {mark : Punct} (isGroup : IsGroup mark taken) :
    startsWith mark (taken ++ rest) = true := by
  cases taken with
  | nil => cases isGroup.starts
  | cons token others => exact isGroup.starts

theorem leftOfGroup_zero_iff {mark : Punct} (opening : opensWith mark)
    (starts : startsWith mark tokens = true) :
    leftOfGroup 0 tokens = some rest ↔ ∃ group, tokens = group ++ rest ∧ IsGroup mark group := by
  cases tokens with
  | nil => cases starts
  | cons token tokens =>
    have opens := opening token starts
    rw [leftOfGroup_cons, not_closesGroup_of_opensGroup opens, opens]
    simp only [Bool.false_and, Bool.false_eq_true, if_false, if_true, Nat.zero_add]
    rw [show (1 : Nat) = 0 + 1 from rfl, leftOfGroup_eq_some_iff]
    constructor
    · rintro ⟨taken, rfl, closes⟩
      exact ⟨token :: taken, rfl, (isGroup_cons_iff opens).2 ⟨starts, by simpa using closes⟩⟩
    · rintro ⟨group, split, isGroup⟩
      cases group with
      | nil => cases isGroup.starts
      | cons first group =>
        obtain ⟨rfl, rfl⟩ := List.cons.inj split
        exact ⟨group, rfl, by simpa using ((isGroup_cons_iff opens).1 isGroup).2⟩

/-! ## What readers leave -/

/-- What is left of the tokens when reading succeeds. -/
def left {fewer : List Token → Prop} :
    Except Mismatch { rest : List Token // fewer rest } → Option (List Token)
  | .ok after => some after.1
  | .error _ => none

theorem left_ok {fewer : List Token → Prop} (after : { rest : List Token // fewer rest }) :
    left (.ok after) = some after.1 :=
  rfl

theorem left_eq_some_iff {fewer : List Token → Prop}
    {outcome : Except Mismatch { rest : List Token // fewer rest }} :
    left outcome = some rest ↔ ∃ shorter, outcome = .ok ⟨rest, shorter⟩ := by
  cases outcome with
  | error mismatch => simp [left]
  | ok after =>
    rw [left_ok, Option.some.injEq]
    constructor
    · rintro rfl
      exact ⟨after.2, rfl⟩
    · rintro ⟨_, given⟩
      rw [Except.ok.inj given]

theorem length_left {outcome : Reading tokens} (given : left outcome = some rest) :
    rest.length < tokens.length := by
  obtain ⟨shorter, _⟩ := left_eq_some_iff.1 given
  exact shorter

theorem left_optionalGroup (message : String) (tokens : List Token) :
    left (optionalGroup message tokens) =
      if startsWith .less tokens then leftOfGroup 0 tokens else some tokens := by
  unfold optionalGroup leftOfGroup
  split
  · cases skipGroup 0 tokens <;> rfl
  · rfl

theorem left_requiredGroup (mark : Punct) (message : String) (tokens : List Token) :
    left (requiredGroup mark message tokens) =
      if startsWith mark tokens then leftOfGroup 0 tokens else none := by
  unfold requiredGroup leftOfGroup
  split
  · cases skipGroup 0 tokens <;> rfl
  · rfl

/-- A group that may be left out is there exactly if an angle bracket comes next. -/
theorem left_optionalGroup_iff {message : String} :
    left (optionalGroup message tokens) = some rest ↔
      ∃ taken, tokens = taken ++ rest ∧ Derives .optionalGroup taken rest := by
  rw [left_optionalGroup]
  cases starts : startsWith .less tokens with
  | true =>
    rw [if_pos rfl, leftOfGroup_zero_iff opensWith_less starts]
    constructor
    · rintro ⟨group, rfl, isGroup⟩
      exact ⟨group, rfl, .someGroup isGroup⟩
    · rintro ⟨taken, rfl, derives⟩
      cases derives with
      | noGroup absent =>
        rw [List.nil_append, absent] at starts
        cases starts
      | someGroup isGroup => exact ⟨taken, rfl, isGroup⟩
  | false =>
    rw [if_neg Bool.false_ne_true, Option.some.injEq]
    constructor
    · rintro rfl
      exact ⟨[], rfl, .noGroup starts⟩
    · rintro ⟨taken, rfl, derives⟩
      cases derives with
      | noGroup absent => rfl
      | someGroup isGroup =>
        rw [isGroup.starts_append] at starts
        cases starts

theorem left_requiredGroup_iff {mark : Punct} (opening : opensWith mark) {message : String} :
    left (requiredGroup mark message tokens) = some rest ↔
      ∃ group, tokens = group ++ rest ∧ IsGroup mark group := by
  rw [left_requiredGroup]
  cases starts : startsWith mark tokens with
  | true => rw [if_pos rfl, leftOfGroup_zero_iff opening starts]
  | false =>
    constructor
    · rintro ⟨⟩
    · rintro ⟨group, rfl, isGroup⟩
      rw [isGroup.starts_append] at starts
      cases starts

/-! ## Types, step by step -/

theorem left_type_nil : left (type []) = none := by
  rw [type]
  rfl

theorem left_types (tokens : List Token) :
    left (types tokens) = (left (type tokens)).bind fun
      | [] => none
      | token :: rest =>
        if token.isPunct .comma then left (types rest)
        else if token.isPunct .rightParen then some rest
        else none := by
  rw [types]
  split
  · rename_i failed
    rw [failed]
    rfl
  · rename_i given
    rw [given]
    rfl
  · rename_i token rest shorter given
    rw [given, left_ok, Option.bind_some]
    dsimp only
    split
    · cases types rest <;> rfl
    · split <;> rfl

theorem left_typeList_cons (token : Token) (rest : List Token) :
    left (typeList (token :: rest)) =
      if token.isPunct .rightParen then some rest else left (types (token :: rest)) := by
  rw [typeList]
  split <;> rfl

theorem left_typeList_nil : left (typeList []) = none := by
  rw [typeList, left_types, left_type_nil]
  rfl

theorem left_type_name (isName : token.kind = .typeName) (rest : List Token) :
    left (type (token :: rest)) = left (optionalGroup openType rest) := by
  rw [type]
  simp only [isName]
  cases optionalGroup openType rest <;> rfl

theorem left_type_word (isWord : token.kind = .identifier) (rest : List Token) :
    left (type (token :: rest)) =
      if isScalarType token.text then some rest
      else if isShapedType token.text then left (requiredGroup .less openType rest)
      else none := by
  rw [type]
  simp only [isWord]
  split
  · rfl
  · split
    · rw [left_requiredGroup]
      split
      · rename_i opens
        have group := left_optionalGroup openType rest
        rw [if_pos opens] at group
        rw [← group]
        cases optionalGroup openType rest <;> rfl
      · rfl
    · rfl

theorem left_type_paren (isOpening : token.isPunct .leftParen = true) (rest : List Token) :
    left (type (token :: rest)) = (left (typeList rest)).bind fun
      | [] => none
      | arrow :: results =>
        if arrow.isPunct .arrow then
          if startsWith .leftParen results then left (typeList results.tail)
          else left (type results)
        else none := by
  have kind : token.kind = .punct .leftParen := beq_iff_eq.1 isOpening
  rw [type]
  simp only [kind]
  split
  · rename_i failed
    rw [failed]
    rfl
  · rename_i given
    rw [given]
    rfl
  · rename_i arrow results shorter given
    rw [given, left_ok, Option.bind_some]
    dsimp only
    split
    · split
      · cases typeList results.tail <;> rfl
      · cases type results <;> rfl
    · rfl

/-- No type starts with a token of another class. -/
theorem left_type_other (noName : token.kind ≠ .typeName) (noWord : token.kind ≠ .identifier)
    (noOpening : token.isPunct .leftParen = false) (rest : List Token) :
    left (type (token :: rest)) = none := by
  rw [type]
  simp only
  split
  · contradiction
  · contradiction
  · rename_i kind
    rw [Token.isPunct, kind] at noOpening
    cases noOpening
  · rfl

/-! ## Attributes, step by step -/

theorem left_typeSuffix_cons (token : Token) (rest : List Token) :
    left (typeSuffix (token :: rest)) =
      if token.isPunct .colon then left (type rest) else some (token :: rest) := by
  rw [typeSuffix]
  split
  · cases type rest <;> rfl
  · rfl

theorem left_groupAndSuffix (tokens : List Token) :
    left (groupAndSuffix tokens) =
      (left (optionalGroup openAttribute tokens)).bind fun middle => left (typeSuffix middle) := by
  unfold groupAndSuffix
  cases optionalGroup openAttribute tokens with
  | error mismatch => rfl
  | ok middle =>
    dsimp only
    rw [left_ok, Option.bind_some]
    cases typeSuffix middle.1 <;> rfl

theorem left_typeValue (tokens : List Token) : left (typeValue tokens) = left (type tokens) := by
  unfold typeValue
  cases type tokens <;> rfl

theorem left_value_nil : left (value []) = none := by
  rw [value, left_typeValue, left_type_nil]

theorem left_value_name (isName : token.kind = .attributeName) (rest : List Token) :
    left (value (token :: rest)) = left (groupAndSuffix rest) := by
  rw [value]
  simp only [isName]
  cases groupAndSuffix rest <;> rfl

theorem left_value_literal
    (isLiteral : token.kind = .integer ∨ token.kind = .float ∨ token.kind = .string)
    (rest : List Token) : left (value (token :: rest)) = left (typeSuffix rest) := by
  rw [value]
  rcases isLiteral with same | same | same <;> simp only [same] <;> cases typeSuffix rest <;> rfl

theorem left_value_symbol (isSymbol : token.kind = .symbol) (rest : List Token) :
    left (value (token :: rest)) = some rest := by
  rw [value]
  simp only [isSymbol]
  rfl

theorem left_value_word (isWord : token.kind = .identifier) (rest : List Token) :
    left (value (token :: rest)) =
      if isValueWord token.text then some rest
      else if isElementsWord token.text then
        (left (requiredGroup .less "" rest)).bind fun middle => left (typeSuffix middle)
      else if token.text = "loc" then left (requiredGroup .leftParen "" rest)
      else left (type (token :: rest)) := by
  have anyMessage : ∀ mark message, left (requiredGroup mark message rest) =
      left (requiredGroup mark "" rest) := by
    intro mark message
    rw [left_requiredGroup, left_requiredGroup]
  rw [value]
  simp only [isWord]
  split
  · rfl
  · split
    · rw [← anyMessage .less ("expected `<...>` after `" ++ token.text ++ "`")]
      cases requiredGroup .less ("expected `<...>` after `" ++ token.text ++ "`") rest with
      | error mismatch => rfl
      | ok middle =>
        obtain ⟨middle, shorter⟩ := middle
        dsimp only
        rw [left_ok, Option.bind_some]
        cases typeSuffix middle <;> rfl
    · simp only [beq_iff_eq]
      split
      · rw [← anyMessage .leftParen "expected `(...)` after `loc`"]
        cases requiredGroup .leftParen "expected `(...)` after `loc`" rest <;> rfl
      · rw [left_typeValue]

theorem left_value_bracket (opens : token.isPunct .leftBracket = true) (rest : List Token) :
    left (value (token :: rest)) = left (items rest) := by
  have kind : token.kind = .punct .leftBracket := beq_iff_eq.1 opens
  rw [value]
  simp only [kind]
  cases items rest <;> rfl

theorem left_value_brace (opens : token.isPunct .leftBrace = true) (rest : List Token) :
    left (value (token :: rest)) = left (entries rest) := by
  have kind : token.kind = .punct .leftBrace := beq_iff_eq.1 opens
  rw [value]
  simp only [kind]
  cases entries rest <;> rfl

/-- The classes of tokens with which attribute values start that are no types. -/
def startsPlainValue (token : Token) : Bool :=
  token.kind == .attributeName || token.kind == .integer || token.kind == .float ||
    token.kind == .string || token.kind == .symbol || token.kind == .identifier ||
    token.isPunct .leftBracket || token.isPunct .leftBrace

theorem left_value_other (other : startsPlainValue token = false) (rest : List Token) :
    left (value (token :: rest)) = left (type (token :: rest)) := by
  rw [value]
  split <;> rename_i kind
  all_goals first
    | (simp [startsPlainValue, Token.isPunct, kind] at other; done)
    | rw [left_typeValue]

theorem left_items (tokens : List Token) :
    left (items tokens) =
      if startsWith .rightBracket tokens then some tokens.tail
      else (left (value tokens)).bind fun
        | [] => none
        | token :: rest =>
          if token.isPunct .comma then left (items rest)
          else if token.isPunct .rightBracket then some rest
          else none := by
  rw [items.eq_def]
  split
  · rename_i closes
    cases tokens with
    | nil => cases closes
    | cons token rest => rfl
  · split
    · rename_i failed
      rw [failed]
      rfl
    · rename_i given
      rw [given]
      rfl
    · rename_i token rest shorter given
      rw [given, left_ok, Option.bind_some]
      dsimp only
      split
      · cases items rest <;> rfl
      · split <;> rfl

theorem left_entries_nil : left (entries []) = none := by
  rw [entries]
  rfl

theorem left_entries_cons (name : Token) (rest : List Token) :
    left (entries (name :: rest)) =
      if name.isPunct .rightBrace then some rest
      else if isEntryName name then
        (left (entryValue rest)).bind fun
          | [] => none
          | token :: after =>
            if token.isPunct .comma then left (entries after)
            else if token.isPunct .rightBrace then some after
            else none
      else none := by
  rw [entries]
  split
  · rfl
  · cases isEntryName name with
    | false => rfl
    | true =>
      simp only [Bool.not_true, Bool.false_eq_true, if_false, if_true]
      split
      · rename_i failed
        rw [failed]
        rfl
      · rename_i given
        rw [given]
        rfl
      · rename_i token after shorter given
        rw [given, left_ok, Option.bind_some]
        dsimp only
        split
        · cases entries after <;> rfl
        · split <;> rfl

theorem left_entryValue_nil : left (entryValue []) = some [] := by
  rw [entryValue]
  rfl

theorem left_entryValue_cons (token : Token) (rest : List Token) :
    left (entryValue (token :: rest)) =
      if token.isPunct .equal then left (value rest) else some (token :: rest) := by
  rw [entryValue]
  split
  · cases value rest <;> rfl
  · rfl

theorem left_dictionary_cons (token : Token) (rest : List Token) :
    left (dictionary (token :: rest)) =
      if token.isPunct .leftBrace then left (entries rest) else none := by
  rw [dictionary]
  split
  · cases entries rest <;> rfl
  · rfl

theorem left_dialect_cons (token : Token) (rest : List Token) :
    left (dialect (token :: rest)) =
      if token.kind = .attributeName ∧ startsWithAlias (token :: rest) = false then
        left (optionalGroup openAttribute rest)
      else none := by
  rw [dialect]
  split
  · cases optionalGroup openAttribute rest <;> rfl
  · rfl

theorem left_aliasName_cons (token : Token) (rest : List Token) :
    left (aliasName (token :: rest)) =
      if startsWithAlias (token :: rest) then some rest else none := by
  rw [aliasName]
  split <;> rfl

/-- The name of an alias has no dot, and no angle bracket comes behind it. -/
theorem startsWithAlias_name (isName : token.kind = .attributeName) (rest : List Token) :
    startsWithAlias (token :: rest) =
      (!token.text.toList.contains '.' && !startsWith .less rest) := by
  rw [startsWithAlias_cons, isName]
  rfl

theorem not_closes_of_isEntryName (isName : isEntryName token = true) :
    token.isPunct .rightBrace = false := by
  simp only [isEntryName, Bool.or_eq_true, beq_iff_eq] at isName
  rcases isName with (same | same) | same <;> simp [Token.isPunct, same]

end CirText.Reader
