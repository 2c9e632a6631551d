import CirText.Proofs.Sublanguage.Steps

/-!
# The readers accept exactly their grammar

What a reader takes derives from the grammar, by the number of tokens, and what derives is taken, by
induction on its derivation. So a text has at most one beginning that derives.
-/

namespace CirText.Reader

variable {tokens taken behind rest : List Token} {token : Token}

/-! ## Types -/

/-- Whether the tokens in front of what is left derive from a part of the grammar. -/
def Exact (part : Part) (tokens : List Token) (outcome : Option (List Token)) : Prop :=
  ∀ rest, outcome = some rest → ∃ taken, tokens = taken ++ rest ∧ Derives part taken rest

theorem exact_typeList {opening : Token} (opens : opening.isPunct .leftParen = true)
    (inner : Exact .types tokens (left (types tokens)))
    (given : left (typeList tokens) = some rest) :
    ∃ taken, opening :: tokens = taken ++ rest ∧ Derives .typeList taken rest := by
  cases tokens with
  | nil =>
    rw [left_typeList_nil] at given
    cases given
  | cons token tokens =>
    rw [left_typeList_cons] at given
    split at given
    · rename_i closes
      cases given
      exact ⟨[opening, token], rfl, .noTypes opens closes⟩
    · obtain ⟨taken, split, derives⟩ := inner rest given
      exact ⟨opening :: taken, by rw [split]; rfl, .someTypes opens derives⟩

/-- A list of types takes one type, and then others behind a comma or a closing parenthesis. -/
theorem exact_types (first : Exact .type tokens (left (type tokens)))
    (later : ∀ others : List Token, others.length < tokens.length →
      Exact .types others (left (types others))) :
    Exact .types tokens (left (types tokens)) := by
  intro rest given
  rw [left_types, Option.bind_eq_some_iff] at given
  obtain ⟨middle, isFirst, given⟩ := given
  have shorter := length_left isFirst
  obtain ⟨taken, split, derives⟩ := first middle isFirst
  cases middle with
  | nil => cases given
  | cons token others =>
    dsimp only at given
    split at given
    · rename_i isComma
      rw [List.length_cons] at shorter
      obtain ⟨more, rfl, derivesMore⟩ := later others (by omega) rest given
      exact ⟨taken ++ token :: more, by rw [split]; simp,
        .nextType (by simpa using derives) isComma derivesMore⟩
    · split at given
      · rename_i closes
        cases given
        exact ⟨taken ++ [token], by rw [split]; simp, .lastType derives closes⟩
      · cases given

/-- What a function type gives is a list of types, or one type without parentheses around it. -/
theorem exact_results (list : Exact .types tokens.tail (left (types tokens.tail)))
    (single : Exact .type tokens (left (type tokens)))
    (given : (if startsWith .leftParen tokens then left (typeList tokens.tail)
      else left (type tokens)) = some rest) :
    ∃ taken, tokens = taken ++ rest ∧ Derives .results taken rest := by
  split at given
  · rename_i several
    cases tokens with
    | nil => cases several
    | cons opening tokens =>
      obtain ⟨taken, split, derives⟩ := exact_typeList several list given
      exact ⟨taken, split, .severalResults derives⟩
  · rename_i noParen
    obtain ⟨taken, rfl, one⟩ := single rest given
    refine ⟨taken, rfl, .oneResult one ?_⟩
    cases taken with
    | nil => rfl
    | cons first taken => simpa [startsWith] using noParen

/-- What is taken for a type is one. -/
theorem exact_type_step
    (list : ∀ others : List Token, others.length < tokens.length →
      Exact .types others (left (types others)))
    (single : ∀ others : List Token, others.length < tokens.length →
      Exact .type others (left (type others))) :
    Exact .type tokens (left (type tokens)) := by
  intro rest given
  cases tokens with
  | nil =>
    rw [left_type_nil] at given
    cases given
  | cons token tokens =>
    by_cases isName : token.kind = .typeName
    · rw [left_type_name isName] at given
      obtain ⟨taken, rfl, derives⟩ := left_optionalGroup_iff.1 given
      exact ⟨token :: taken, rfl, .typeName isName derives⟩
    · by_cases isWord : token.kind = .identifier
      · rw [left_type_word isWord] at given
        split at given
        · rename_i scalar
          cases given
          exact ⟨[token], rfl, .scalarType isWord scalar⟩
        · split at given
          · rename_i shaped
            obtain ⟨group, rfl, isGroup⟩ := (left_requiredGroup_iff opensWith_less).1 given
            exact ⟨token :: group, rfl, .shapedType isWord shaped isGroup⟩
          · cases given
      · cases isOpening : token.isPunct .leftParen with
        | false =>
          rw [left_type_other isName isWord isOpening] at given
          cases given
        | true =>
          rw [left_type_paren isOpening, Option.bind_eq_some_iff] at given
          obtain ⟨middle, inputs, given⟩ := given
          have shorter := length_left inputs
          obtain ⟨taken, split, derives⟩ :=
            exact_typeList isOpening (list tokens (Nat.lt_succ_self _)) inputs
          cases middle with
          | nil => cases given
          | cons arrow results =>
            rw [List.length_cons] at shorter
            dsimp only at given
            split at given
            · rename_i isArrow
              have fewer : results.tail.length ≤ results.length := by
                rw [List.length_tail]
                exact Nat.sub_le _ _
              obtain ⟨more, rfl, derivesMore⟩ := exact_results
                (list results.tail (by rw [List.length_cons]; omega))
                (single results (by rw [List.length_cons]; omega)) given
              refine ⟨taken ++ arrow :: more, by rw [split]; simp, ?_⟩
              exact .functionType (by simpa using derives) isArrow derivesMore
            · cases given

/-- What the readers of types take derives from the grammar. -/
theorem exact_type_types (tokens : List Token) :
    Exact .type tokens (left (type tokens)) ∧
      Exact .types tokens (left (types tokens)) := by
  induction tokens using (measure List.length).wf.induction with
  | _ tokens ih =>
    have single : Exact .type tokens (left (type tokens)) :=
      exact_type_step (fun others fewer => (ih others fewer).2) fun others fewer =>
        (ih others fewer).1
    exact ⟨single, exact_types single fun others fewer => (ih others fewer).2⟩

/-! ## Attributes -/

theorem exact_typeSuffix (given : left (typeSuffix tokens) = some rest) :
    ∃ taken, tokens = taken ++ rest ∧ Derives .optionalType taken rest := by
  cases tokens with
  | nil =>
    cases given
    exact ⟨[], rfl, .noType rfl⟩
  | cons token tokens =>
    rw [left_typeSuffix_cons] at given
    split at given
    · rename_i isColon
      obtain ⟨taken, rfl, derives⟩ := (exact_type_types tokens).1 rest given
      exact ⟨token :: taken, rfl, .someType isColon derives⟩
    · rename_i noColon
      cases given
      exact ⟨[], rfl, .noType (Bool.eq_false_iff.2 noColon)⟩

theorem exact_groupAndSuffix (given : left (groupAndSuffix tokens) = some rest) :
    ∃ group suffix, tokens = group ++ (suffix ++ rest) ∧
      Derives .optionalGroup group (suffix ++ rest) ∧ Derives .optionalType suffix rest := by
  rw [left_groupAndSuffix, Option.bind_eq_some_iff] at given
  obtain ⟨middle, first, last⟩ := given
  obtain ⟨suffix, rfl, derivesSuffix⟩ := exact_typeSuffix last
  obtain ⟨group, rfl, derivesGroup⟩ := left_optionalGroup_iff.1 first
  exact ⟨group, suffix, rfl, derivesGroup, derivesSuffix⟩

/-- What is taken for an attribute value behind a bare word is one. -/
theorem exact_value_word (isWord : token.kind = .identifier)
    (given : left (value (token :: tokens)) = some rest) :
    ∃ taken, token :: tokens = taken ++ rest ∧ Derives (.attributeOf .value) taken rest := by
  rw [left_value_word isWord] at given
  split at given
  · rename_i isValue
    cases given
    exact ⟨[token], rfl, .valueWord isWord isValue⟩
  · split at given
    · rename_i isElements
      obtain ⟨middle, first, last⟩ := Option.bind_eq_some_iff.1 given
      obtain ⟨suffix, rfl, derives⟩ := exact_typeSuffix last
      obtain ⟨group, rfl, isGroup⟩ := (left_requiredGroup_iff opensWith_less).1 first
      exact ⟨token :: group ++ suffix, by simp, .elements isWord isElements isGroup derives⟩
    · split at given
      · rename_i isLocation
        obtain ⟨group, rfl, isGroup⟩ := (left_requiredGroup_iff opensWith_leftParen).1 given
        exact ⟨token :: group, rfl, .location isWord isLocation isGroup⟩
      · obtain ⟨taken, split, derives⟩ := (exact_type_types (token :: tokens)).1 rest given
        exact ⟨taken, split, .typeValue derives⟩

/-- What is taken for an attribute value is one. -/
theorem exact_value
    (array : ∀ others : List Token, others.length < tokens.length →
      Exact .items others (left (items others)))
    (braces : ∀ others : List Token, others.length < tokens.length →
      Exact .entries others (left (entries others))) :
    Exact (.attributeOf .value) tokens (left (value tokens)) := by
  intro rest given
  cases tokens with
  | nil =>
    rw [left_value_nil] at given
    cases given
  | cons token tokens =>
    cases other : startsPlainValue token with
    | false =>
      rw [left_value_other other] at given
      obtain ⟨taken, split, derives⟩ := (exact_type_types (token :: tokens)).1 rest given
      exact ⟨taken, split, .typeValue derives⟩
    | true =>
      simp only [startsPlainValue, Bool.or_eq_true, beq_iff_eq] at other
      rcases other with ((((((isName | isInteger) | isFloat) | isString) | isSymbol) | isWord) |
        isBracket) | isBrace
      · rw [left_value_name isName] at given
        obtain ⟨group, suffix, rfl, first, last⟩ := exact_groupAndSuffix given
        exact ⟨token :: group ++ suffix, by simp, .named isName first last⟩
      · exact literal (.inl isInteger) given
      · exact literal (.inr (.inl isFloat)) given
      · exact literal (.inr (.inr isString)) given
      · rw [left_value_symbol isSymbol] at given
        cases given
        exact ⟨[token], rfl, .symbolName isSymbol⟩
      · exact exact_value_word isWord given
      · rw [left_value_bracket isBracket] at given
        obtain ⟨taken, rfl, derives⟩ := array tokens (Nat.lt_succ_self _) rest given
        exact ⟨token :: taken, rfl, .array isBracket derives⟩
      · rw [left_value_brace isBrace] at given
        obtain ⟨taken, rfl, derives⟩ := braces tokens (Nat.lt_succ_self _) rest given
        exact ⟨token :: taken, rfl, .dictionaryValue (.dictionary isBrace derives)⟩
where
  literal {token : Token} {tokens rest : List Token}
      (isLiteral : token.kind = .integer ∨ token.kind = .float ∨ token.kind = .string)
      (given : left (value (token :: tokens)) = some rest) :
      ∃ taken, token :: tokens = taken ++ rest ∧ Derives (.attributeOf .value) taken rest := by
    rw [left_value_literal isLiteral] at given
    obtain ⟨suffix, rfl, derives⟩ := exact_typeSuffix given
    exact ⟨token :: suffix, rfl, .literal isLiteral derives⟩

/-- The items of an array are values with commas between them, and perhaps one behind the last. -/
theorem exact_items (first : Exact (.attributeOf .value) tokens (left (value tokens)))
    (later : ∀ others : List Token, others.length < tokens.length →
      Exact .items others (left (items others))) :
    Exact .items tokens (left (items tokens)) := by
  intro rest given
  rw [left_items] at given
  split at given
  · rename_i closes
    cases tokens with
    | nil => cases closes
    | cons token tokens =>
      cases given
      exact ⟨[token], rfl, .noItems closes⟩
  · rw [Option.bind_eq_some_iff] at given
    obtain ⟨middle, isFirst, given⟩ := given
    have shorter := length_left isFirst
    obtain ⟨taken, split, derives⟩ := first middle isFirst
    cases middle with
    | nil => cases given
    | cons token others =>
      dsimp only at given
      split at given
      · rename_i isComma
        rw [List.length_cons] at shorter
        obtain ⟨more, rfl, derivesMore⟩ := later others (by omega) rest given
        exact ⟨taken ++ token :: more, by rw [split]; simp,
          .nextItem (by simpa using derives) isComma derivesMore⟩
      · split at given
        · rename_i closes
          cases given
          exact ⟨taken ++ [token], by rw [split]; simp, .lastItem derives closes⟩
        · cases given

theorem exact_entryValue
    (isValue : ∀ others : List Token, others.length < tokens.length →
      Exact (.attributeOf .value) others (left (value others)))
    (given : left (entryValue tokens) = some rest) :
    ∃ taken, tokens = taken ++ rest ∧ Derives .optionalValue taken rest := by
  cases tokens with
  | nil =>
    rw [left_entryValue_nil] at given
    cases given
    exact ⟨[], rfl, .noValue rfl⟩
  | cons token tokens =>
    rw [left_entryValue_cons] at given
    split at given
    · rename_i isEqual
      obtain ⟨taken, rfl, derives⟩ := isValue tokens (Nat.lt_succ_self _) rest given
      exact ⟨token :: taken, rfl, .someValue isEqual derives⟩
    · rename_i noEqual
      cases given
      exact ⟨[], rfl, .noValue (Bool.eq_false_iff.2 noEqual)⟩

/-- The entries of a dictionary are names, perhaps with values, and commas between them, and perhaps
one behind the last. -/
theorem exact_entries
    (isValue : ∀ others : List Token, others.length < tokens.length →
      Exact (.attributeOf .value) others (left (value others)))
    (later : ∀ others : List Token, others.length < tokens.length →
      Exact .entries others (left (entries others))) :
    Exact .entries tokens (left (entries tokens)) := by
  intro rest given
  cases tokens with
  | nil =>
    rw [left_entries_nil] at given
    cases given
  | cons name tokens =>
    rw [left_entries_cons] at given
    split at given
    · rename_i closes
      cases given
      exact ⟨[name], rfl, .noEntries closes⟩
    · split at given
      · rename_i isName
        rw [Option.bind_eq_some_iff] at given
        obtain ⟨middle, isFirst, given⟩ := given
        obtain ⟨taken, rfl, derives⟩ := exact_entryValue
          (fun others fewer => isValue others (Nat.lt_succ_of_lt fewer)) isFirst
        cases middle with
        | nil => cases given
        | cons token others =>
          dsimp only at given
          split at given
          · rename_i isComma
            obtain ⟨more, rfl, derivesMore⟩ := later others (by simp; omega) rest given
            exact ⟨name :: taken ++ token :: more, by simp,
              .nextEntry isName (by simpa using derives) isComma derivesMore⟩
          · split at given
            · rename_i closes
              cases given
              exact ⟨name :: taken ++ [token], by simp, .lastEntry isName derives closes⟩
            · cases given
      · cases given

/-- What the readers of attribute values take derives from the grammar. -/
theorem exact_value_items_entries (tokens : List Token) :
    Exact (.attributeOf .value) tokens (left (value tokens)) ∧
      Exact .items tokens (left (items tokens)) ∧
        Exact .entries tokens (left (entries tokens)) := by
  induction tokens using (measure List.length).wf.induction with
  | _ tokens ih =>
    have single : Exact (.attributeOf .value) tokens (left (value tokens)) :=
      exact_value (fun others fewer => (ih others fewer).2.1) fun others fewer =>
        (ih others fewer).2.2
    exact ⟨single, exact_items single fun others fewer => (ih others fewer).2.1,
      exact_entries (fun others fewer => (ih others fewer).1) fun others fewer =>
        (ih others fewer).2.2⟩

theorem exact_dictionary : Exact (.attributeOf .dictionary) tokens (left (dictionary tokens)) := by
  intro rest given
  cases tokens with
  | nil => cases given
  | cons token tokens =>
    rw [left_dictionary_cons] at given
    split at given
    · rename_i opens
      obtain ⟨taken, rfl, derives⟩ := (exact_value_items_entries tokens).2.2 rest given
      exact ⟨token :: taken, rfl, .dictionary opens derives⟩
    · cases given

theorem exact_dialect : Exact (.attributeOf .dialect) tokens (left (dialect tokens)) := by
  intro rest given
  cases tokens with
  | nil => cases given
  | cons token tokens =>
    rw [left_dialect_cons] at given
    split at given
    · rename_i dialectName
      obtain ⟨taken, rfl, derives⟩ := left_optionalGroup_iff.1 given
      refine ⟨token :: taken, rfl, .dialect dialectName.1 ?_ derives⟩
      have noAlias := dialectName.2
      rw [startsWithAlias_name dialectName.1, Bool.and_eq_false_iff, Bool.not_eq_false',
        Bool.not_eq_false'] at noAlias
      refine noAlias.imp_right fun starts => ?_
      rintro rfl
      cases derives with
      | noGroup absent =>
        rw [List.nil_append, absent] at starts
        cases starts
      | someGroup isGroup => cases isGroup.starts
    · cases given

theorem exact_aliasName : Exact (.attributeOf .aliasName) tokens (left (aliasName tokens)) := by
  intro rest given
  cases tokens with
  | nil => cases given
  | cons token tokens =>
    rw [left_aliasName_cons] at given
    split at given
    · rename_i isAlias
      cases given
      have isName : token.kind = .attributeName := by
        have named := isAlias
        rw [startsWithAlias, Token.isAttributeAlias] at named
        simp only [Bool.and_eq_true, beq_iff_eq] at named
        exact named.1.1
      rw [startsWithAlias_name isName, Bool.and_eq_true, Bool.not_eq_true',
        Bool.not_eq_true'] at isAlias
      exact ⟨[token], rfl, .aliasName isName isAlias.1 isAlias.2⟩
    · cases given

/-! ## Types that derive are taken -/

theorem isScalarType_of_isShapedType {word : String} (shaped : isShapedType word = true) :
    isScalarType word = false := by
  simp only [isShapedType, Bool.or_eq_true, beq_iff_eq] at shaped
  rcases shaped with (((rfl | rfl) | rfl) | rfl) | rfl <;> decide

/-- A type starts with a token that is neither a comma nor a closing parenthesis. -/
theorem Derives.type_starts (derives : Derives .type taken behind) :
    ∃ token others, taken = token :: others ∧
      (token.kind = .typeName ∨ token.kind = .identifier ∨ token.kind = .punct .leftParen) := by
  cases derives with
  | typeName isName _ => exact ⟨_, _, rfl, .inl isName⟩
  | scalarType isWord _ => exact ⟨_, _, rfl, .inr (.inl isWord)⟩
  | shapedType isWord _ _ => exact ⟨_, _, rfl, .inr (.inl isWord)⟩
  | functionType first _ _ =>
    cases first with
    | noTypes opens _ => exact ⟨_, _, rfl, .inr (.inr (beq_iff_eq.1 opens))⟩
    | someTypes opens _ => exact ⟨_, _, rfl, .inr (.inr (beq_iff_eq.1 opens))⟩

/-- A list of at least one type starts with none that closes it. -/
theorem Derives.types_starts (derives : Derives .types taken behind) :
    ∃ token others, taken = token :: others ∧ token.isPunct .rightParen = false := by
  have noClosing : ∀ {token : Token}, (token.kind = .typeName ∨ token.kind = .identifier ∨
      token.kind = .punct .leftParen) → token.isPunct .rightParen = false := by
    intro token kind
    rcases kind with same | same | same <;> simp [Token.isPunct, same]
  cases derives with
  | lastType last _ =>
    obtain ⟨token, others, rfl, kind⟩ := last.type_starts
    exact ⟨token, _, rfl, noClosing kind⟩
  | nextType first _ _ =>
    obtain ⟨token, others, rfl, kind⟩ := first.type_starts
    exact ⟨token, _, rfl, noClosing kind⟩

/-! ## Both directions -/

/-- What is left behind a part of the grammar when its reader succeeds. -/
def leftBehind : Part → List Token → Option (List Token)
  | .type, tokens => left (type tokens)
  | .typeList, tokens => if startsWith .leftParen tokens then left (typeList tokens.tail) else none
  | .types, tokens => left (types tokens)
  | .results, tokens =>
    if startsWith .leftParen tokens then left (typeList tokens.tail) else left (type tokens)
  | .optionalGroup, tokens => left (optionalGroup openType tokens)
  | .optionalType, tokens => left (typeSuffix tokens)
  | .attributeOf form, tokens => left (ofForm form tokens)
  | .items, tokens => left (items tokens)
  | .entries, tokens => left (entries tokens)
  | .optionalValue, tokens => left (entryValue tokens)

theorem leftBehind_typeList (opens : token.isPunct .leftParen = true) (rest : List Token) :
    leftBehind .typeList (token :: rest) = left (typeList rest) :=
  if_pos opens

theorem leftBehind_results (opens : token.isPunct .leftParen = true) (rest : List Token) :
    leftBehind .results (token :: rest) = left (typeList rest) :=
  if_pos opens

theorem leftBehind_results_of_not (noParen : startsWith .leftParen tokens = false) :
    leftBehind .results tokens = left (type tokens) :=
  if_neg (Bool.eq_false_iff.1 noParen)

theorem isPunct_of_ne {mark other : Punct} (isMark : token.isPunct mark = true)
    (ne : mark ≠ other) : token.isPunct other = false := by
  rw [Token.isPunct, beq_iff_eq.1 isMark]
  simpa using ne

theorem Derives.typeList_starts (derives : Derives .typeList taken behind) :
    ∃ opening others, taken = opening :: others ∧ opening.isPunct .leftParen = true := by
  cases derives with
  | noTypes opens _ => exact ⟨_, _, rfl, opens⟩
  | someTypes opens _ => exact ⟨_, _, rfl, opens⟩

theorem Derives.dictionary_starts (derives : Derives (.attributeOf .dictionary) taken behind) :
    ∃ opening others, taken = opening :: others ∧ opening.isPunct .leftBrace = true := by
  cases derives with
  | dictionary opens _ => exact ⟨_, _, rfl, opens⟩

/-- An attribute value starts with a token that does not close an array. -/
theorem Derives.value_starts (derives : Derives (.attributeOf .value) taken behind) :
    startsWith .rightBracket (taken ++ behind) = false := by
  have kind : ∀ {token : Token} {kind : TokenKind} {others}, token.kind = kind →
      kind ≠ .punct .rightBracket → startsWith .rightBracket (token :: others) = false := by
    intro token kind others same ne
    rw [startsWith, Token.isPunct, same]
    simpa using ne
  cases derives with
  | named isName _ _ => exact kind isName (by rintro ⟨⟩)
  | literal isLiteral _ =>
    rcases isLiteral with same | same | same <;> exact kind same (by rintro ⟨⟩)
  | symbolName isSymbol => exact kind isSymbol (by rintro ⟨⟩)
  | valueWord isWord _ => exact kind isWord (by rintro ⟨⟩)
  | elements isWord _ _ _ => exact kind isWord (by rintro ⟨⟩)
  | location isWord _ _ => exact kind isWord (by rintro ⟨⟩)
  | array opens _ => exact kind (beq_iff_eq.1 opens) (by rintro ⟨⟩)
  | dictionaryValue dictionary =>
    obtain ⟨opening, others, rfl, opens⟩ := dictionary.dictionary_starts
    exact kind (beq_iff_eq.1 opens) (by rintro ⟨⟩)
  | typeValue isType =>
    obtain ⟨token, others, rfl, same | same | same⟩ := isType.type_starts <;>
      exact kind same (by rintro ⟨⟩)

/-- The words of attribute values are no types. -/
theorem isScalarType_of_isValueWord {word : String} (special : isValueWord word = true ∨
    isElementsWord word = true ∨ word = "loc") :
    isScalarType word = false ∧ isShapedType word = false := by
  simp only [isValueWord, isElementsWord, Bool.or_eq_true, beq_iff_eq] at special
  rcases special with ((rfl | rfl) | rfl) | ((rfl | rfl) | rfl) | rfl <;> decide

theorem left_value_typeWord (isWord : token.kind = .identifier)
    (plain : ¬(isValueWord token.text = true ∨ isElementsWord token.text = true ∨
      token.text = "loc"))
    (rest : List Token) : left (value (token :: rest)) = left (type (token :: rest)) := by
  simp only [not_or] at plain
  rw [left_value_word isWord, if_neg plain.1, if_neg plain.2.1, if_neg plain.2.2]

/-- Where a type stands, an attribute value is read as one. -/
theorem left_value_of_type (isType : Derives .type taken behind) :
    left (value (taken ++ behind)) = left (type (taken ++ behind)) := by
  cases isType with
  | typeName isName _ =>
    exact left_value_other (by simp [startsPlainValue, Token.isPunct, isName]) _
  | scalarType isWord scalar =>
    refine left_value_typeWord isWord (fun special => ?_) _
    rw [(isScalarType_of_isValueWord special).1] at scalar
    cases scalar
  | shapedType isWord shaped _ =>
    refine left_value_typeWord isWord (fun special => ?_) _
    rw [(isScalarType_of_isValueWord special).2] at shaped
    cases shaped
  | functionType first _ _ =>
    obtain ⟨opening, inner, rfl, opens⟩ := first.typeList_starts
    exact left_value_other (by simp [startsPlainValue, Token.isPunct, beq_iff_eq.1 opens]) _

/-! ### What is taken -/

/-- Whether the reader of a part takes tokens and leaves what is behind them. -/
def Takes (part : Part) (taken behind : List Token) : Prop :=
  leftBehind part (taken ++ behind) = some behind

section Takes

variable {group others inputs outputs suffix : List Token}
    {opening closing comma arrow name word : Token}

theorem left_optionalGroup_of_derives {message : String}
    (derives : Derives .optionalGroup group behind) :
    left (optionalGroup message (group ++ behind)) = some behind :=
  left_optionalGroup_iff.2 ⟨_, rfl, derives⟩

theorem left_requiredGroup_of_isGroup {mark : Punct} {message : String} (opening : opensWith mark)
    (isGroup : IsGroup mark group) : left (requiredGroup mark message (group ++ behind)) =
      some behind :=
  (left_requiredGroup_iff opening).2 ⟨_, rfl, isGroup⟩

/-! #### Types -/

theorem takes_shapedType (isWord : word.kind = .identifier) (shaped : isShapedType word.text = true)
    (isGroup : IsGroup .less group) : Takes .type (word :: group) behind := by
  change left (type (word :: (group ++ behind))) = _
  rw [left_type_word isWord, isScalarType_of_isShapedType shaped, if_neg Bool.false_ne_true,
    if_pos shaped]
  exact left_requiredGroup_of_isGroup opensWith_less isGroup

theorem takes_functionType (first : Derives .typeList inputs (arrow :: outputs ++ behind))
    (takesFirst : Takes .typeList inputs (arrow :: outputs ++ behind))
    (isArrow : arrow.isPunct .arrow = true)
    (takesLast : Takes .results outputs behind) :
    Takes .type (inputs ++ arrow :: outputs) behind := by
  obtain ⟨opening, inner, rfl, opens⟩ := first.typeList_starts
  have inputsLeft : left (typeList (inner ++ arrow :: (outputs ++ behind))) =
      some (arrow :: (outputs ++ behind)) :=
    (leftBehind_typeList opens _).symm.trans takesFirst
  change left (type (opening :: ((inner ++ arrow :: outputs) ++ behind))) = _
  rw [left_type_paren opens, List.append_assoc, List.cons_append, inputsLeft, Option.bind_some]
  dsimp only
  rw [if_pos isArrow]
  exact takesLast

theorem takes_severalResults (several : Derives .typeList taken behind)
    (takes : Takes .typeList taken behind) :
    Takes .results taken behind := by
  obtain ⟨opening, inner, rfl, opens⟩ := several.typeList_starts
  exact (leftBehind_results opens _).trans ((leftBehind_typeList opens _).symm.trans takes)

theorem takes_oneResult (one : Derives .type taken behind)
    (noParen : startsWith .leftParen taken = false)
    (takes : Takes .type taken behind) : Takes .results taken behind := by
  obtain ⟨token, others, rfl, _⟩ := one.type_starts
  have noOpening : startsWith .leftParen (token :: others ++ behind) = false := noParen
  exact (leftBehind_results_of_not noOpening).trans takes

theorem takes_noTypes (opens : opening.isPunct .leftParen = true)
    (closes : closing.isPunct .rightParen = true) :
    Takes .typeList [opening, closing] behind := by
  refine (leftBehind_typeList opens _).trans ?_
  change left (typeList (closing :: behind)) = _
  rw [left_typeList_cons, if_pos closes]

theorem takes_someTypes (opens : opening.isPunct .leftParen = true)
    (rest : Derives .types taken behind)
    (takes : Takes .types taken behind) : Takes .typeList (opening :: taken) behind := by
  obtain ⟨token, others, rfl, noClosing⟩ := rest.types_starts
  refine (leftBehind_typeList opens _).trans ?_
  change left (typeList (token :: (others ++ behind))) = _
  rw [left_typeList_cons, noClosing, if_neg Bool.false_ne_true]
  exact takes

theorem takes_lastType (takes : Takes .type taken (closing :: behind))
    (closes : closing.isPunct .rightParen = true) : Takes .types (taken ++ [closing]) behind := by
  have takes : left (type (taken ++ closing :: behind)) = some (closing :: behind) := takes
  rw [Takes, leftBehind, List.append_assoc, left_types, List.singleton_append, takes,
    Option.bind_some]
  dsimp only
  rw [isPunct_of_ne closes (by decide), if_neg Bool.false_ne_true, if_pos closes]

theorem takes_nextType (takesFirst : Takes .type taken (comma :: others ++ behind))
    (isComma : comma.isPunct .comma = true) (takesRest : Takes .types others behind) :
    Takes .types (taken ++ comma :: others) behind := by
  have takesFirst : left (type (taken ++ comma :: (others ++ behind))) =
      some (comma :: (others ++ behind)) :=
    takesFirst
  rw [Takes, leftBehind, List.append_assoc, List.cons_append, left_types, takesFirst,
    Option.bind_some]
  dsimp only
  rw [if_pos isComma]
  exact takesRest

theorem takes_noType (absent : startsWith .colon behind = false) :
    Takes .optionalType [] behind := by
  change left (typeSuffix behind) = _
  cases behind with
  | nil => rfl
  | cons token rest =>
    rw [left_typeSuffix_cons, show token.isPunct .colon = false from absent,
      if_neg Bool.false_ne_true]

/-! #### Attributes -/

theorem takes_named (isName : name.kind = .attributeName)
    (first : Derives .optionalGroup group (suffix ++ behind))
    (takesLast : Takes .optionalType suffix behind) :
    Takes (.attributeOf .value) (name :: group ++ suffix) behind := by
  change left (value (name :: (group ++ suffix ++ behind))) = _
  rw [left_value_name isName, left_groupAndSuffix, List.append_assoc,
    left_optionalGroup_of_derives first,
    Option.bind_some]
  exact takesLast

theorem takes_elements (isWord : word.kind = .identifier)
    (isElements : isElementsWord word.text = true)
    (isGroup : IsGroup .less group) (takesLast : Takes .optionalType suffix behind) :
    Takes (.attributeOf .value) (word :: group ++ suffix) behind := by
  have noValue : isValueWord word.text = false := by
    simp only [isElementsWord, Bool.or_eq_true, beq_iff_eq] at isElements
    rcases isElements with (same | same) | same <;> rw [same] <;> decide
  change left (value (word :: (group ++ suffix ++ behind))) = _
  rw [left_value_word isWord, noValue, if_neg Bool.false_ne_true, if_pos isElements,
    List.append_assoc, left_requiredGroup_of_isGroup opensWith_less isGroup, Option.bind_some]
  exact takesLast

theorem takes_location (isWord : word.kind = .identifier) (isLocation : word.text = "loc")
    (isGroup : IsGroup .leftParen group) : Takes (.attributeOf .value) (word :: group) behind := by
  have noValue : isValueWord word.text = false ∧ isElementsWord word.text = false := by
    rw [isLocation]
    decide
  change left (value (word :: (group ++ behind))) = _
  rw [left_value_word isWord, noValue.1, noValue.2, if_neg Bool.false_ne_true,
    if_neg Bool.false_ne_true, if_pos isLocation]
  exact left_requiredGroup_of_isGroup opensWith_leftParen isGroup

theorem takes_dictionaryValue (isDictionary : Derives (.attributeOf .dictionary) taken behind)
    (takes : Takes (.attributeOf .dictionary) taken behind) :
    Takes (.attributeOf .value) taken behind := by
  obtain ⟨opening, others, rfl, opens⟩ := isDictionary.dictionary_starts
  refine (left_value_brace opens _).trans ?_
  change left (dictionary (opening :: _)) = _ at takes
  rw [left_dictionary_cons, if_pos opens] at takes
  exact takes

theorem takes_noItems (closes : closing.isPunct .rightBracket = true) :
    Takes .items [closing] behind := by
  change left (items (closing :: behind)) = _
  have starts : startsWith .rightBracket (closing :: behind) = true := closes
  rw [left_items, if_pos starts]
  rfl

theorem takes_lastItem (last : Derives (.attributeOf .value) taken (closing :: behind))
    (takes : Takes (.attributeOf .value) taken (closing :: behind))
    (closes : closing.isPunct .rightBracket = true) :
    Takes .items (taken ++ [closing]) behind := by
  have takes : left (value (taken ++ closing :: behind)) = some (closing :: behind) := takes
  rw [Takes, leftBehind, List.append_assoc, left_items, List.singleton_append, last.value_starts,
    if_neg Bool.false_ne_true, takes, Option.bind_some]
  dsimp only
  rw [isPunct_of_ne closes (by decide), if_neg Bool.false_ne_true, if_pos closes]

theorem takes_nextItem (first : Derives (.attributeOf .value) taken (comma :: others ++ behind))
    (takesFirst : Takes (.attributeOf .value) taken (comma :: others ++ behind))
    (isComma : comma.isPunct .comma = true) (takesRest : Takes .items others behind) :
    Takes .items (taken ++ comma :: others) behind := by
  have takesFirst : left (value (taken ++ comma :: (others ++ behind))) =
      some (comma :: (others ++ behind)) :=
    takesFirst
  have starts : startsWith .rightBracket (taken ++ comma :: (others ++ behind)) = false :=
    first.value_starts
  rw [Takes, leftBehind, List.append_assoc, List.cons_append, left_items, starts,
    if_neg Bool.false_ne_true,
    takesFirst, Option.bind_some]
  dsimp only
  rw [if_pos isComma]
  exact takesRest

/-! #### Entries -/

theorem takes_lastEntry (isName : isEntryName name = true)
    (takes : Takes .optionalValue taken (closing :: behind))
    (closes : closing.isPunct .rightBrace = true) :
    Takes .entries (name :: taken ++ [closing]) behind := by
  have takes : left (entryValue (taken ++ closing :: behind)) = some (closing :: behind) := takes
  change left (entries (name :: ((taken ++ [closing]) ++ behind))) = _
  rw [List.append_assoc, List.singleton_append, left_entries_cons, not_closes_of_isEntryName isName,
    if_neg Bool.false_ne_true, if_pos isName, takes, Option.bind_some]
  dsimp only
  rw [isPunct_of_ne closes (by decide), if_neg Bool.false_ne_true, if_pos closes]

theorem takes_nextEntry (isName : isEntryName name = true)
    (takesFirst : Takes .optionalValue taken (comma :: others ++ behind))
    (isComma : comma.isPunct .comma = true)
    (takesRest : Takes .entries others behind) :
    Takes .entries (name :: taken ++ comma :: others) behind := by
  have takesFirst : left (entryValue (taken ++ comma :: (others ++ behind))) =
      some (comma :: (others ++ behind)) := takesFirst
  change left (entries (name :: ((taken ++ comma :: others) ++ behind))) = _
  rw [List.append_assoc, List.cons_append, left_entries_cons, not_closes_of_isEntryName isName,
    if_neg Bool.false_ne_true, if_pos isName, takesFirst, Option.bind_some]
  dsimp only
  rw [if_pos isComma]
  exact takesRest

theorem takes_noValue (absent : startsWith .equal behind = false) :
    Takes .optionalValue [] behind := by
  change left (entryValue behind) = _
  cases behind with
  | nil => exact left_entryValue_nil
  | cons token rest =>
    rw [left_entryValue_cons, show token.isPunct .equal = false from absent,
      if_neg Bool.false_ne_true]

theorem takes_dialect (isName : name.kind = .attributeName)
    (qualified : name.text.toList.contains '.' = true ∨ group ≠ [])
    (rest : Derives .optionalGroup group behind) :
    Takes (.attributeOf .dialect) (name :: group) behind := by
  have noAlias : startsWithAlias (name :: (group ++ behind)) = false := by
    rw [startsWithAlias_name isName]
    rcases qualified with dotted | present
    · rw [dotted]
      rfl
    · cases rest with
      | noGroup absent => exact absurd rfl present
      | someGroup isGroup => rw [isGroup.starts_append, Bool.not_true, Bool.and_false]
  change left (dialect (name :: (group ++ behind))) = _
  rw [left_dialect_cons, if_pos ⟨isName, noAlias⟩]
  exact left_optionalGroup_of_derives rest

theorem takes_aliasName (isName : name.kind = .attributeName)
    (plain : name.text.toList.contains '.' = false)
    (absent : startsWith .less behind = false) : Takes (.attributeOf .aliasName) [name] behind := by
  have isAlias : startsWithAlias (name :: behind) = true := by
    rw [startsWithAlias_name isName, plain, absent]
    rfl
  change left (aliasName (name :: behind)) = _
  rw [left_aliasName_cons, if_pos isAlias]

end Takes

/-- What derives from the grammar is taken. -/
theorem leftBehind_of_derives {part : Part} (derives : Derives part taken behind) :
    leftBehind part (taken ++ behind) = some behind := by
  induction derives with
  | noGroup absent => exact left_optionalGroup_of_derives (.noGroup absent)
  | someGroup isGroup => exact left_optionalGroup_of_derives (.someGroup isGroup)
  | typeName isName _ ih => exact (left_type_name isName _).trans ih
  | scalarType isWord scalar => exact (left_type_word isWord _).trans (if_pos scalar)
  | shapedType isWord shaped isGroup => exact takes_shapedType isWord shaped isGroup
  | functionType first isArrow _ ihFirst ihLast =>
    exact takes_functionType first ihFirst isArrow ihLast
  | severalResults several ih => exact takes_severalResults several ih
  | oneResult one noParen ih => exact takes_oneResult one noParen ih
  | noTypes opens closes => exact takes_noTypes opens closes
  | someTypes opens rest ih => exact takes_someTypes opens rest ih
  | lastType _ closes ih => exact takes_lastType ih closes
  | nextType _ isComma _ ihFirst ihRest => exact takes_nextType ihFirst isComma ihRest
  | noType absent => exact takes_noType absent
  | @someType colon taken behind isColon _ ih =>
    change left (typeSuffix (colon :: (taken ++ behind))) = _
    rw [left_typeSuffix_cons, if_pos isColon]
    exact ih
  | named isName first _ _ ihLast => exact takes_named isName first ihLast
  | literal isLiteral _ ih => exact (left_value_literal isLiteral _).trans ih
  | symbolName isSymbol => exact left_value_symbol isSymbol _
  | valueWord isWord isValue => exact (left_value_word isWord _).trans (if_pos isValue)
  | elements isWord isElements isGroup _ ih => exact takes_elements isWord isElements isGroup ih
  | location isWord isLocation isGroup => exact takes_location isWord isLocation isGroup
  | array opens _ ih => exact (left_value_bracket opens _).trans ih
  | dictionaryValue isDictionary ih => exact takes_dictionaryValue isDictionary ih
  | typeValue isType ih => exact (left_value_of_type isType).trans ih
  | noItems closes => exact takes_noItems closes
  | lastItem last closes ih => exact takes_lastItem last ih closes
  | nextItem first isComma _ ihFirst ihRest => exact takes_nextItem first ihFirst isComma ihRest
  | @dictionary opening taken behind opens _ ih =>
    change left (dictionary (opening :: (taken ++ behind))) = _
    rw [left_dictionary_cons, if_pos opens]
    exact ih
  | @noEntries closing behind closes =>
    change left (entries (closing :: behind)) = _
    rw [left_entries_cons, if_pos closes]
  | lastEntry isName _ closes ih => exact takes_lastEntry isName ih closes
  | nextEntry isName _ isComma _ ihFirst ihRest =>
    exact takes_nextEntry isName ihFirst isComma ihRest
  | noValue absent => exact takes_noValue absent
  | @someValue equal taken behind isEqual _ ih =>
    change left (entryValue (equal :: (taken ++ behind))) = _
    rw [left_entryValue_cons, if_pos isEqual]
    exact ih
  | dialect isName qualified rest => exact takes_dialect isName qualified rest
  | aliasName isName plain absent => exact takes_aliasName isName plain absent

/-- What a reader leaves is what stands behind the tokens in front that derive. -/
theorem leftBehind_eq_some_iff {part : Part} :
    leftBehind part tokens = some rest ↔ ∃ taken, tokens = taken ++ rest ∧
      Derives part taken rest := by
  refine ⟨fun given => ?_, ?_⟩
  · cases part with
    | type => exact (exact_type_types tokens).1 rest given
    | typeList =>
      cases tokens with
      | nil => cases given
      | cons opening tokens =>
        change (if startsWith .leftParen (opening :: tokens) then left
          (typeList tokens) else none) =
          some rest at given
        split at given
        · rename_i opens
          exact exact_typeList opens (exact_type_types tokens).2 given
        · cases given
    | types => exact (exact_type_types tokens).2 rest given
    | results => exact exact_results (exact_type_types tokens.tail).2 (exact_type_types
        tokens).1 given
    | optionalGroup => exact left_optionalGroup_iff.1 given
    | optionalType => exact exact_typeSuffix given
    | attributeOf form =>
      cases form with
      | value => exact (exact_value_items_entries tokens).1 rest given
      | dialect => exact exact_dialect rest given
      | aliasName => exact exact_aliasName rest given
      | dictionary => exact exact_dictionary rest given
    | items => exact (exact_value_items_entries tokens).2.1 rest given
    | entries => exact (exact_value_items_entries tokens).2.2 rest given
    | optionalValue =>
      exact exact_entryValue (fun others _ => (exact_value_items_entries others).1) given
  · rintro ⟨taken, rfl, derives⟩
    exact leftBehind_of_derives derives

/-- A text has at most one beginning that derives. -/
theorem Derives.unique {part : Part} {others after : List Token} (derives : Derives part taken rest)
    (again : Derives part others after) (same : taken ++ rest = others ++ after) :
    taken = others ∧ rest = after := by
  have left := leftBehind_of_derives derives
  rw [same, leftBehind_of_derives again, Option.some.injEq] at left
  subst left
  exact ⟨List.append_cancel_right same, rfl⟩

end CirText.Reader
