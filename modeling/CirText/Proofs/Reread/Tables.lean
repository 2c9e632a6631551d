import CirText.Proofs.Reread.Unplaced

/-!
# Modifiers that are collected a second time

The modifiers of a record, in the order in which they are written, are collected into the same
record again, wherever they stand.
-/

namespace CirText.ModifierTable

variable {S : Type}

/-- Whether the modifiers of a record are collected into the same record again, given the record
without its places. -/
structure Stable (table : ModifierTable S) (unplaced : S → S) : Prop where
  /-- Modifiers as they are written give the record back. -/
  collect_list : ∀ record, table.collect (table.list record) = record
  /-- Modifiers are written wherever they stand. -/
  list_unplaced : ∀ record, table.list (unplaced record) = (table.list record).map Modifier.unplaced
  /-- Modifiers are collected wherever they stand. -/
  collect_unplaced : ∀ modifiers,
    table.collect (modifiers.map Modifier.unplaced) = unplaced (table.collect modifiers)

/-- What is collected from the written modifiers of a record is the record, up to places. -/
theorem Stable.unplaced_collect {table : ModifierTable S} {unplaced : S → S}
    (stable : table.Stable unplaced) {record : S} {written : List Modifier}
    (same : written.map Modifier.unplaced = (table.list record).map Modifier.unplaced) :
    unplaced (table.collect written) = unplaced record := by
  rw [← stable.collect_unplaced, same, ← stable.list_unplaced, stable.collect_list]

/-- What is collected from the written modifiers of a record is written in the same way. -/
theorem Stable.list_collect {table : ModifierTable S} {unplaced : S → S}
    (stable : table.Stable unplaced) {record : S} {written : List Modifier}
    (same : written.map Modifier.unplaced = (table.list record).map Modifier.unplaced) :
    (table.list (table.collect written)).map Modifier.unplaced =
      (table.list record).map Modifier.unplaced := by
  rw [← stable.list_unplaced, stable.unplaced_collect same, stable.list_unplaced]

/-! ## Looking into a run of modifiers without places -/

section Unplaced

variable (modifiers : List Modifier) (keyword : String)

@[simp]
theorem get?_unplaced :
    get? (modifiers.map Modifier.unplaced) keyword =
      (get? modifiers keyword).map Modifier.unplaced := by
  rw [get?, List.find?_map]
  rfl

@[simp]
theorem filling?_unplaced (slot : String) :
    filling? (modifiers.map Modifier.unplaced) slot =
      (filling? modifiers slot).map Modifier.unplaced := by
  rw [filling?, List.find?_map]
  rfl

@[simp]
theorem has_unplaced :
    has (modifiers.map Modifier.unplaced) keyword = has modifiers keyword := by
  rw [has, get?_unplaced, Option.isSome_map]
  rfl

@[simp]
theorem lexeme?_unplaced :
    lexeme? (modifiers.map Modifier.unplaced) keyword =
      (lexeme? modifiers keyword).map Lexeme.unplaced := by
  rw [lexeme?, lexeme?, get?_unplaced]
  rcases get? modifiers keyword with _ | ⟨rule, _ | _ | _ | _⟩ <;> rfl

@[simp]
theorem symbol?_unplaced :
    symbol? (modifiers.map Modifier.unplaced) keyword =
      (symbol? modifiers keyword).map Reference.unplaced := by
  rw [symbol?, symbol?, get?_unplaced]
  rcases get? modifiers keyword with _ | ⟨rule, _ | _ | _ | _⟩ <;> rfl

@[simp]
theorem attribute?_unplaced :
    attribute? (modifiers.map Modifier.unplaced) keyword =
      (attribute? modifiers keyword).map AttributeText.unplaced := by
  rw [attribute?, attribute?, get?_unplaced]
  rcases get? modifiers keyword with _ | ⟨rule, _ | _ | _ | _⟩ <;> rfl

@[simp]
theorem lexemeIfGiven?_unplaced :
    lexemeIfGiven? (modifiers.map Modifier.unplaced) keyword =
      (lexemeIfGiven? modifiers keyword).map (Option.map Lexeme.unplaced) := by
  rw [lexemeIfGiven?, lexemeIfGiven?, get?_unplaced, lexeme?_unplaced]
  cases get? modifiers keyword <;> rfl

@[simp]
theorem linkage?_unplaced :
    linkage? (modifiers.map Modifier.unplaced) = linkage? modifiers := by
  rw [linkage?, linkage?, filling?_unplaced, Option.bind_map]
  rfl

@[simp]
theorem tls?_unplaced : tls? (modifiers.map Modifier.unplaced) = tls? modifiers := by
  rw [tls?, tls?, filling?_unplaced, Option.bind_map]
  rfl

@[simp]
theorem addressSpace?_unplaced :
    addressSpace? (modifiers.map Modifier.unplaced) =
      (addressSpace? modifiers).map AddressSpace.unplaced := by
  rw [addressSpace?, addressSpace?, lexeme?_unplaced, lexeme?_unplaced]
  cases lexeme? modifiers "lang_address_space" with
  | some name => rfl
  | none => cases lexeme? modifiers "target_address_space" <;> rfl

end Unplaced

/-! ## Writing modifiers without places -/

@[simp]
theorem map_unplaced_whenSet (isSet : Bool) (rule : ModifierRule) :
    (whenSet isSet rule).map Modifier.unplaced = whenSet isSet rule := by
  cases isSet <;> rfl

@[simp]
theorem map_unplaced_withLexeme (rule : ModifierRule) (word : Option Lexeme) :
    (withLexeme rule word).map Modifier.unplaced = withLexeme rule (word.map Lexeme.unplaced) := by
  cases word <;> rfl

@[simp]
theorem map_unplaced_withSymbol (rule : ModifierRule) (reference : Option Reference) :
    (withSymbol rule reference).map Modifier.unplaced =
      withSymbol rule (reference.map Reference.unplaced) := by
  cases reference <;> rfl

@[simp]
theorem map_unplaced_withAttribute (rule : ModifierRule) (value : Option AttributeText) :
    (withAttribute rule value).map Modifier.unplaced =
      withAttribute rule (value.map AttributeText.unplaced) := by
  cases value <;> rfl

@[simp]
theorem map_unplaced_withOptionalLexeme (rule : ModifierRule) (word : Option (Option Lexeme)) :
    (withOptionalLexeme rule word).map Modifier.unplaced =
      withOptionalLexeme rule (word.map (Option.map Lexeme.unplaced)) := by
  rcases word with _ | _ | _ <;> rfl

/-! ## Looking into what is written -/

@[simp]
theorem get?_append (first second : List Modifier) (keyword : String) :
    get? (first ++ second) keyword = (get? first keyword).or (get? second keyword) :=
  List.find?_append

@[simp]
theorem get?_nil (keyword : String) : get? [] keyword = none :=
  rfl

@[simp]
theorem get?_cons (modifier : Modifier) (rest : List Modifier) (keyword : String) :
    get? (modifier :: rest) keyword =
      if modifier.rule.keyword == keyword then some modifier else get? rest keyword := by
  rw [get?, List.find?_cons]
  split <;> simp_all [get?]

@[simp]
theorem get?_whenSet (isSet : Bool) (rule : ModifierRule) (keyword : String) :
    get? (whenSet isSet rule) keyword =
      if isSet && rule.keyword == keyword then some { rule } else none := by
  cases isSet <;> simp [whenSet, get?, List.find?_singleton]

@[simp]
theorem filling?_append (first second : List Modifier) (slot : String) :
    filling? (first ++ second) slot = (filling? first slot).or (filling? second slot) :=
  List.find?_append

@[simp]
theorem filling?_nil (slot : String) : filling? [] slot = none :=
  rfl

@[simp]
theorem filling?_cons (modifier : Modifier) (rest : List Modifier) (slot : String) :
    filling? (modifier :: rest) slot =
      if modifier.rule.slot == slot then some modifier else filling? rest slot := by
  rw [filling?, List.find?_cons]
  split <;> simp_all [filling?]

@[simp]
theorem filling?_whenSet (isSet : Bool) (rule : ModifierRule) (slot : String) :
    filling? (whenSet isSet rule) slot =
      if isSet && rule.slot == slot then some { rule } else none := by
  cases isSet <;> simp [whenSet, filling?, List.find?_singleton]

@[simp]
theorem isSome_if (condition : Bool) (modifier : Modifier) :
    (if condition = true then some modifier else none).isSome = condition := by
  cases condition <;> rfl

theorem ofKeyword?_keyword (value : Linkage) : Linkage.ofKeyword? value.keyword = some value := by
  cases value <;> decide

theorem tls_ofKeyword?_keyword (model : TlsModel) :
    TlsModel.ofKeyword? model.keyword = some model := by
  cases model <;> decide

/-! ## The tables -/

theorem beforeFunctionName_stable : beforeFunctionName.Stable id where
  collect_list := by
    rintro ⟨noInline, optnone, dsoLocal, comdat, coroutine, _ | value⟩
    · simp [beforeFunctionName, has, linkage?, flag]
    · have other : ∀ keyword ∈ ["no_inline", "optnone", "dso_local", "comdat", "coroutine"],
          (value.keyword == keyword) = false := by
        cases value <;> decide
      simp only [List.forall_mem_cons] at other
      simp [beforeFunctionName, has, linkage?, flag, oneOf, linkage, ofKeyword?_keyword, other]
  list_unplaced := by
    rintro ⟨_, _, _, _, _, _ | _⟩ <;> simp [beforeFunctionName, Modifier.unplaced]
  collect_unplaced modifiers := by simp [beforeFunctionName]

theorem afterFunctionSignature_stable :
    afterFunctionSignature.Stable FunctionTraits.unplaced where
  collect_list := by
    rintro ⟨_ | _, _ | _, _ | _ | _, _ | _ | _, _ | _⟩ <;> rfl
  list_unplaced record := by simp [afterFunctionSignature, FunctionTraits.unplaced]
  collect_unplaced modifiers := by simp [afterFunctionSignature, FunctionTraits.unplaced]

theorem afterCall_stable : afterCall.Stable CallModifiers.unplaced where
  collect_list := by
    rintro ⟨_ | _, _ | _, _ | _⟩ <;> rfl
  list_unplaced record := by simp [afterCall, listCall, CallModifiers.unplaced]
  collect_unplaced modifiers := by simp [afterCall, collectCall, CallModifiers.unplaced]

theorem afterTryCall_stable : afterTryCall.Stable CallModifiers.unplaced :=
  ⟨afterCall_stable.collect_list, afterCall_stable.list_unplaced, afterCall_stable.collect_unplaced⟩

theorem ofMemoryAccess_stable : ofMemoryAccess.Stable AccessFlags.unplaced where
  collect_list := by
    rintro ⟨_ | _, _ | _, _ | _⟩ <;> rfl
  list_unplaced record := by simp [ofMemoryAccess, AccessFlags.unplaced]
  collect_unplaced modifiers := by simp [ofMemoryAccess, AccessFlags.unplaced]

theorem beforeGlobalName_stable : beforeGlobalName.Stable GlobalModifiers.unplaced where
  collect_list := by
    have tlsOther : ∀ model : TlsModel, ∀ keyword ∈ ["constant", "comdat", "lang_address_space",
        "target_address_space"], (model.keyword == keyword) = false := by
      intro model
      cases model <;> decide
    have linkageOther : ∀ value : Linkage, ∀ keyword ∈ ["constant", "comdat", "lang_address_space",
        "target_address_space"], (value.keyword == keyword) = false := by
      intro value
      cases value <;> decide
    simp only [List.forall_mem_cons, forall_and] at tlsOther linkageOther
    rintro ⟨_ | value, constant, comdat, _ | model, _ | _ | _⟩ <;>
      simp [beforeGlobalName, has, linkage?, tls?, flag, oneOf, linkage, tls, ofKeyword?_keyword,
        tls_ofKeyword?_keyword, tlsOther, linkageOther, addressSpace?, lexeme?, ofAddressSpace,
        langAddressSpace, targetAddressSpace, withArgument]
  list_unplaced := by
    rintro ⟨_ | _, _, _, _ | _, _ | _ | _⟩ <;>
      simp [beforeGlobalName, GlobalModifiers.unplaced, Modifier.unplaced, ofAddressSpace,
        AddressSpace.unplaced, Argument.unplaced]
  collect_unplaced modifiers := by simp [beforeGlobalName, GlobalModifiers.unplaced]

end CirText.ModifierTable
