import CirText.Grammar.Modifiers
import Mathlib.Data.List.Nodup

/-!
# Modifier tables lose nothing

A run of modifiers in which no slot is filled twice is collected into a record, and the modifiers of
that record are the ones of the run, perhaps in another order. This is shown slot by slot: what a
record keeps of a slot is written as the modifier that fills the slot in the run.
-/

namespace CirText

/-- Whether an argument is of the kind that a rule asks for. -/
def ArgumentKind.Takes : ArgumentKind → Argument → Prop
  | .word, .lexeme _ => True
  | .integer, .lexeme _ => True
  | .symbol, .symbol reference => reference.kind = .symbol
  | .attribute, .attribute _ => True
  | _, _ => False

/-- Whether an argument is there, or not there, as the syntax of a modifier says. -/
def ArgumentSyntax.Admits : Option ArgumentSyntax → Option Argument → Prop
  | none, none => True
  | none, some _ => False
  | some form, none => form.optional = true
  | some form, some argument => form.kind.Takes argument

/-- Whether a modifier has an argument exactly as its rule asks for. -/
def Modifier.Fits (modifier : Modifier) : Prop :=
  ArgumentSyntax.Admits modifier.rule.argument modifier.argument

namespace ModifierTable

variable {rules : List ModifierRule} {modifiers : List Modifier} {rule : ModifierRule}

/-- A run of modifiers by the rules of a table in which no slot is filled twice. -/
structure Run (rules : List ModifierRule) (modifiers : List Modifier) : Prop where
  /-- The rules are followed. -/
  fits : ∀ modifier ∈ modifiers, modifier.rule ∈ rules ∧ modifier.Fits
  /-- Every slot is filled at most once. -/
  distinct : (modifiers.map (·.rule.slot)).Nodup

/-- A table loses nothing if the modifiers of a record are the ones that it was collected from. -/
def Lawful {S : Type} (table : ModifierTable S) : Prop :=
  ∀ modifiers, Run table.rules modifiers → (table.list (table.collect modifiers)).Perm modifiers

/-- The modifier that fills a slot, as a list. -/
def filled (modifiers : List Modifier) (slot : String) : List Modifier :=
  (filling? modifiers slot).toList

/-- Whether a rule shares neither its keyword nor its slot. -/
def Sole (rules : List ModifierRule) (rule : ModifierRule) : Prop :=
  ∀ other ∈ rules, (other.keyword = rule.keyword ↔ other = rule) ∧
    (other.slot = rule.slot ↔ other = rule)

instance (rules : List ModifierRule) (rule : ModifierRule) : Decidable (Sole rules rule) :=
  inferInstanceAs (Decidable (∀ other ∈ rules, _))

/-! ## Slots of a run -/

theorem filling?_eq_some {slot : String} {modifier : Modifier}
    (h : filling? modifiers slot = some modifier) :
    modifier ∈ modifiers ∧ modifier.rule.slot = slot :=
  ⟨List.mem_of_find?_eq_some h, by simpa using List.find?_some h⟩

theorem filled_of_mem (distinct : (modifiers.map (·.rule.slot)).Nodup) {modifier : Modifier}
    (member : modifier ∈ modifiers) : filling? modifiers modifier.rule.slot = some modifier := by
  induction modifiers with
  | nil => cases member
  | cons first rest ih =>
    rw [List.map_cons, List.nodup_cons] at distinct
    rcases List.mem_cons.1 member with rfl | later
    · simp [filling?]
    · have other : first.rule.slot ≠ modifier.rule.slot := fun same =>
        distinct.1 (same ▸ List.mem_map_of_mem later)
      rw [filling?, List.find?_cons_of_neg (by simpa using other)]
      exact ih distinct.2 later

/-- A modifier whose slot is free continues a run. -/
theorem Run.concat (run : Run rules modifiers) {argument : Option Argument} (known : rule ∈ rules)
    (admits : ArgumentSyntax.Admits rule.argument argument)
    (free : filling? modifiers rule.slot = none) :
    Run rules (modifiers ++ [⟨rule, argument⟩]) where
  fits modifier member := by
    rcases List.mem_append.1 member with old | new
    · exact run.fits modifier old
    · rw [List.mem_singleton.1 new]
      exact ⟨known, admits⟩
  distinct := by
    rw [List.map_append, List.nodup_append]
    refine ⟨run.distinct, by simp, ?_⟩
    intro slot old new member same
    obtain ⟨modifier, inside, rfl⟩ := List.mem_map.1 old
    have absent := List.find?_eq_none.1 free modifier inside
    simp_all

/-- The modifiers of a run are the ones that fill the slots. -/
theorem Run.perm_filled (run : Run rules modifiers) (slots : List String) (nodup : slots.Nodup)
    (covers : ∀ rule ∈ rules, rule.slot ∈ slots) :
    (slots.flatMap (filled modifiers)).Perm modifiers := by
  have nodupFilled : (slots.flatMap (filled modifiers)).Nodup := by
    rw [List.nodup_flatMap]
    constructor
    · intro slot _
      cases found : filling? modifiers slot <;> simp [filled, found]
    · apply nodup.imp
      intro left right different modifier inLeft inRight
      have atLeft := (filling?_eq_some (Option.mem_toList.1 inLeft)).2
      have atRight := (filling?_eq_some (Option.mem_toList.1 inRight)).2
      exact different (atLeft.symm.trans atRight)
  rw [List.perm_ext_iff_of_nodup nodupFilled run.distinct.of_map]
  intro modifier
  rw [List.mem_flatMap]
  constructor
  · rintro ⟨slot, _, member⟩
    exact (filling?_eq_some (Option.mem_toList.1 member)).1
  · intro member
    refine ⟨modifier.rule.slot, covers _ (run.fits modifier member).1, ?_⟩
    rw [filled, filled_of_mem run.distinct member]
    exact Option.mem_toList.2 rfl

/-- What fills the slot of a rule that does not share it. -/
theorem Run.filling?_sole (run : Run rules modifiers) (sole : Sole rules rule)
    {modifier : Modifier} (h : filling? modifiers rule.slot = some modifier) :
    ∃ given, modifier = { rule, argument := given } ∧
      ArgumentSyntax.Admits rule.argument given := by
  obtain ⟨member, slot⟩ := filling?_eq_some h
  obtain ⟨known, fits⟩ := run.fits modifier member
  obtain rfl : modifier.rule = rule := (sole _ known).2.1 slot
  exact ⟨modifier.argument, rfl, fits⟩

/-- A keyword that is not shared is found in the slot of its rule. -/
theorem Run.get?_sole (run : Run rules modifiers) (sole : Sole rules rule) :
    get? modifiers rule.keyword = filling? modifiers rule.slot := by
  have same : ∀ modifier ∈ modifiers,
      (modifier.rule.keyword == rule.keyword) = (modifier.rule.slot == rule.slot) := by
    intro modifier member
    obtain ⟨keyword, slot⟩ := sole _ (run.fits modifier member).1
    rw [Bool.eq_iff_iff, beq_iff_eq, beq_iff_eq]
    exact keyword.trans slot.symm
  rw [get?, filling?, ← List.head?_filter, ← List.head?_filter, List.filter_congr same]

/-! ## What a record keeps of a slot -/

theorem Run.whenSet_has (run : Run rules modifiers) (keyword : String)
    (sole : Sole rules (flag keyword)) :
    whenSet (has modifiers keyword) (flag keyword) = filled modifiers keyword := by
  have lookup : get? modifiers keyword = filling? modifiers keyword := run.get?_sole sole
  rw [has, lookup, filled]
  cases found : filling? modifiers keyword with
  | none => rfl
  | some modifier =>
    obtain ⟨given, rfl, fits⟩ := run.filling?_sole sole found
    cases given with
    | none => rfl
    | some _ => cases fits

theorem Run.withLexeme_lexeme? (run : Run rules modifiers) (keyword : String)
    {kind : ArgumentKind} (worded : kind = .word ∨ kind = .integer)
    (sole : Sole rules (withArgument keyword kind)) :
    withLexeme (withArgument keyword kind) (lexeme? modifiers keyword) =
      filled modifiers keyword := by
  have lookup : get? modifiers keyword = filling? modifiers keyword := run.get?_sole sole
  rw [lexeme?, lookup, filled]
  cases found : filling? modifiers keyword with
  | none => rfl
  | some modifier =>
    obtain ⟨_ | word | reference | value, rfl, fits⟩ := run.filling?_sole sole found
    · cases fits
    · rfl
    · rcases worded with rfl | rfl <;> cases fits
    · rcases worded with rfl | rfl <;> cases fits

theorem Run.withOptionalLexeme_lexemeIfGiven? (run : Run rules modifiers) (keyword : String)
    (sole : Sole rules (withOptionalArgument keyword .integer)) :
    withOptionalLexeme (withOptionalArgument keyword .integer) (lexemeIfGiven? modifiers keyword) =
      filled modifiers keyword := by
  have lookup : get? modifiers keyword = filling? modifiers keyword := run.get?_sole sole
  rw [lexemeIfGiven?, lexeme?, lookup, filled]
  cases found : filling? modifiers keyword with
  | none => rfl
  | some modifier =>
    obtain ⟨_ | word | reference | value, rfl, fits⟩ := run.filling?_sole sole found
    · rfl
    · rfl
    · cases fits
    · cases fits

theorem Run.withSymbol_symbol? (run : Run rules modifiers) (keyword : String)
    (sole : Sole rules (withArgument keyword .symbol)) :
    withSymbol (withArgument keyword .symbol) (symbol? modifiers keyword) =
      filled modifiers keyword := by
  have lookup : get? modifiers keyword = filling? modifiers keyword := run.get?_sole sole
  rw [symbol?, lookup, filled]
  cases found : filling? modifiers keyword with
  | none => rfl
  | some modifier =>
    obtain ⟨_ | word | reference | value, rfl, fits⟩ := run.filling?_sole sole found
    · cases fits
    · cases fits
    · rfl
    · cases fits

theorem Run.withAttribute_attribute? (run : Run rules modifiers) (sole : Sole rules rule)
    {form : ArgumentSyntax} (argument : rule.argument = some form)
    (kind : form.kind = .attribute) (given : form.optional = false) :
    withAttribute rule (attribute? modifiers rule.keyword) = filled modifiers rule.slot := by
  rw [attribute?, run.get?_sole sole, filled]
  cases found : filling? modifiers rule.slot with
  | none => rfl
  | some modifier =>
    obtain ⟨_ | word | reference | value, rfl, fits⟩ := run.filling?_sole sole found
    all_goals rw [argument] at fits
    · simp [ArgumentSyntax.Admits, given] at fits
    · simp [ArgumentSyntax.Admits, kind, ArgumentKind.Takes] at fits
    · simp [ArgumentSyntax.Admits, kind, ArgumentKind.Takes] at fits
    · rfl

/-- A slot that is filled by one of several keywords without arguments. -/
theorem Run.oneOf_filled {V : Type} (run : Run rules modifiers) {slot : String}
    {ruleOf : V → ModifierRule} {ofKeyword? : String → Option V} {values : List V}
    (shared : ∀ rule ∈ rules, rule.slot = slot → rule ∈ values.map ruleOf)
    (argument : ∀ value, (ruleOf value).argument = none)
    (keyword : ∀ value, ofKeyword? (ruleOf value).keyword = some value) :
    (((filling? modifiers slot).bind fun modifier => ofKeyword? modifier.rule.keyword).map
      fun value => ({ rule := ruleOf value } : Modifier)).toList = filled modifiers slot := by
  rw [filled]
  cases found : filling? modifiers slot with
  | none => rfl
  | some modifier =>
    obtain ⟨member, atSlot⟩ := filling?_eq_some found
    obtain ⟨known, fits⟩ := run.fits modifier member
    obtain ⟨value, _, same⟩ := List.mem_map.1 (shared _ known atSlot)
    obtain ⟨rule, given⟩ := modifier
    subst same
    cases given with
    | none => simp [keyword]
    | some _ => simp [Modifier.Fits, ArgumentSyntax.Admits, argument] at fits

theorem Run.ofAddressSpace_addressSpace? (run : Run rules modifiers)
    (shared : ∀ rule ∈ rules, rule.slot = "address space" →
      rule = langAddressSpace ∨ rule = targetAddressSpace)
    (lang : ∀ rule ∈ rules, rule.keyword = "lang_address_space" → rule = langAddressSpace)
    (target : ∀ rule ∈ rules, rule.keyword = "target_address_space" → rule = targetAddressSpace) :
    ((addressSpace? modifiers).map ofAddressSpace).toList = filled modifiers "address space" := by
  rw [filled]
  have ofKeyword : ∀ {keyword : String} {rule : ModifierRule} {modifier : Modifier},
      (∀ other ∈ rules, other.keyword = keyword → other = rule) → rule.slot = "address space" →
      get? modifiers keyword = some modifier →
      modifier.rule = rule ∧ filling? modifiers "address space" = some modifier := by
    intro keyword rule modifier unique slot found
    have member := List.mem_of_find?_eq_some found
    have same : modifier.rule.keyword = keyword := by simpa using List.find?_some found
    have ruleEq := unique _ (run.fits modifier member).1 same
    refine ⟨ruleEq, ?_⟩
    rw [← slot, ← ruleEq]
    exact filled_of_mem run.distinct member
  have noKeyword : ∀ {keyword : String} {modifier : Modifier},
      get? modifiers keyword = none → modifier ∈ modifiers → modifier.rule.keyword ≠ keyword := by
    intro keyword modifier missing member
    simpa using List.find?_eq_none.1 missing modifier member
  have lexemeOf : ∀ {modifier : Modifier}, modifier.Fits →
      modifier.rule = langAddressSpace ∨ modifier.rule = targetAddressSpace →
      ∃ word, modifier.argument = some (.lexeme word) := by
    rintro ⟨rule, _ | word | reference | value⟩ fits (rfl | rfl)
    all_goals first | exact ⟨_, rfl⟩ | cases fits
  cases asLang : get? modifiers "lang_address_space" with
  | some modifier =>
    obtain ⟨ruleEq, found⟩ := ofKeyword lang rfl asLang
    have member := (filling?_eq_some found).1
    obtain ⟨word, given⟩ := lexemeOf (run.fits modifier member).2 (.inl ruleEq)
    obtain ⟨rule, argument⟩ := modifier
    subst ruleEq given
    simp [addressSpace?, lexeme?, asLang, found, ofAddressSpace]
  | none =>
    cases asTarget : get? modifiers "target_address_space" with
    | some modifier =>
      obtain ⟨ruleEq, found⟩ := ofKeyword target rfl asTarget
      have member := (filling?_eq_some found).1
      obtain ⟨word, given⟩ := lexemeOf (run.fits modifier member).2 (.inr ruleEq)
      obtain ⟨rule, argument⟩ := modifier
      subst ruleEq given
      simp [addressSpace?, lexeme?, asLang, asTarget, found, ofAddressSpace]
    | none =>
      cases found : filling? modifiers "address space" with
      | none => simp [addressSpace?, lexeme?, asLang, asTarget]
      | some modifier =>
        obtain ⟨member, slot⟩ := filling?_eq_some found
        rcases shared _ (run.fits modifier member).1 slot with ruleEq | ruleEq
        · exact absurd (congrArg ModifierRule.keyword ruleEq) (noKeyword asLang member)
        · exact absurd (congrArg ModifierRule.keyword ruleEq) (noKeyword asTarget member)

/-! ## The tables -/

theorem Run.linkage_filled (run : Run rules modifiers)
    (shared : ∀ rule ∈ rules, rule.slot = "linkage" → rule ∈ Linkage.all.map linkage) :
    ((linkage? modifiers).map fun value => ({ rule := linkage value } : Modifier)).toList =
      filled modifiers "linkage" :=
  run.oneOf_filled shared (fun _ => rfl) (fun value => by cases value <;> decide)

theorem Run.tls_filled (run : Run rules modifiers)
    (shared : ∀ rule ∈ rules, rule.slot = "tls" → rule ∈ TlsModel.all.map tls) :
    ((tls? modifiers).map fun value => ({ rule := tls value } : Modifier)).toList =
      filled modifiers "tls" :=
  run.oneOf_filled shared (fun _ => rfl) (fun value => by cases value <;> decide)

theorem beforeFunctionName_lawful : beforeFunctionName.Lawful := by
  intro modifiers run
  apply List.Perm.trans _ (run.perm_filled ["no_inline", "optnone", "dso_local", "comdat",
    "coroutine", "linkage"] (by decide) (by decide))
  apply List.Perm.of_eq
  rw [beforeFunctionName] at run ⊢
  simp only [run.whenSet_has "no_inline" (by decide), run.whenSet_has "optnone" (by decide),
    run.whenSet_has "dso_local" (by decide), run.whenSet_has "comdat" (by decide),
    run.whenSet_has "coroutine" (by decide), run.linkage_filled (by decide)]
  simp

theorem afterFunctionSignature_lawful : afterFunctionSignature.Lawful := by
  intro modifiers run
  apply List.Perm.trans _ (run.perm_filled ["cc", "alias", "global_ctor", "global_dtor",
    "special_member"] (by decide) (by decide))
  apply List.Perm.of_eq
  rw [afterFunctionSignature] at run ⊢
  have member : withAttribute specialMember (attribute? modifiers "special_member") =
      filled modifiers "special_member" :=
    run.withAttribute_attribute? (by decide) rfl rfl rfl
  simp only [run.withLexeme_lexeme? "cc" (.inl rfl) (by decide),
    run.withSymbol_symbol? "alias" (by decide),
    run.withOptionalLexeme_lexemeIfGiven? "global_ctor" (by decide),
    run.withOptionalLexeme_lexemeIfGiven? "global_dtor" (by decide), member]
  simp

theorem afterCall_lawful : afterCall.Lawful := by
  intro modifiers run
  apply List.Perm.trans _ (run.perm_filled ["cc", "extra", "side_effect"] (by decide) (by decide))
  apply List.Perm.of_eq
  rw [afterCall] at run ⊢
  have extra : withAttribute (withArgument "extra" .attribute) (attribute? modifiers "extra") =
      filled modifiers "extra" :=
    run.withAttribute_attribute? (by decide) rfl rfl rfl
  simp only [collectCall, listCall, run.withLexeme_lexeme? "cc" (.inl rfl) (by decide), extra,
    run.withLexeme_lexeme? "side_effect" (.inl rfl) (by decide)]
  simp

theorem afterTryCall_lawful : afterTryCall.Lawful := by
  intro modifiers run
  exact afterCall_lawful modifiers
    ⟨fun modifier member => ⟨List.mem_append_left [_] (run.fits modifier member).1,
      (run.fits modifier member).2⟩, run.distinct⟩

theorem ofMemoryAccess_lawful : ofMemoryAccess.Lawful := by
  intro modifiers run
  apply List.Perm.trans _ (run.perm_filled ["volatile", "align", "atomic"] (by decide) (by decide))
  apply List.Perm.of_eq
  rw [ofMemoryAccess] at run ⊢
  simp only [run.whenSet_has "volatile" (by decide),
    run.withLexeme_lexeme? "align" (.inr rfl) (by decide),
    run.withLexeme_lexeme? "atomic" (.inl rfl) (by decide)]
  simp

theorem beforeGlobalName_lawful : beforeGlobalName.Lawful := by
  intro modifiers run
  apply List.Perm.trans _ (run.perm_filled ["linkage", "constant", "comdat", "tls",
    "address space"] (by decide) (by decide))
  apply List.Perm.of_eq
  rw [beforeGlobalName] at run ⊢
  simp only [run.whenSet_has "constant" (by decide), run.whenSet_has "comdat" (by decide),
    run.linkage_filled (by decide), run.tls_filled (by decide),
    run.ofAddressSpace_addressSpace? (by decide) (by decide) (by decide)]
  simp

end ModifierTable

end CirText
