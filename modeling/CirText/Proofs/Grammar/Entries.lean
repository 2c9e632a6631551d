import CirText.Proofs.Grammar.Mentions

/-!
# Names and regions by scope

`Grammar.entries` lists the names and regions that a value mentions in the order in which they are
read, those in a scope of their own together. Except in a function, a scope of its own is that of a
region and of nothing else.
-/

namespace CirText

variable {R : Type}

/-- What is mentioned in the current scope or in that of the module, or all that is mentioned in a
scope of its own. -/
inductive Entry (R : Type) where
  /-- A name or a region of the current scope. -/
  | here (mention : Mention R)
  /-- The definition of a symbol, which belongs to the module wherever it stands. -/
  | global (defined : Definition)
  /-- The names and regions of a scope inside it. -/
  | apart (mentions : List (Mention R))

/-- What an entry mentions. -/
def Entry.mentions : Entry R → List (Mention R)
  | here mention => [mention]
  | global defined => [.definition defined]
  | apart mentions => mentions

/-- The region that is mentioned, if it is one. -/
def Mention.region? : Mention R → Option R
  | .region inner => some inner
  | _ => none

@[simp]
theorem Mention.region?_region (inner : R) : (Mention.region inner).region? = some inner :=
  rfl

@[simp]
theorem Mention.region?_reference (used : Reference) :
    (Mention.reference (R := R) used).region? = none :=
  rfl

@[simp]
theorem Mention.region?_definition (defined : Definition) :
    (Mention.definition (R := R) defined).region? = none :=
  rfl

/-- The regions that an entry mentions. -/
def Entry.regions (entry : Entry R) : List R :=
  entry.mentions.filterMap Mention.region?

theorem Entry.mem_mentions_of_regions {entry : Entry R} {inner : R}
    (member : inner ∈ entry.regions) :
    .region inner ∈ entry.mentions := by
  obtain ⟨mention, inside, isRegion⟩ := List.mem_filterMap.1 member
  cases mention with
  | region other =>
    cases isRegion
    exact inside
  | reference | definition => cases isRegion

/-- Whether an entry is a name, or a region in a scope of its own. -/
def Entry.IsSimple : Entry R → Prop
  | here mention => mention.region? = none
  | global _ => True
  | apart mentions => ∃ inner, mentions = [.region inner]

/-- The symbol that an argument of a modifier refers to. -/
def Argument.entries : Argument → List (Entry R)
  | .symbol reference => [.here (.reference reference)]
  | .lexeme _ | .attribute _ => []

/-- The symbol that a modifier refers to. -/
def Modifier.entries (modifier : Modifier) : List (Entry R) :=
  match modifier.argument, modifier.rule.argument with
  | some argument, some _ => argument.entries
  | _, _ => []

theorem Modifier.mentions_entries (modifier : Modifier) :
    (modifier.entries (R := R)).flatMap Entry.mentions = mentions modifier.pieces := by
  obtain ⟨rule, argument⟩ := modifier
  cases argument with
  | none => rfl
  | some argument =>
    cases form : rule.argument with
    | none => simp [Modifier.entries, Modifier.pieces, form]
    | some form =>
      cases argument <;>
        simp [Modifier.entries, Modifier.pieces, form, Argument.entries, Argument.piece,
          Entry.mentions]

namespace Grammar

variable {α : Type}

/-- The names and regions in a value, in the order in which they are read. -/
def entries : {α : Type} → Grammar R α → α → List (Entry R)
  | _, .name _, a => [.here (.reference a)]
  | _, .definition .symbol, a => [.global a]
  | _, .definition .value, a | _, .definition .label, a => [.here (.definition a)]
  | _, .region _ _, a => [.here (.region a)]
  | _, .seq first second, (a, b) => first.entries a ++ second.entries b
  | _, .view as inner, b =>
    match as.read b with
    | some a => inner.entries a
    | none => []
  | _, .optional _ _, none => []
  | _, .optional _ inner, some a => inner.entries a
  | _, .choice _ first _, .inl a => first.entries a
  | _, .choice _ _ second, .inr b => second.entries b
  | _, .separated item, (head, tail) => (head :: tail).flatMap item.entries
  | _, .listed item, items => items.flatMap item.entries
  | _, .listedWithEllipsis item, (items, _) => items.flatMap item.entries
  | _, .bracketed _ item, items => items.flatMap item.entries
  | _, .repeated _ item, items => items.flatMap item.entries
  | _, .modifierRun table, a => (table.list a).flatMap Modifier.entries
  | _, .spanned inner, (a, _) => inner.entries a
  | _, .binder _ inner, (defined, a) => .here (.definition defined) :: inner.entries a
  | _, .inScope inner, a => [.apart ((inner.entries a).flatMap Entry.mentions)]
  | _, .recommended _ _ inner, a => inner.entries a
  | _, .blank, _ | _, .punct _, _ | _, .word _, _ | _, .lexeme _ _, _ | _, .oneOf _ _, _
  | _, .type, _ | _, .attributeOf _, _ | _, .namedAttribute, _ | _, .trailingAttribute, _ => []

@[simp]
theorem entries_view {β : Type} (as : View α β) (inner : Grammar R α) (a : α) :
    (view as inner).entries (as.build a) = inner.entries a := by
  rw [entries, as.read_build]

theorem mentions_entries_items {item : Grammar R α}
    (same : ∀ a, (item.entries a).flatMap Entry.mentions = CirText.mentions (item.pieces a))
    (items : List α) : (items.flatMap item.entries).flatMap Entry.mentions =
      (items.map item.pieces).flatMap CirText.mentions := by
  simp only [List.flatMap_assoc, same, List.flatMap_map]

/-- The names and regions by scope are those among the pieces of a value. -/
theorem mentions_entries {α : Type} (grammar : Grammar R α) (a : α) :
    (grammar.entries a).flatMap Entry.mentions = CirText.mentions (grammar.pieces a) := by
  induction grammar with
  | blank | punct | word | lexeme | oneOf | type | attributeOf | namedAttribute => rfl
  | name | region => rfl
  | definition kind => cases kind <;> rfl
  | trailingAttribute => cases a <;> rfl
  | seq first second ihFirst ihSecond =>
    simp only [entries, pieces, List.flatMap_append, mentions_append, ihFirst, ihSecond]
  | view as inner ih =>
    unfold entries pieces
    cases as.read a with
    | none => rfl
    | some inside => exact ih inside
  | optional present inner ih =>
    cases a with
    | none => rfl
    | some inside => exact ih inside
  | choice isFirst first second ihFirst ihSecond =>
    cases a with
    | inl inside => exact ihFirst inside
    | inr inside => exact ihSecond inside
  | separated item ih =>
    obtain ⟨head, tail⟩ := a
    rw [pieces, mentions_commaed]
    exact mentions_entries_items ih (head :: tail)
  | listed item ih | repeated next item ih =>
    rw [pieces, mentions_commaed]
    exact mentions_entries_items ih a
  | listedWithEllipsis item ih =>
    obtain ⟨items, ellipsis⟩ := a
    rw [pieces, mentions_commaed, List.flatMap_append, ← mentions_entries_items ih items]
    cases ellipsis
    · exact (List.append_nil _).symm
    · exact (List.append_nil _).symm
  | bracketed separator item ih =>
    rw [pieces, mentions_punct, mentions_append, mentions_arrange]
    refine (mentions_entries_items ih a).trans ?_
    exact (List.append_nil _).symm
  | modifierRun table =>
    simp only [entries, pieces, List.flatMap_assoc, mentions_flatMap, Modifier.mentions_entries]
  | spanned inner ih => exact ih a.1
  | binder what inner ih => exact congrArg (_ :: ·) (ih a.2)
  | inScope inner ih => exact (List.append_nil _).trans (ih a)
  | recommended opcode warning inner ih => exact ih a

/-! ## Scopes of their own -/

/-- Whether all that is mentioned is in the current scope and has no region, or one at most if that
is allowed. -/
def flat (allowed : Bool) : {α : Type} → Grammar R α → Bool
  | _, .region _ _ => allowed
  | _, .definition kind => kind != .symbol
  | _, .seq first second => first.flat false && second.flat allowed
  | _, .choice _ first second => first.flat allowed && second.flat allowed
  | _, .view _ inner | _, .optional _ inner | _, .spanned inner | _, .binder _ inner
  | _, .recommended _ _ inner => inner.flat allowed
  | _, .separated item | _, .listed item | _, .listedWithEllipsis item | _, .bracketed _ item
  | _, .repeated _ item => item.flat false
  | _, .inScope _ => false
  | _, _ => true

/-- What is mentioned in the current scope only, with no more than a number of regions. -/
structure Flat (count : Nat) (entries : List (Entry R)) : Prop where
  here : ∀ entry ∈ entries, ∃ mention, entry = .here mention
  few : (entries.flatMap Entry.regions).length ≤ count

theorem Flat.nil (count : Nat) : Flat count ([] : List (Entry R)) :=
  ⟨by rintro _ ⟨⟩, Nat.zero_le _⟩

theorem Flat.mono {count more : Nat} {entries : List (Entry R)} (flat : Flat count entries)
    (le : count ≤ more) : Flat more entries :=
  ⟨flat.here, Nat.le_trans flat.few le⟩

theorem Flat.append {left right : Nat} {first second : List (Entry R)} (flatFirst : Flat left first)
    (flatSecond : Flat right second) : Flat (left + right) (first ++ second) where
  here entry member :=
    (List.mem_append.1 member).elim (flatFirst.here entry) (flatSecond.here entry)
  few := by
    rw [List.flatMap_append, List.length_append]
    exact Nat.add_le_add flatFirst.few flatSecond.few

theorem Flat.flatMap {entries : α → List (Entry R)} (flat : ∀ a, Flat 0 (entries a))
    (items : List α) : Flat 0 (items.flatMap entries) := by
  induction items with
  | nil => exact .nil 0
  | cons a items ih => exact (flat a).append ih

/-- A name is no region. -/
theorem Flat.name {mention : Mention R} (count : Nat) (name : mention.region? = none) :
    Flat count [.here mention] where
  here entry member := ⟨mention, List.mem_singleton.1 member⟩
  few := by simp [Entry.regions, Entry.mentions, name]

theorem Flat.modifier (modifier : Modifier) : Flat 0 (modifier.entries (R := R)) := by
  obtain ⟨rule, argument⟩ := modifier
  unfold Modifier.entries
  split
  · rename_i given _ _ _
    cases given with
    | lexeme word => exact .nil 0
    | «symbol» used => exact .name 0 rfl
    | «attribute» value => exact .nil 0
  · exact .nil 0

/-- What a flat grammar describes is mentioned in the current scope. -/
theorem entries_flat {α : Type} (grammar : Grammar R α) {allowed : Bool}
    (isFlat : grammar.flat allowed = true) (a : α) : Flat allowed.toNat (grammar.entries a) := by
  have ofItems : ∀ {α : Type} {item : Grammar R α} {allowed : Bool} (items : List α),
      item.flat false = true → (∀ {allowed}, item.flat allowed = true → ∀ a,
        Flat allowed.toNat (item.entries a)) → Flat allowed.toNat (items.flatMap item.entries) :=
    fun items isFlat ih => (Flat.flatMap (ih isFlat) items).mono (Nat.zero_le _)
  induction grammar generalizing allowed with
  | blank | punct | word | lexeme | oneOf | type | attributeOf | namedAttribute
  | trailingAttribute => exact .nil _
  | name kind => exact .name _ rfl
  | definition kind =>
    cases kind with
    | value | label => exact .name _ rfl
    | «symbol» => cases isFlat
  | region kind implicitTerminator =>
    obtain rfl : allowed = true := isFlat
    exact ⟨fun entry member => ⟨_, List.mem_singleton.1 member⟩, Nat.le_refl _⟩
  | seq first second ihFirst ihSecond =>
    obtain ⟨left, right⟩ := Bool.and_eq_true_iff.1 isFlat
    exact ((ihFirst left a.1).append (ihSecond right a.2)).mono (Nat.le_of_eq (Nat.zero_add _))
  | view as inner ih =>
    unfold entries
    split
    · exact ih isFlat _
    · exact .nil _
  | optional present inner ih =>
    cases a with
    | none => exact .nil _
    | some inside => exact ih isFlat inside
  | choice isFirst first second ihFirst ihSecond =>
    obtain ⟨left, right⟩ := Bool.and_eq_true_iff.1 isFlat
    cases a with
    | inl inside => exact ihFirst left inside
    | inr inside => exact ihSecond right inside
  | separated item ih => exact ofItems (a.1 :: a.2) isFlat ih
  | listed item ih | bracketed separator item ih | repeated next item ih =>
    exact ofItems a isFlat ih
  | listedWithEllipsis item ih => exact ofItems a.1 isFlat ih
  | modifierRun table => exact (Flat.flatMap Flat.modifier (table.list a)).mono (Nat.zero_le _)
  | spanned inner ih => exact ih isFlat a.1
  | binder what inner ih =>
    have defined : Flat 0 [Entry.here (R := R) (.definition a.1)] := .name 0 rfl
    exact (defined.append (ih isFlat a.2)).mono (Nat.le_of_eq (Nat.zero_add _))
  | inScope inner ih => cases isFlat
  | recommended opcode warning inner ih => exact ih isFlat a

/-- Whether every region is in a scope of its own, and every scope is that of a region. -/
def regionScopes : {α : Type} → Grammar R α → Bool
  | _, .region _ _ => false
  | _, .inScope (.region _ _) => true
  | _, .inScope _ => false
  | _, .seq first second | _, .choice _ first second => first.regionScopes && second.regionScopes
  | _, .view _ inner | _, .optional _ inner | _, .separated inner | _, .listed inner
  | _, .listedWithEllipsis inner | _, .bracketed _ inner | _, .repeated _ inner
  | _, .spanned inner | _, .binder _ inner | _, .recommended _ _ inner => inner.regionScopes
  | _, _ => true

theorem regionScopes_modifier (modifier : Modifier) :
    ∀ entry ∈ modifier.entries (R := R), entry.IsSimple := by
  obtain ⟨rule, argument⟩ := modifier
  unfold Modifier.entries
  intro entry member
  split at member
  · rename_i given _ _ _
    cases given with
    | lexeme word => cases member
    | «symbol» used =>
      rw [List.mem_singleton.1 member]
      rfl
    | «attribute» value => cases member
  · cases member

/-- If every region is in a scope of its own, and every scope is that of a region, every entry is a
name or such a scope. -/
theorem entries_simple {α : Type} (grammar : Grammar R α) (each : grammar.regionScopes = true)
    (a : α) : ∀ entry ∈ grammar.entries a, entry.IsSimple := by
  have ofItems : ∀ {α : Type} {item : Grammar R α} (items : List α),
      (∀ a, ∀ entry ∈ item.entries a, entry.IsSimple) →
      ∀ entry ∈ items.flatMap item.entries, entry.IsSimple := by
    intro α item items ih entry member
    obtain ⟨a, _, inside⟩ := List.mem_flatMap.1 member
    exact ih a entry inside
  induction grammar with
  | blank | punct | word | lexeme | oneOf | type | attributeOf | namedAttribute
  | trailingAttribute => rintro entry ⟨⟩
  | name kind =>
    intro entry member
    rw [List.mem_singleton.1 member]
    rfl
  | definition kind =>
    intro entry member
    cases kind
    all_goals
      rw [List.mem_singleton.1 member]
      trivial
  | region kind implicitTerminator => cases each
  | seq first second ihFirst ihSecond =>
    obtain ⟨left, right⟩ := Bool.and_eq_true_iff.1 each
    intro entry member
    exact (List.mem_append.1 member).elim (ihFirst left a.1 entry) (ihSecond right a.2 entry)
  | view as inner ih =>
    unfold entries
    split
    · exact ih each _
    · rintro entry ⟨⟩
  | optional present inner ih =>
    cases a with
    | none => rintro entry ⟨⟩
    | some inside => exact ih each inside
  | choice isFirst first second ihFirst ihSecond =>
    obtain ⟨left, right⟩ := Bool.and_eq_true_iff.1 each
    cases a with
    | inl inside => exact ihFirst left inside
    | inr inside => exact ihSecond right inside
  | separated item ih => exact ofItems (a.1 :: a.2) (ih each)
  | listed item ih | bracketed separator item ih | repeated next item ih =>
    exact ofItems a (ih each)
  | listedWithEllipsis item ih => exact ofItems a.1 (ih each)
  | modifierRun table =>
    intro entry member
    obtain ⟨modifier, _, inside⟩ := List.mem_flatMap.1 member
    exact regionScopes_modifier modifier entry inside
  | spanned inner ih => exact ih each a.1
  | binder what inner ih =>
    intro entry member
    rcases List.mem_cons.1 member with rfl | inside
    · rfl
    · exact ih each a.2 entry inside
  | inScope inner ih =>
    cases inner with
    | region kind implicitTerminator =>
      intro entry member
      rw [List.mem_singleton.1 member]
      exact ⟨a, rfl⟩
    | _ => cases each
  | recommended opcode warning inner ih => exact ih each a

theorem body_regionScopes {opcode : Opcode} (other : opcode ≠ .func) (form : Form) :
    (body (R := R) opcode form).regionScopes = true := by
  unfold body
  split
  · exact absurd rfl other
  all_goals rfl

/-- In a function, all that is mentioned after its name is in a scope of its own. -/
theorem entries_func (form : Form) (function : Function R) :
    (body .func form).entries ⟨.compound (.func function), none⟩ =
      [.global function.name,
        .apart ((function.parameters.filterMap (·.name)).map .definition ++
          function.traits.aliasFor.toList.map .reference ++
            function.body.toList.map .region)] := by
  obtain ⟨modifiers, name, parameters, variadic, result, traits, annotations, attributes, inner⟩ :=
    function
  have nameless : (modifierRun (R := R) .beforeFunctionName).entries modifiers = [] := by
    obtain ⟨_ | _, _ | _, _ | _, _ | _, _ | _, _ | linkage⟩ := modifiers <;> rfl
  refine (entries_view _ _ (modifiers, name, (parameters, variadic), result, traits, annotations,
    attributes, inner)).trans ?_
  rw [entries, nameless]
  change [Entry.global name, .apart _] = _
  rw [mentions_entries]
  cases inner <;> simp

/-! ## The order of regions -/

/-- Whether the regions of what a grammar builds stand in the order in which it describes them. -/
def OrdersRegions (grammar : Grammar R (Body R)) : Prop :=
  ∀ b, grammar.Builds b →
    (CirText.mentions (grammar.pieces b)).filterMap Mention.region? = b.payload.regions

theorem OrdersRegions.ofView {as : View α (Body R)} {inner : Grammar R α}
    (listed : ∀ a, (CirText.mentions (inner.pieces a)).filterMap Mention.region? =
      (as.build a).payload.regions) : (view as inner).OrdersRegions := by
  rintro _ ⟨a, rfl⟩
  rw [pieces_view]
  exact listed a

/-- There is nothing to order if nothing that a grammar describes is a region. -/
theorem OrdersRegions.ofNone {opcode : Opcode} {grammar : Grammar R (Body R)}
    (describes : grammar.Describes opcode) (none : grammar.flat false = true) :
    grammar.OrdersRegions := by
  intro b built
  have regions := grammar.entries_flat none b
  have regionless : (CirText.mentions (grammar.pieces b)).filterMap Mention.region? = [] := by
    rw [← mentions_entries, List.filterMap_flatMap]
    exact List.eq_nil_of_length_eq_zero (Nat.le_zero.1 regions.few)
  have same := (describes.mentions b built).filterMap Mention.region?
  rw [regionless] at same ⊢
  have given : b.payload.mentions.filterMap Mention.region? = b.payload.regions := by
    simp [Payload.mentions, List.filterMap_append, List.filterMap_map, Function.comp_def]
  exact (List.nil_perm.1 (given ▸ same)).symm

attribute [local simp] Payload.regions Compound.regions Function.comp_def List.filterMap_cons

theorem ifElse_ordersRegions : (ifElse (R := R)).OrdersRegions :=
  .ofView fun (cond, thenRegion, elseRegion, extra, result) => by simp

theorem ternary_ordersRegions : (ternary (R := R)).OrdersRegions :=
  .ofView fun ((cond, trueRegion, falseRegion), extra, typing) => by simp

theorem scope_ordersRegions : (scope (R := R)).OrdersRegions :=
  .ofView fun (body, cleanup, extra, result) => by simp

theorem switch_ordersRegions : (switch (R := R)).OrdersRegions :=
  .ofView fun (cond, body, extra) => by simp

theorem caseArm_ordersRegions : (caseArm (R := R)).OrdersRegions :=
  .ofView fun ((kind, values), body) => by simp [pieces, identifier]

theorem loop_ordersRegions : (loop (R := R)).OrdersRegions :=
  .ofView fun (kind, (cond, body, step), extra, result) => by
    cases cond <;> cases step <;> simp [identifier, colonRegion]

theorem forLoop_ordersRegions : (forLoop (R := R)).OrdersRegions :=
  .ofView fun (cond, body, step, extra) => by simp [wordRegion]

theorem whileOf_ordersRegions {cond body : Grammar R R} (first : cond.Encloses)
    (second : body.Encloses) : (whileOf cond body).OrdersRegions :=
  .ofView fun (cond, body, extra) => by simp [first cond, second body]

theorem doWhileOf_ordersRegions {body cond : Grammar R R} (first : body.Encloses)
    (second : cond.Encloses) : (doWhileOf body cond).OrdersRegions :=
  .ofView fun (body, cond, extra) => by simp [first body, second cond]

theorem await_ordersRegions : (await (R := R)).OrdersRegions :=
  .ofView fun ((kind, ready, suspend, resume), extra) => by simp [identifier, colonRegion]

theorem tryCatch_ordersRegions : (tryCatch (R := R)).OrdersRegions :=
  .ofView fun (body, clauses, cleanup, extra) => by cases clauses <;> simp

theorem func_ordersRegions : (func (R := R)).OrdersRegions :=
  .ofView fun (modifiers, defined, (parameters, variadic), result, traits, annotations, attributes,
      body) => by
    cases body <;> simp

theorem global_ordersRegions : (global (R := R)).OrdersRegions :=
  .ofView fun (visibility, modifiers, defined, init, result, annotations, extra) => by
    cases init <;> simp [string]

/-- The regions of an operation stand in the order of the text. -/
theorem body_ordersRegions (opcode : Opcode) (form : Form) :
    (body (R := R) opcode form).OrdersRegions := by
  unfold body
  split
  · exact func_ordersRegions
  · exact .ofNone callOf_value_describes rfl
  · exact .ofNone callOf_symbol_describes rfl
  · exact .ofNone tryCallWithPointer_describes rfl
  · exact .ofNone tryCallWithSuccessors_describes rfl
  · exact .ofNone ret_describes rfl
  · exact .ofNone alloca_describes rfl
  · exact .ofNone load_describes rfl
  · exact .ofNone store_describes rfl
  · exact .ofNone (constOf_describes fun value => rfl) rfl
  · exact .ofNone (constOf_describes fun value => rfl) rfl
  · exact .ofNone (constOf_describes fun value => rfl) rfl
  · exact .ofNone castInParens_describes rfl
  · exact .ofNone castBare_describes rfl
  · exact .ofNone binop_describes rfl
  · exact .ofNone cmp_describes rfl
  · exact .ofNone unary_describes rfl
  · exact .ofNone br_describes rfl
  · exact .ofNone brcond_describes rfl
  · exact .ofNone yield_describes rfl
  · exact ifElse_ordersRegions
  · exact scope_ordersRegions
  · exact loop_ordersRegions
  · exact forLoop_ordersRegions
  · exact whileOf_ordersRegions (fun _ => rfl) fun _ => rfl
  · exact whileOf_ordersRegions (fun _ => rfl) fun _ => rfl
  · exact doWhileOf_ordersRegions (fun _ => rfl) fun _ => rfl
  · exact doWhileOf_ordersRegions (fun _ => rfl) fun _ => rfl
  · exact .ofNone condition_describes rfl
  · exact await_ordersRegions
  · exact global_ordersRegions
  · exact .ofNone getGlobal_describes rfl
  · exact .ofNone strideInParens_describes rfl
  · exact .ofNone strideBare_describes rfl
  · exact tryCatch_ordersRegions
  · exact .ofNone throw_describes rfl
  · exact .ofNone catchParam_describes rfl
  · exact .ofNone (bare_describes .resume) rfl
  · exact .ofNone structElementAddr_describes rfl
  · exact .ofNone getMember_describes rfl
  · exact switch_ordersRegions
  · exact caseArm_ordersRegions
  · exact ternary_ordersRegions
  · exact .ofNone select_describes rfl
  · exact .ofNone copyTo_describes rfl
  · exact .ofNone copyComma_describes rfl
  · exact .ofNone (bare_describes .breakLoop) rfl
  · exact .ofNone (bare_describes .continueLoop) rfl
  · exact .ofNone (bare_describes .unreachable) rfl
  · exact .ofNone (bare_describes .trap) rfl
  · exact .ofNone objsizeInParens_describes rfl
  · exact .ofNone objsizeBare_describes rfl
  · exact .ofNone shiftInParens_describes rfl
  · exact .ofNone shiftBare_describes rfl
  · exact .ofNone (countBits_describes .clrsb) rfl
  · exact .ofNone (countBits_describes .ffs) rfl
  · exact .ofNone (countBits_describes .parity) rfl
  · exact .ofNone (countBitsOrPoison_describes .clz) rfl
  · exact .ofNone (countBitsOrPoison_describes .ctz) rfl
  · exact .ofNone (countBitsOrPoison_describes .popcount) rfl
  · exact .ofNone dynCastInParens_describes rfl
  · exact .ofNone dynCastBare_describes rfl
  · exact .ofNone blockAddress_describes rfl
  · exact .ofNone indirectBr_describes rfl
  · exact .ofNone labelMark_describes rfl
  · exact .ofNone memcpy_describes rfl
  · exact .ofNone memchrInParens_describes rfl
  · exact .ofNone memchr_describes rfl
  · exact .ofNone fabs_describes rfl
  · exact .ofNone stackSave_describes rfl
  · exact .ofNone stackRestore_describes rfl
  · exact .ofNone getRuntimeMember_describes rfl

end Grammar

end CirText
