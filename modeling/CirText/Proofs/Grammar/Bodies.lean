import CirText.Proofs.Grammar.Laid
import CirText.Proofs.Operation.Sound

/-!
# How an operation lies in the text

The body of an operation lies in the text as its grammar describes it. So the operation contains its
names, places and regions, and they belong to the scope that the operation stands in. In a function
they belong to a scope inside it.
-/

namespace CirText

/-! ## Entries of bodies -/

namespace Grammar

variable {R : Type} {opcode : Opcode} {form : Form} {b : Body R}

/-- The body of a function is that of a function. -/
theorem builds_func (built : (body (R := R) .func form).Builds b) :
    ∃ function, b = ⟨.compound (.func function), none⟩ := by
  obtain ⟨⟨modifiers, name, parameters, result, traits, annotations, attributes, inner⟩, rfl⟩ :=
    built
  exact ⟨_, rfl⟩

/-- Every region of an operation has a scope of its own. -/
theorem entries_apart (built : (body opcode form).Builds b) (inner : R) :
    .here (.region inner) ∉ (body opcode form).entries b := by
  intro member
  by_cases isFunction : opcode = .func
  · subst isFunction
    obtain ⟨function, rfl⟩ := builds_func built
    rw [entries_func] at member
    simp at member
  · have simple := entries_simple _ (body_regionScopes isFunction form) b _ member
    cases simple

theorem mem_entries_iff (built : (body opcode form).Builds b) {mention : Mention R} :
    (∃ entry ∈ (body opcode form).entries b, mention ∈ entry.mentions) ↔
      mention ∈ b.payload.mentions := by
  rw [← ((body_describes opcode form).mentions b built).mem_iff, ← mentions_entries,
    List.mem_flatMap]

theorem regions_entries (built : (body opcode form).Builds b) :
    ((body opcode form).entries b).flatMap Entry.regions = b.payload.regions := by
  rw [← body_ordersRegions opcode form b built, ← mentions_entries, List.filterMap_flatMap]
  rfl

end Grammar

namespace Parser

variable {text : List Char} {levels : Nat} {before after : Stage} {opcode : Opcode} {form : Form}
  {body : Body (Region Operation)}

/-- Where no region is in the current scope, each of them opens its scope before those inside it. -/
theorem flatMap_scopes_apart {entries : List (Entry (Region Operation))}
    (apart : ∀ inner, .here (.region inner) ∉ entries) :
    entries.flatMap Entry.scopes =
      (entries.flatMap Entry.regions).flatMap fun region => region.scope :: region.innerScopes := by
  rw [List.flatMap_assoc]
  apply List.flatMap_congr
  intro entry member
  cases entry with
  | here mention =>
    cases mention with
    | region inner => exact absurd member (apart inner)
    | reference | definition => rfl
  | global defined => rfl
  | apart mentions => rfl

/-- How the body of an operation lies between two stages, as far as regions are looked at from the
outside. -/
abbrev LaidBody (text : List Char) (levels : Nat) (opcode : Opcode) (form : Form) (before : Stage)
    (body : Body (Region Operation)) (after : Stage) : Prop :=
  Laid text (Region.Thorough text levels) before ((Grammar.body opcode form).extents body)
    ((Grammar.body opcode form).entries body) after

namespace LaidBody

variable (laid : LaidBody text levels opcode form before body after)
  (built : (Grammar.body opcode form).Builds body)

include laid built

theorem covers_mention {mention : Mention (Region Operation)}
    (member : mention ∈ body.payload.mentions) : Stage.Covers text before after mention.span := by
  obtain ⟨entry, inEntries, inEntry⟩ := (Grammar.mem_entries_iff built).2 member
  exact laid.covers entry inEntries mention inEntry

/-- The regions of an operation, the scopes that are opened for them, and what is known of them. -/
theorem region {region : Region Operation} (member : region ∈ body.payload.regions)
    {table : SymbolTable} (grows : after.tracker.table.GrowsTo table) :
    region.Thorough text levels table ∧ (table.scope region.scope).parent = some before.scope := by
  rw [← Grammar.regions_entries built] at member
  obtain ⟨entry, inEntries, inEntry⟩ := List.mem_flatMap.1 member
  refine ⟨laid.facts entry inEntries region inEntry table grows, ?_⟩
  have mentioned := Entry.mem_mentions_of_regions inEntry
  cases entry with
  | here mention =>
    obtain rfl := List.mem_singleton.1 mentioned
    exact absurd inEntries (Grammar.entries_apart built region)
  | global defined => cases inEntry
  | apart mentions =>
    obtain ⟨scope, same, parent⟩ := laid.apart mentions inEntries
    have here : region.scope = scope := same (.region region) mentioned
    rw [here]
    exact parent table grows

theorem scopes : Ascends before.size after.size
    (body.payload.regions.flatMap fun region => region.scope :: region.innerScopes) := by
  have ascends := Laid.scopes laid
  rwa [flatMap_scopes_apart (Grammar.entries_apart built), Grammar.regions_entries built] at ascends

/-- Except in a function, the names that an operation uses belong to the scope that it stands in. -/
theorem reference (other : opcode ≠ .func) {used : Reference}
    (member : used ∈ body.payload.references) : used.scope = before.scope := by
  have mentioned : .reference used ∈ body.payload.mentions := by
    simp [Payload.mentions, member]
  obtain ⟨entry, inEntries, inEntry⟩ := (Grammar.mem_entries_iff built).2 mentioned
  have simple :=
    Grammar.entries_simple _ (Grammar.body_regionScopes other form) body entry inEntries
  cases entry with
  | here mention =>
    obtain rfl := List.mem_singleton.1 inEntry
    exact laid.here _ inEntries
  | global defined => simp [Entry.mentions] at inEntry
  | apart mentions =>
    obtain ⟨region, rfl⟩ := simple
    simp [Entry.mentions] at inEntry

/-- The parameters of a function belong to the scope of its body. -/
theorem parameter {function : Function (Region Operation)}
    (isFunction : body.payload = .compound (.func function)) {inner : Region Operation}
    (hasBody : inner ∈ function.body) {parameter : Parameter}
    (member : parameter ∈ function.parameters)
    {name : Definition} (named : name ∈ parameter.name) : name.scope = inner.scope := by
  obtain rfl : opcode = .func := by
    have same := (Grammar.body_describes opcode form).opcode body built
    rw [isFunction] at same
    exact same.symm
  obtain ⟨other, rfl⟩ := Grammar.builds_func built
  obtain rfl : other = function := by simpa using isFunction
  have listed := laid.apart
  rw [Grammar.entries_func] at listed
  obtain ⟨scope, same, _⟩ := listed _ (List.mem_cons_of_mem _ List.mem_cons_self)
  have defined : name ∈ other.parameters.filterMap (·.name) := List.mem_filterMap.2
    ⟨parameter, member, named⟩
  have ofName : name.scope = scope := same (.definition name) <|
    List.mem_append_left _ (List.mem_append_left _ (List.mem_map_of_mem defined))
  have ofBody : inner.scope = scope := same (.region inner) (by simp [Option.mem_def.1 hasBody])
  exact ofName.trans ofBody.symm

/-- An operation with a body that has been read is as it should be. -/
theorem throughout {first : Stage} (stretch : Stage.Stretch text first before)
    {node : Node (Region Operation)} (payload : node.payload = body.payload)
    (extra : node.extra = body.extra) (span : node.span = ⟨first.here, after.lastStop⟩)
    (on : node.span.On text)
    (results : ∀ result ∈ node.results, result.scope = first.scope ∧
      Stage.Covers text first after result.span)
    {table : SymbolTable} (grows : after.tracker.table.GrowsTo table) :
    (Operation.of node).Throughout (Operation.Sound text table) levels first.scope := by
  have within : ∀ {inner}, Stage.Covers text first after inner → Span.Within text node.span inner :=
    fun covers => ⟨covers.on, span ▸ covers.start, span ▸ covers.stop⟩
  have inside : ∀ {inner}, Stage.Covers text before after inner →
      Span.Within text node.span inner :=
    fun covers => within (covers.widen stretch (.refl laid.stretch.stop))
  have regions : ∀ region ∈ node.regions, region.Thorough text levels table ∧
      (table.scope region.scope).parent = some before.scope ∧
        Span.Within text node.span region.span := by
    intro region member
    have given : region ∈ body.payload.regions := payload ▸ member
    have found := laid.region built given grows
    have mentioned : .region region ∈ body.payload.mentions := by simp [Payload.mentions, given]
    exact ⟨found.1, found.2, inside (laid.covers_mention built mentioned)⟩
  apply Operation.Sound.throughout
  · constructor
    · exact on
    · intro used member
      have given : used ∈ body.payload.references :=
        payload ▸ (node.references_perm.mem_iff.1 member)
      have mentioned : .reference used ∈ body.payload.mentions := by simp [Payload.mentions, given]
      exact inside (laid.covers_mention built mentioned)
    · intro defined member
      rcases List.mem_append.1 member with own | inRegion
      · rcases List.mem_append.1 own with result | named
        · exact within (results defined result).2
        · have given : defined ∈ body.payload.definitions := payload ▸ named
          have mentioned : .definition defined ∈ body.payload.mentions := by
            simp [Payload.mentions, given]
          exact inside (laid.covers_mention built mentioned)
      · obtain ⟨region, inNode, inside⟩ := List.mem_flatMap.1 inRegion
        have found := regions region inNode
        exact (found.1.sound.placed.definitions inside).trans found.2.2
    · intro extent member
      have given : extent ∈ body.extents := by
        have same : (Operation.of node).node.extents = body.extents := by
          change node.payload.extents ++ node.extra.toList.map AttributeText.extent = _
          rw [payload, extra]
          rfl
        exact same ▸ member
      have kept := laid.keeps extent (Grammar.body_locates opcode form body built extent given)
      exact ⟨inside kept.covers, kept.text⟩
    · exact fun region member => (regions region member).2.2
    · have ordered := laid.ordered
      rw [Grammar.regions_entries built, ← payload] at ordered
      exact ordered
  · constructor
    · exact fun result member => (results result member).1
    · intro other used member
      have given : used ∈ body.payload.references :=
        payload ▸ (node.references_perm.mem_iff.1 member)
      have code : opcode ≠ .func := by
        have same := (Grammar.body_describes opcode form).opcode body built
        rw [← payload] at same
        exact fun isFunction => other (same.trans isFunction)
      exact (laid.reference built code given).trans stretch.onward.scope_eq
    · intro region member
      rw [← stretch.onward.scope_eq]
      exact (regions region member).2.1
    · intro function isFunction inner hasBody parameter member name named
      exact laid.parameter built (payload ▸ isFunction) hasBody member named
  · exact fun region member => (regions region member).1

end LaidBody

end Parser

end CirText
