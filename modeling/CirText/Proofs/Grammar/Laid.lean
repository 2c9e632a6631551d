import CirText.Proofs.Grammar.Extents
import CirText.Proofs.Grammar.Entries
import CirText.Proofs.Operation.Surroundings
import CirText.Proofs.Parser.Sight

/-!
# How a part of an operation lies in the text

`Laid` says all that is known of the names, places and regions in a part of an operation that has
been read between two stages: where they stand, which scopes they belong to, and that regions stand
one after the other, with scopes that ascend. Parts that are read one after the other are laid
together.
-/

namespace CirText

/-! ## Ascending scopes -/

/-- Whether numbers of scopes ascend and lie in a range. -/
structure Ascends (low high : Nat) (ids : List ScopeId) : Prop where
  ordered : ids.Pairwise (· < ·)
  low_le : ∀ id ∈ ids, low ≤ id
  lt_high : ∀ id ∈ ids, id < high

namespace Ascends

variable {low middle high : Nat} {ids more : List ScopeId}

theorem nil : Ascends low high [] :=
  ⟨.nil, by rintro _ ⟨⟩, by rintro _ ⟨⟩⟩

theorem append (left : Ascends low middle ids) (right : Ascends middle high more)
    (lower : low ≤ middle) (upper : middle ≤ high) : Ascends low high (ids ++ more) where
  ordered := List.pairwise_append.2 ⟨left.ordered, right.ordered, fun first inLeft second inRight =>
    Nat.lt_of_lt_of_le (left.lt_high first inLeft) (right.low_le second inRight)⟩
  low_le id member := (List.mem_append.1 member).elim (left.low_le id) fun inRight =>
    Nat.le_trans lower (right.low_le id inRight)
  lt_high id member := (List.mem_append.1 member).elim
    (fun inLeft => Nat.lt_of_lt_of_le (left.lt_high id inLeft) upper) (right.lt_high id)

/-- A scope comes before the ones that are opened inside it. -/
theorem cons (rest : Ascends (low + 1) high ids) (room : low < high) :
    Ascends low high (low :: ids) where
  ordered := List.pairwise_cons.2 ⟨fun id member => rest.low_le id member, rest.ordered⟩
  low_le id member := by
    rcases List.mem_cons.1 member with rfl | later
    · exact Nat.le_refl _
    · exact Nat.le_of_succ_le (rest.low_le id later)
  lt_high id member := by
    rcases List.mem_cons.1 member with rfl | later
    · exact room
    · exact rest.lt_high id later

theorem widen {lower higher : Nat} (ascends : Ascends low high ids) (below : lower ≤ low)
    (above : high ≤ higher) : Ascends lower higher ids where
  ordered := ascends.ordered
  low_le id member := Nat.le_trans below (ascends.low_le id member)
  lt_high id member := Nat.lt_of_lt_of_le (ascends.lt_high id member) above

end Ascends

/-- The scopes of the regions inside a region, in the order of a walk. -/
def Region.innerScopes (region : Region Operation) : List ScopeId :=
  region.inner.map (·.scope)

/-- The scopes of the regions in an entry, in the order of a walk. The scope of a region itself is
counted where it is opened. -/
def Entry.scopes : Entry (Region Operation) → List ScopeId
  | here mention => mention.region?.toList.flatMap Region.innerScopes
  | global _ => []
  | apart mentions => (mentions.filterMap Mention.region?).flatMap fun region =>
    region.scope :: region.innerScopes

/-- Where a name or a region stands. -/
def Mention.span : Mention (Region Operation) → Span
  | definition defined => defined.span
  | reference used => used.span
  | region inner => inner.span

/-- The scope that a name or a region belongs to. -/
def Mention.scope : Mention (Region Operation) → ScopeId
  | definition defined => defined.scope
  | reference used => used.scope
  | region inner => inner.scope

namespace Parser

variable {α : Type} {text : List Char} {facts : SymbolTable → Region Operation → Prop}
  {before middle after : Stage}

/-! ## What is found -/

/-- A place between two stages. What is kept for it is what stands there. -/
structure Stage.Keeps (text : List Char) (before after : Stage) (extent : Extent) : Prop where
  covers : Stage.Covers text before after extent.span
  text : ∀ written ∈ extent.text, written = String.ofList (extent.span.slice text)

theorem Stage.Keeps.widen {first last : Stage} {extent : Extent}
    (keeps : Stage.Keeps text before after extent) (left : Stage.Stretch text first before)
    (right : Stage.Stretch text after last) : Stage.Keeps text first last extent :=
  ⟨keeps.covers.widen left right, keeps.text⟩

/-- A name that is used or defined between two stages, in the scope there unless it is a symbol that
is defined. -/
structure Stage.Names (text : List Char) (before after : Stage) (entry : Entry (Region Operation)) :
    Prop where
  covers : ∀ mention ∈ entry.mentions, Stage.Covers text before after mention.span
  scope : ∀ mention, entry = .here mention → mention.scope = before.scope
  name : entry.regions = []
  here : ∀ mentions, entry ≠ .apart mentions

theorem Stage.Names.widen {first last : Stage} {entry : Entry (Region Operation)}
    (names : Stage.Names text before after entry) (left : Stage.Stretch text first before)
    (right : Stage.Stretch text after last) : Stage.Names text first last entry where
  covers mention member := (names.covers mention member).widen left right
  scope mention same := (names.scope mention same).trans left.onward.scope_eq
  name := names.name
  here := names.here

/-- What is known of a region between two stages: besides the given facts, which hold of all later
tables, its place and its scope, and the scopes that have been opened inside it. -/
structure Stage.Contains (text : List Char) (facts : SymbolTable → Region Operation → Prop)
    (before : Stage) (region : Region Operation) (after : Stage) : Prop where
  scope : region.scope = before.scope
  covers : Stage.Covers text before after region.span
  facts : ∀ table, after.tracker.table.GrowsTo table → facts table region
  scopes : Ascends before.size after.size region.innerScopes
  fewer : after.rest.length < before.rest.length

/-- How a part with the given places, names and regions lies between two stages. -/
structure Laid (text : List Char) (facts : SymbolTable → Region Operation → Prop)
    (before : Stage) (extents : List Extent) (entries : List (Entry (Region Operation)))
    (after : Stage) : Prop where
  stretch : Stage.Stretch text before after
  keeps : ∀ extent ∈ extents, Stage.Keeps text before after extent
  covers : ∀ entry ∈ entries, ∀ mention ∈ entry.mentions,
    Stage.Covers text before after mention.span
  here : ∀ mention, .here mention ∈ entries → mention.scope = before.scope
  apart : ∀ mentions, .apart mentions ∈ entries → ∃ scope : ScopeId,
    (∀ mention ∈ mentions, mention.scope = scope) ∧
      ∀ table, after.tracker.table.GrowsTo table → (table.scope scope).parent = some before.scope
  facts : ∀ entry ∈ entries, ∀ region ∈ entry.regions, ∀ table, after.tracker.table.GrowsTo table →
    facts table region
  ordered : (entries.flatMap Entry.regions).Pairwise fun first second =>
    first.span.stop ≤ second.span.start
  scopes : Ascends before.size after.size (entries.flatMap Entry.scopes)

namespace Laid

variable {extents more : List Extent} {entries further : List (Entry (Region Operation))}

/-- Names and places alone can be laid in any order. -/
theorem ofNames (stretch : Stage.Stretch text before after)
    (keeps : ∀ extent ∈ extents, Stage.Keeps text before after extent)
    (names : ∀ entry ∈ entries, Stage.Names text before after entry) :
    Laid text facts before extents entries after where
  stretch := stretch
  keeps := keeps
  covers entry member := (names entry member).covers
  here mention member := (names _ member).scope mention rfl
  apart mentions member := absurd rfl ((names _ member).here mentions)
  facts entry member region inside := by
    rw [(names entry member).name] at inside
    cases inside
  ordered := by
    rw [List.flatMap_eq_nil_iff.2 fun entry member => (names entry member).name]
    exact .nil
  scopes := by
    rw [List.flatMap_eq_nil_iff.2 fun entry member => ?_]
    · exact .nil
    · have name := (names entry member).name
      cases entry with
      | here mention =>
        cases mention with
        | region inner => cases name
        | reference | definition => rfl
      | global defined => rfl
      | apart mentions => exact absurd rfl ((names _ member).here mentions)

theorem nil (stretch : Stage.Stretch text before after) : Laid text facts before [] [] after :=
  ofNames stretch (by rintro _ ⟨⟩) (by rintro _ ⟨⟩)

theorem extent (stretch : Stage.Stretch text before after) {extent : Extent}
    (keeps : Stage.Keeps text before after extent) : Laid text facts before [extent] [] after :=
  ofNames stretch (by rintro _ (_ | ⟨_, ⟨⟩⟩); exact keeps) (by rintro _ ⟨⟩)

theorem name (stretch : Stage.Stretch text before after) {entry : Entry (Region Operation)}
    (names : Stage.Names text before after entry) : Laid text facts before [] [entry] after :=
  ofNames stretch (by rintro _ ⟨⟩) (by rintro _ (_ | ⟨_, ⟨⟩⟩); exact names)

theorem region {inner : Region Operation} (stretch : Stage.Stretch text before after)
    (contains : Stage.Contains text facts before inner after) :
    Laid text facts before [] [.here (.region inner)] after where
  stretch := stretch
  keeps := by rintro _ ⟨⟩
  covers := by
    rintro _ (_ | ⟨_, ⟨⟩⟩) _ (_ | ⟨_, ⟨⟩⟩)
    exact contains.covers
  here := by
    rintro _ (_ | ⟨_, ⟨⟩⟩)
    exact contains.scope
  apart := by rintro _ (_ | ⟨_, ⟨⟩⟩)
  facts := by
    rintro _ (_ | ⟨_, ⟨⟩⟩) _ (_ | ⟨_, ⟨⟩⟩)
    exact contains.facts
  ordered := List.pairwise_singleton _ inner
  scopes := by
    simpa [Entry.scopes] using contains.scopes

/-- A place that covers a part comes with it. -/
theorem consExtent (laid : Laid text facts before extents entries after) {extent : Extent}
    (keeps : Stage.Keeps text before after extent) :
    Laid text facts before (extent :: extents) entries after where
  stretch := laid.stretch
  keeps := by
    intro other member
    rcases List.mem_cons.1 member with rfl | old
    · exact keeps
    · exact laid.keeps other old
  covers := laid.covers
  here := laid.here
  apart := laid.apart
  facts := laid.facts
  ordered := laid.ordered
  scopes := laid.scopes

/-- Two parts, one after the other. -/
theorem trans (left : Laid text facts before extents entries middle)
    (right : Laid text facts middle more further after) :
    Laid text facts before (extents ++ more) (entries ++ further) after where
  stretch := left.stretch.trans right.stretch
  keeps extent member := (List.mem_append.1 member).elim
    (fun inLeft => (left.keeps extent inLeft).widen (.refl left.stretch.start) right.stretch)
    fun inRight => (right.keeps extent inRight).widen left.stretch (.refl right.stretch.stop)
  covers entry member mention inside := (List.mem_append.1 member).elim
    (fun inLeft => (left.covers entry inLeft mention inside).widen (.refl left.stretch.start)
      right.stretch)
    fun inRight => (right.covers entry inRight mention inside).widen left.stretch
      (.refl right.stretch.stop)
  here mention member := (List.mem_append.1 member).elim (left.here mention)
    fun inRight => (right.here mention inRight).trans left.stretch.onward.scope_eq
  apart mentions member := by
    rcases List.mem_append.1 member with inLeft | inRight
    · obtain ⟨scope, same, parent⟩ := left.apart mentions inLeft
      exact ⟨scope, same, fun table grows =>
        parent table (right.stretch.onward.grown.table.trans grows)⟩
    · rw [← left.stretch.onward.scope_eq]
      exact right.apart mentions inRight
  facts entry member region inside table grows := (List.mem_append.1 member).elim
    (fun inLeft => left.facts entry inLeft region inside table
      (right.stretch.onward.grown.table.trans grows))
    fun inRight => right.facts entry inRight region inside table grows
  ordered := by
    rw [List.flatMap_append]
    refine List.pairwise_append.2 ⟨left.ordered, right.ordered, ?_⟩
    intro first inLeft second inRight
    obtain ⟨entry, inEntries, inFirst⟩ := List.mem_flatMap.1 inLeft
    obtain ⟨other, inFurther, inSecond⟩ := List.mem_flatMap.1 inRight
    have ends := (left.covers entry inEntries _ (Entry.mem_mentions_of_regions inFirst)).stop
    have starts := (right.covers other inFurther _ (Entry.mem_mentions_of_regions inSecond)).start
    exact Nat.le_trans ends (Nat.le_trans left.stretch.stop.lastStop_le_here starts)
  scopes := by
    rw [List.flatMap_append]
    exact left.scopes.append right.scopes left.stretch.onward.size_le right.stretch.onward.size_le

/-- The regions of the current scope in a part in which everything is in that scope. -/
theorem flatMap_scopes {count : Nat} (flat : Grammar.Flat count entries) :
    entries.flatMap Entry.scopes =
      (entries.flatMap Entry.regions).flatMap Region.innerScopes := by
  rw [List.flatMap_assoc]
  apply List.flatMap_congr
  intro entry member
  obtain ⟨mention, rfl⟩ := flat.here entry member
  cases mention <;> rfl

/-- A part with a scope of its own: what is in it, with one region at most, is laid inside the scope
that has been opened for it. -/
theorem inScope {inside : Stage} (laid : Laid text facts before.opened extents entries inside)
    (flat : Grammar.Flat 1 entries) (encloses : before.Encloses inside)
    (stretch : Stage.Stretch text before inside.closed) :
    Laid text facts before extents [.apart (entries.flatMap Entry.mentions)] inside.closed := by
  have table : inside.closed.tracker.table = inside.tracker.table := Tracker.table_pop _
  have regions : (Entry.apart (entries.flatMap Entry.mentions)).regions =
      entries.flatMap Entry.regions := List.filterMap_flatMap ..
  have within : ∀ mention ∈ entries.flatMap Entry.mentions, mention.scope = before.size := by
    intro mention member
    obtain ⟨entry, inEntries, inEntry⟩ := List.mem_flatMap.1 member
    obtain ⟨other, rfl⟩ := flat.here entry inEntries
    rw [List.mem_singleton.1 inEntry]
    exact laid.here other inEntries
  constructor
  · exact stretch
  · intro extent member
    have kept := laid.keeps extent member
    exact ⟨⟨kept.covers.on, kept.covers.start, kept.covers.stop⟩, kept.text⟩
  · rintro _ (_ | ⟨_, ⟨⟩⟩) mention member
    obtain ⟨entry, inEntries, inEntry⟩ := List.mem_flatMap.1 member
    have covered := laid.covers entry inEntries mention inEntry
    exact ⟨covered.on, covered.start, covered.stop⟩
  · rintro mention (_ | ⟨_, ⟨⟩⟩)
  · rintro _ (_ | ⟨_, ⟨⟩⟩)
    refine ⟨before.size, within, fun later grows => ?_⟩
    rw [table] at grows
    exact (grows.parent _ encloses.size).trans encloses.parent
  · rintro _ (_ | ⟨_, ⟨⟩⟩) region member later grows
    rw [regions] at member
    obtain ⟨entry, inEntries, inEntry⟩ := List.mem_flatMap.1 member
    exact laid.facts entry inEntries region inEntry later (table ▸ grows)
  · rw [List.flatMap_singleton, regions]
    exact laid.ordered
  · have inner := laid.scopes
    rw [flatMap_scopes flat] at inner
    have few := flat.few
    have size : inside.closed.size = inside.size := congrArg (·.scopes.size) table
    rw [List.flatMap_singleton, size]
    change Ascends _ _ ((Entry.apart (entries.flatMap Entry.mentions)).regions.flatMap fun region =>
      region.scope :: region.innerScopes)
    rw [regions]
    cases found : entries.flatMap Entry.regions with
    | nil => exact .nil
    | cons region rest =>
      rw [found] at inner few
      obtain rfl : rest = [] :=
        List.eq_nil_of_length_eq_zero (Nat.le_zero.1 (Nat.le_of_succ_le_succ few))
      have isRegion : region ∈ entries.flatMap Entry.regions := found ▸ List.mem_cons_self
      obtain ⟨entry, inEntries, inEntry⟩ := List.mem_flatMap.1 isRegion
      have here : region.scope = before.size := within (.region region)
        (List.mem_flatMap.2 ⟨entry, inEntries, Entry.mem_mentions_of_regions inEntry⟩)
      have opened : before.opened.size = before.size + 1 := Array.size_push _
      rw [List.flatMap_singleton] at inner ⊢
      rw [opened] at inner
      rw [here]
      exact inner.cons encloses.size

/-- A part of which nothing is left but what lies behind it. -/
theorem onward (laid : Laid text facts before extents entries middle)
    (stretch : Stage.Stretch text middle after) : Laid text facts before extents entries after := by
  have both := laid.trans (nil stretch)
  rwa [List.append_nil, List.append_nil] at both

end Laid

end Parser

end CirText
