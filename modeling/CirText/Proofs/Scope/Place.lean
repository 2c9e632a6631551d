import CirText.Proofs.Scope.Course
import CirText.Proofs.Scope.Entries
import CirText.Proofs.Token.Place

/-!
# Names in their places

All definitions and uses that a tracker remembers stand in the text, and a tracker in which all
scopes are closed again has only gained scopes: the ones that it had are where they were.
-/

namespace CirText

/-- How a table is related to a later one: it has only gained scopes, and none has moved. -/
structure SymbolTable.GrowsTo (before after : SymbolTable) : Prop where
  size : before.scopes.size ≤ after.scopes.size
  parent : ∀ id < before.scopes.size, (after.scope id).parent = (before.scope id).parent

theorem SymbolTable.GrowsTo.refl (table : SymbolTable) : table.GrowsTo table :=
  ⟨Nat.le_refl _, fun _ _ => rfl⟩

theorem SymbolTable.GrowsTo.trans {first middle last : SymbolTable} (left : first.GrowsTo middle)
    (right : middle.GrowsTo last) : first.GrowsTo last where
  size := Nat.le_trans left.size right.size
  parent id inside :=
    (right.parent id (Nat.lt_of_lt_of_le inside left.size)).trans (left.parent id inside)

namespace Tracker

variable {text : List Char} {tracker : Tracker}

/-! ## Definitions that are found -/

theorem mem_of_findName {name : String} {definitions : List Definition} {found : Definition}
    (h : findName name definitions = some found) : found ∈ definitions :=
  List.mem_of_find?_eq_some h

theorem mem_entries_of_scope {table : SymbolTable} {id : ScopeId} {definition : Definition}
    (member : definition ∈ (table.scope id).entries) : definition ∈ table.entries := by
  rw [SymbolTable.scope, Array.getD_eq_getD_getElem?] at member
  cases existing : table.scopes[id]? with
  | none =>
    rw [existing] at member
    cases member
  | some scope =>
    rw [existing] at member
    exact List.mem_append_right _ (List.mem_flatMap.2
      ⟨scope, Array.mem_toList_iff.2 (Array.mem_of_getElem? existing), member⟩)

/-- A definition that clashes with a new one is an entry of the table. -/
theorem mem_entries_of_clash {kind : NameKind} {name : String} {earlier : Definition}
    (clash : tracker.clash? kind name = some earlier) : earlier ∈ tracker.table.entries := by
  have ofValues : ∀ {id}, tracker.table.valueIn name id = some earlier →
      earlier ∈ tracker.table.entries := fun found =>
    mem_entries_of_scope (List.mem_append_left _ (mem_of_findName found))
  have ofLabels : ∀ {id}, tracker.table.labelIn name id = some earlier →
      earlier ∈ tracker.table.entries := fun found =>
    mem_entries_of_scope (List.mem_append_right _ (mem_of_findName found))
  cases kind with
  | value => exact ofValues clash
  | symbol => exact List.mem_append_left _ (mem_of_findName clash)
  | label =>
    simp only [clash?] at clash
    rw [Option.orElse_eq_some, Option.orElse_eq_some] at clash
    rcases clash with here | ⟨_, around | ⟨_, inside⟩⟩
    · exact ofLabels here
    · obtain ⟨id, _, found⟩ := List.exists_of_findSome?_eq_some around
      exact ofLabels found
    · obtain ⟨scope, member, found⟩ := List.exists_of_findSome?_eq_some inside
      exact List.mem_append_right _ (List.mem_flatMap.2
        ⟨scope, List.mem_of_mem_drop member, List.mem_append_right _ (mem_of_findName found)⟩)

/-! ## Scopes that stay -/

/-- How the tracker before a part in which all scopes are closed again is related to the tracker
after it. -/
structure Grown (before after : Tracker) : Prop where
  /-- The current scope is the same. -/
  scope : after.scope = before.scope
  /-- So are the scopes around it. -/
  outer : after.outer.map (·.scope) = before.outer.map (·.scope)
  /-- No scope is lost, and none has moved. -/
  table : before.table.GrowsTo after.table

theorem Grown.refl (tracker : Tracker) : Grown tracker tracker :=
  ⟨rfl, rfl, .refl _⟩

theorem Grown.trans {first middle last : Tracker} (left : Grown first middle)
    (right : Grown middle last) : Grown first last where
  scope := right.scope.trans left.scope
  outer := right.outer.trans left.outer
  table := left.table.trans right.table

theorem Grown.refer (tracker : Tracker) (kind : NameKind) (name : String) (span : Span) :
    Grown tracker (tracker.refer kind name span).2 := by
  cases kind <;> exact ⟨rfl, rfl, .refl _⟩

theorem Grown.define (fits : tracker.Fits) (kind : NameKind) (name : String) (span : Span) :
    Grown tracker (tracker.define kind name span).2.2 := by
  unfold Tracker.define
  split
  · exact refl tracker
  · refine ⟨rfl, rfl, Nat.le_of_eq (SymbolTable.size_insert _ _).symm, fun id _ => ?_⟩
    exact SymbolTable.parent_insert (fits.home_lt kind) id

/-- A scope that is opened and closed again is a scope of its own, inside the current one. -/
theorem Grown.inScope {before inner : Tracker} (within : Grown before.push inner) :
    Grown before inner.pop.1 ∧ inner.scope = before.table.scopes.size ∧
      inner.scope < inner.table.scopes.size ∧
      (inner.table.scope inner.scope).parent = some before.scope := by
  have opened : before.push.table = before.table.opened before.scope := rfl
  obtain ⟨size, parents⟩ := within.table
  rw [opened, SymbolTable.size_opened] at size parents
  have here : inner.scope = before.table.scopes.size := within.scope
  refine ⟨?_, here, here ▸ size, ?_⟩
  · have around : inner.outer.map (·.scope) = before.scope :: before.outer.map (·.scope) :=
      within.outer
    cases frames : inner.outer with
    | nil =>
      rw [frames] at around
      cases around
    | cons parent outer =>
      rw [frames] at around
      obtain ⟨same, others⟩ := List.cons.inj around
      have table := table_pop inner
      have closed : inner.pop.1.scope = parent.scope ∧ inner.pop.1.outer = outer := by
        simp [Tracker.pop, Tracker.scope, frames]
      refine ⟨closed.1.trans same, ?_, ?_, fun id inside => ?_⟩
      · rw [closed.2]
        exact others
      · rw [table]
        exact Nat.le_of_succ_le size
      · rw [table, parents id (Nat.lt_succ_of_lt inside), SymbolTable.scope_opened,
          if_neg (Nat.ne_of_lt inside)]
  · rw [here, parents _ (Nat.lt_succ_self _), SymbolTable.scope_opened, if_pos rfl]

/-! ## Places of names -/

/-- The uses of names that have not been judged, those of symbols included. -/
def pending (tracker : Tracker) : List Reference :=
  tracker.waiting ++ tracker.symbolUses.toList

/-- Whether the names that a tracker remembers stand in a text. -/
structure Placed (text : List Char) (tracker : Tracker) : Prop where
  fits : tracker.Fits
  entries : ∀ definition ∈ tracker.table.entries, definition.span.On text
  pending : ∀ reference ∈ tracker.pending, reference.span.On text

theorem Placed.start (text : List Char) : Tracker.start.Placed text where
  fits := .start
  entries := by
    intro definition member
    cases member
  pending := by
    intro reference member
    cases member

theorem Placed.push (placed : tracker.Placed text) : tracker.push.Placed text where
  fits := placed.fits.push
  entries := by
    have opened : tracker.push.table = tracker.table.opened tracker.scope := rfl
    rw [opened, SymbolTable.entries_opened]
    exact placed.entries
  pending := by
    have same : tracker.push.pending = tracker.pending := by
      simp [Tracker.pending, Tracker.waiting, Tracker.push]
    rw [same]
    exact placed.pending

/-- What goes on waiting when a scope is closed was waiting before, and so was what is judged. -/
theorem Placed.pop (placed : tracker.Placed text) :
    tracker.pop.1.Placed text ∧ ∀ verdict ∈ tracker.pop.2, verdict.reference.span.On text := by
  have entries : ∀ definition ∈ tracker.pop.1.table.entries, definition.span.On text := by
    rw [table_pop]
    exact placed.entries
  have fits := placed.fits.pop
  cases frames : tracker.outer with
  | nil =>
    have stays : tracker.pop = (tracker, []) := by
      simp only [Tracker.pop, frames]
    rw [stays]
    exact ⟨placed, by rintro _ ⟨⟩⟩
  | cons parent outer =>
    have here : ∀ reference ∈ tracker.current.waiting.toList, reference.span.On text :=
      fun reference member =>
        placed.pending reference (List.mem_append_left _ (by
          rw [waiting, List.flatMap_cons]
          exact List.mem_append_left _ member))
    refine ⟨⟨fits, entries, ?_⟩, ?_⟩
    · intro reference member
      have waits : reference ∈ tracker.pending := by
        simp only [Tracker.pop, frames, Tracker.pending, Tracker.waiting, List.flatMap_cons,
          Array.toList_append, Array.toList_filter, List.mem_append, List.mem_filter] at member ⊢
        rcases member with ((old | ⟨moved, _⟩) | around) | symbol
        · exact .inl (.inr (.inl old))
        · exact .inl (.inl moved)
        · exact .inl (.inr (.inr around))
        · exact .inr symbol
      exact placed.pending reference waits
    · intro verdict member
      simp only [Tracker.pop, frames, List.mem_filterMap] at member
      obtain ⟨reference, waits, judged⟩ := member
      rw [(Accounted.judge_eq_some judged).2.1]
      exact here reference waits

theorem Placed.refer (placed : tracker.Placed text) (kind : NameKind) (name : String) {span : Span}
    (on : span.On text) : (tracker.refer kind name span).2.Placed text where
  fits := placed.fits.refer kind name span
  entries := by
    rw [table_refer]
    exact placed.entries
  pending := by
    intro reference member
    have known : reference ∈ tracker.pending ∨ reference.span = span := by
      have noted : reference ∈ tracker.pending ∨
          reference = (tracker.refer kind name span).1 := by
        cases kind
        all_goals
          simp only [Tracker.refer, Tracker.pending, Tracker.waiting, List.flatMap_cons,
            Array.toList_push, List.mem_append, List.mem_singleton] at member ⊢
          tauto
      refine noted.imp_right ?_
      rintro rfl
      cases kind <;> rfl
    rcases known with old | new
    · exact placed.pending reference old
    · rw [new]
      exact on

theorem Placed.define (placed : tracker.Placed text) (kind : NameKind) (name : String) {span : Span}
    (on : span.On text) :
    (tracker.define kind name span).2.2.Placed text ∧
      ∀ earlier, (tracker.define kind name span).2.1 = some earlier → earlier.span.On text := by
  cases clash : tracker.clash? kind name with
  | some earlier =>
    simp only [Tracker.define, clash]
    refine ⟨placed, ?_⟩
    rintro _ ⟨⟩
    exact placed.entries earlier (mem_entries_of_clash clash)
  | none =>
    simp only [Tracker.define, clash]
    refine ⟨⟨placed.fits.insert _, ?_, placed.pending⟩, by rintro _ ⟨⟩⟩
    intro definition member
    rcases List.mem_cons.1
      ((SymbolTable.entries_insert (placed.fits.home_lt kind)).mem_iff.1 member)
      with rfl | old
    · exact on
    · exact placed.entries definition old

end Tracker

end CirText
