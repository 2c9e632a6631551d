import Mathlib
import CirText.Parser.Basic
import CirText.Proofs.Scope.Entries
import CirText.Proofs.Scope.Nesting

/-!
# Definitions that clash

The first definition of a name counts. A label must be new to its scope, to the scopes around it and
to those inside it. The tracker looks for it in all scopes that were opened later than the current
one; these are the ones inside, since no scope outside can have been opened while the current one
was open. From this follows that no label stands both in a scope and in one around it.
-/

namespace CirText

/-! ## Scopes inside one another -/

namespace SymbolTable

/-- Whether one of two scopes is the other or around it. -/
def Related (table : SymbolTable) (id other : ScopeId) : Prop :=
  id ∈ table.chain other ∨ other ∈ table.chain id

/-- Whether no label has the name of another one in a scope around it. -/
def LabelsApart (table : SymbolTable) : Prop :=
  ∀ inner, ∀ outer ∈ table.enclosing inner, ∀ label ∈ (table.scope inner).labels,
    ∀ other ∈ (table.scope outer).labels, label.name ≠ other.name

/-- How a table changes when a definition becomes an entry of it and nothing else does. -/
structure Gains (table : SymbolTable) (definition : Definition) (after : SymbolTable) : Prop where
  size : after.scopes.size = table.scopes.size
  parents : ∀ id, (after.scope id).parent = (table.scope id).parent
  values : ∀ id, (after.scope id).values =
    if definition.kind = .value ∧ id = definition.scope then definition :: (table.scope id).values
    else (table.scope id).values
  labels : ∀ id, (after.scope id).labels =
    if definition.kind = .label ∧ id = definition.scope then definition :: (table.scope id).labels
    else (table.scope id).labels
  symbols : after.symbols =
    if definition.kind = .symbol then definition :: table.symbols else table.symbols

variable {table : SymbolTable}

theorem gains_insert {definition : Definition} (inside : definition.scope < table.scopes.size) :
    table.Gains definition (table.insert definition) where
  size := size_insert table definition
  parents := parent_insert inside
  values := values_insert inside
  labels := labels_insert inside
  symbols := symbols_insert table definition

theorem mem_chain_of_mem_enclosing {id outer : ScopeId} (member : outer ∈ table.enclosing id) :
    outer ∈ table.chain id :=
  List.mem_cons_of_mem _ member

theorem labels_of_size_le {id : ScopeId} (beyond : table.scopes.size ≤ id) :
    (table.scope id).labels = [] := by
  have none : table.scopes[id]? = none := Array.getElem?_eq_none beyond
  simp [scope, Array.getD_eq_getD_getElem?, none]

/-- The scopes from a number on. -/
theorem mem_drop_scopes_iff {first : Nat} {scope : Scope} :
    scope ∈ table.scopes.toList.drop first ↔
      ∃ id, first ≤ id ∧ id < table.scopes.size ∧ table.scope id = scope := by
  have stored : ∀ {id : Nat} (existing : id < table.scopes.size),
      table.scope id = table.scopes[id] := by
    intro id existing
    rw [SymbolTable.scope, Array.getD_eq_getD_getElem?, Array.getElem?_eq_getElem existing,
      Option.getD_some]
  rw [List.mem_drop_iff_getElem]
  constructor
  · rintro ⟨index, bound, rfl⟩
    have existing : first + index < table.scopes.size := Nat.add_comm _ _ ▸ bound
    exact ⟨first + index, Nat.le_add_right _ _, existing, stored existing⟩
  · rintro ⟨id, later, existing, rfl⟩
    obtain ⟨index, rfl⟩ := Nat.exists_eq_add_of_le later
    exact ⟨index, Nat.add_comm _ _ ▸ existing, (stored existing).symm⟩

theorem findName_isSome_iff {name : String} {definitions : List Definition} :
    (findName name definitions).isSome = true ↔ ∃ entry ∈ definitions, entry.name = name := by
  simp [findName]

end SymbolTable

namespace Tracker

variable {tracker last : Tracker} {uses : List Reference} {verdicts : List Unresolved}

/-! ## The scopes opened after an open one -/

/-- Whether every scope that was opened after an open one is inside it. -/
def OpensInside (tracker : Tracker) : Prop :=
  ∀ outer ∈ tracker.openScopes, ∀ id < tracker.table.scopes.size, outer ≤ id →
    outer ∈ tracker.table.chain id

theorem opensInside_push (sound : tracker.Sound) (opens : tracker.OpensInside) :
    tracker.push.OpensInside := by
  intro outer isOpen id existing later
  change outer ∈ (tracker.table.opened tracker.scope).chain id
  change id < (tracker.table.opened tracker.scope).scopes.size at existing
  rw [SymbolTable.size_opened] at existing
  rcases List.mem_cons.1 isOpen with new | around
  · have new : outer = tracker.table.scopes.size := new
    obtain rfl : id = outer := Nat.le_antisymm (new ▸ Nat.lt_succ_iff.1 existing) later
    exact List.mem_cons_self
  · have around : outer ∈ tracker.openScopes := around
    by_cases isNew : id = tracker.table.scopes.size
    · -- The open scopes are the ones around the new one.
      obtain ⟨_, _, accounted⟩ := sound
      rw [accounted.openScopes_eq] at around
      rw [isNew, SymbolTable.chain, SymbolTable.enclosing_opened_size accounted.inside]
      exact List.mem_cons_of_mem _ around
    · have old : id < tracker.table.scopes.size :=
        Nat.lt_of_le_of_ne (Nat.lt_succ_iff.1 existing) isNew
      rw [SymbolTable.chain, SymbolTable.enclosing_opened _ old]
      exact opens outer around id old later

theorem opensInside_pop (opens : tracker.OpensInside) : tracker.pop.1.OpensInside := by
  intro outer isOpen id existing later
  rw [table_pop] at existing ⊢
  refine opens outer ?_ id existing later
  cases around : tracker.outer with
  | nil =>
    have stays : tracker.pop.1 = tracker := by simp [Tracker.pop, around]
    exact stays ▸ isOpen
  | cons parent further =>
    have closed : tracker.pop.1.openScopes = tracker.outer.map (·.scope) := by
      simp [Tracker.pop, Tracker.openScopes, around]
    rw [closed] at isOpen
    exact List.mem_cons_of_mem _ isOpen

theorem opensInside_insert (sound : tracker.Sound) (opens : tracker.OpensInside)
    {definition : Definition} (home : definition.scope = tracker.home definition.kind) :
    OpensInside { tracker with table := tracker.table.insert definition } := by
  obtain ⟨_, _, accounted⟩ := sound
  have inside : definition.scope < tracker.table.scopes.size :=
    home ▸ accounted.home_lt definition.kind
  intro outer isOpen id existing later
  change outer ∈ (tracker.table.insert definition).chain id
  change id < (tracker.table.insert definition).scopes.size at existing
  rw [SymbolTable.size_insert] at existing
  rw [SymbolTable.chain, SymbolTable.enclosing_insert inside]
  exact opens outer isOpen id existing later

/-! ## Clashes -/

/-- The entries with which a new definition of a name would clash: values of the current scope,
labels of related scopes, and symbols. -/
def ClashesWith (tracker : Tracker) (kind : NameKind) (name : String) (entry : Definition) : Prop :=
  entry.name = name ∧
    match kind with
    | .value => entry ∈ (tracker.table.scope tracker.scope).values
    | .label => ∃ id, tracker.table.Related id tracker.scope ∧ entry ∈ (tracker.table.scope
        id).labels
    | .symbol => entry ∈ tracker.table.symbols

/-- A label that the tracker finds clashes with the new one. -/
theorem clashesWith_of_clash? (opens : tracker.OpensInside) {kind : NameKind} {name : String}
    {entry : Definition} (found : tracker.clash? kind name = some entry) :
    tracker.ClashesWith kind name entry := by
  cases kind with
  | value =>
    obtain ⟨member, same⟩ := findName_eq_some found
    exact ⟨same, member⟩
  | «symbol» =>
    obtain ⟨member, same⟩ := findName_eq_some found
    exact ⟨same, member⟩
  | label =>
    simp only [clash?, Option.orElse_eq_orElse, Option.orElse_eq_or, Option.or_eq_some_iff] at found
    rcases found with here | ⟨_, around | ⟨_, later⟩⟩
    · obtain ⟨member, same⟩ := findName_eq_some here
      exact ⟨same, _, .inl List.mem_cons_self, member⟩
    · obtain ⟨id, inEnclosing, labeled⟩ := List.exists_of_findSome?_eq_some around
      obtain ⟨member, same⟩ := findName_eq_some labeled
      exact ⟨same, id, .inl (SymbolTable.mem_chain_of_mem_enclosing inEnclosing), member⟩
    · obtain ⟨scope, isLater, labeled⟩ := List.exists_of_findSome?_eq_some later
      obtain ⟨member, same⟩ := findName_eq_some labeled
      obtain ⟨id, after, existing, rfl⟩ := SymbolTable.mem_drop_scopes_iff.1 isLater
      have inside := opens tracker.scope List.mem_cons_self id existing (Nat.le_of_succ_le after)
      exact ⟨same, id, .inr inside, member⟩

/-- The tracker finds a label if there is one that clashes with the new one. -/
theorem clash?_ne_none {kind : NameKind} {name : String} {entry : Definition}
    (clashes : tracker.ClashesWith kind name entry) : tracker.clash? kind name ≠ none := by
  obtain ⟨same, stands⟩ := clashes
  have found : ∀ {definitions : List Definition}, entry ∈ definitions →
      findName name definitions ≠ none := fun member =>
    Option.isSome_iff_ne_none.1 (SymbolTable.findName_isSome_iff.2 ⟨entry, member, same⟩)
  cases kind with
  | value => exact found stands
  | «symbol» => exact found stands
  | label =>
    obtain ⟨id, related, member⟩ := stands
    intro nothing
    simp only [clash?, Option.orElse_eq_orElse, Option.orElse_eq_or,
      Option.or_eq_none_iff] at nothing
    obtain ⟨notHere, notAround, notLater⟩ := nothing
    rcases related with around | inside
    · rcases List.mem_cons.1 around with rfl | around
      · exact found member notHere
      · exact found member (List.findSome?_eq_none_iff.1 notAround id around)
    · rcases List.mem_cons.1 inside with rfl | inside
      · exact found member notHere
      · -- A scope with labels exists, and one around it was opened before it.
        have later : tracker.scope < id := SymbolTable.lt_of_mem_enclosing inside
        have existing : id < tracker.table.scopes.size := by
          by_contra beyond
          rw [SymbolTable.labels_of_size_le (Nat.le_of_not_lt beyond)] at member
          cases member
        have searched :=
          SymbolTable.mem_drop_scopes_iff.2 ⟨id, Nat.succ_le_of_lt later, existing, rfl⟩
        exact found member (List.findSome?_eq_none_iff.1 notLater _ searched)

/-! ## Definitions -/

/-- What a definition of a name does: either it clashes with an entry, which it is reported with,
and nothing changes, or no entry clashes and it becomes one. -/
inductive DefinesFirst (tracker : Tracker) (kind : NameKind) (name : String) (span : Span) :
    Prop where
  /-- The definition fails. -/
  | clash (entry : Definition) (clashes : tracker.ClashesWith kind name entry)
      (outcome : tracker.define kind name span =
        (⟨kind, name, span, tracker.scope⟩, some entry, tracker))
  /-- The definition succeeds. -/
  | new (table : SymbolTable) (free : ∀ entry, ¬tracker.ClashesWith kind name entry)
      (outcome : tracker.define kind name span =
        (⟨kind, name, span, tracker.home kind⟩, none, { tracker with table }))
      (gains : tracker.table.Gains ⟨kind, name, span, tracker.home kind⟩ table)

theorem definesFirst (sound : tracker.Sound) (opens : tracker.OpensInside) (kind : NameKind)
    (name : String) (span : Span) : tracker.DefinesFirst kind name span := by
  cases found : tracker.clash? kind name with
  | some entry =>
    refine .clash entry (clashesWith_of_clash? opens found) ?_
    simp only [define, found]
  | none =>
    obtain ⟨_, _, accounted⟩ := sound
    refine .new _ (fun entry clashes => clash?_ne_none clashes found) ?_
      (SymbolTable.gains_insert (accounted.home_lt kind))
    simp only [define, found]

/-! ## Labels around one another -/

theorem labelsApart_push (sound : tracker.Sound) (apart : tracker.table.LabelsApart) :
    tracker.push.table.LabelsApart := by
  obtain ⟨_, _, accounted⟩ := sound
  change (tracker.table.opened tracker.scope).LabelsApart
  intro inner outer around label isLabel other isOther
  by_cases isNew : inner = tracker.table.scopes.size
  · rw [SymbolTable.scope_opened, if_pos isNew] at isLabel
    cases isLabel
  · rw [SymbolTable.scope_opened, if_neg isNew] at isLabel
    have existing : inner < tracker.table.scopes.size := by
      by_contra beyond
      rw [SymbolTable.labels_of_size_le (Nat.le_of_not_lt beyond)] at isLabel
      cases isLabel
    rw [SymbolTable.enclosing_opened _ existing] at around
    have smaller := SymbolTable.lt_of_mem_enclosing around
    rw [SymbolTable.scope_opened, if_neg (Nat.ne_of_lt (Nat.lt_trans smaller existing))] at isOther
    exact apart inner outer around label isLabel other isOther

/-- A label that clashes with no other one keeps labels apart. -/
theorem labelsApart_gains {kind : NameKind} {name : String} {span : Span} {table : SymbolTable}
    (apart : tracker.table.LabelsApart) (free : ∀ entry, ¬tracker.ClashesWith kind name entry)
    (gains : tracker.table.Gains ⟨kind, name, span, tracker.home kind⟩ table) :
    table.LabelsApart := by
  have enclosing : ∀ id, table.enclosing id = tracker.table.enclosing id := fun id =>
    SymbolTable.enclosing_congr fun k _ => gains.parents k
  -- A label is an old one, or it is the new one and the scope is the current one.
  have old : ∀ {id : ScopeId} {label : Definition}, label ∈ (table.scope id).labels →
      label ∈ (tracker.table.scope id).labels ∨
        kind = .label ∧ id = tracker.scope ∧ label.name = name := by
    intro id label member
    rw [gains.labels] at member
    split at member
    · rename_i here
      rcases List.mem_cons.1 member with rfl | member
      · obtain ⟨isLabel, isHome⟩ := here
        have isLabel : kind = .label := isLabel
        subst isLabel
        exact .inr ⟨rfl, isHome, rfl⟩
      · exact .inl member
    · exact .inl member
  intro inner outer around label isLabel other isOther same
  rw [enclosing] at around
  have outerChain := SymbolTable.mem_chain_of_mem_enclosing around
  rcases old isLabel with oldLabel | ⟨rfl, rfl, named⟩
  · rcases old isOther with oldOther | ⟨rfl, rfl, named⟩
    · exact apart inner outer around label oldLabel other oldOther same
    · exact free label ⟨same.trans named, inner, .inr outerChain, oldLabel⟩
  · rcases old isOther with oldOther | ⟨_, rfl, _⟩
    · exact free other ⟨same.symm.trans named, outer, .inl outerChain, oldOther⟩
    · exact Nat.lt_irrefl _ (SymbolTable.lt_of_mem_enclosing around)

/-! ## Courses -/

/-- What holds in every state that a tracker comes to. -/
structure Orderly (tracker : Tracker) : Prop where
  sound : tracker.Sound
  opens : tracker.OpensInside
  apart : tracker.table.LabelsApart

theorem Orderly.start : Orderly .start where
  sound := .start
  opens := by
    intro outer isOpen id existing _
    obtain rfl : outer = 0 := List.mem_singleton.1 isOpen
    obtain rfl : id = 0 := Nat.lt_one_iff.1 existing
    exact List.mem_cons_self
  apart := by
    intro inner outer around label isLabel
    have none : ((SymbolTable.empty).scope inner).labels = [] := by
      cases inner <;> rfl
    exact absurd (none ▸ isLabel) List.not_mem_nil

theorem Orderly.push (orderly : tracker.Orderly) : tracker.push.Orderly :=
  ⟨orderly.sound.push, opensInside_push orderly.sound orderly.opens,
    labelsApart_push orderly.sound orderly.apart⟩

theorem Orderly.pop (orderly : tracker.Orderly) : tracker.pop.1.Orderly where
  sound := orderly.sound.course (.pop .refl)
  opens := opensInside_pop orderly.opens
  apart := by
    rw [table_pop]
    exact orderly.apart

theorem Orderly.define (orderly : tracker.Orderly) (kind : NameKind) (name : String) (span : Span) :
    (tracker.define kind name span).2.2.Orderly := by
  have sound := orderly.sound.course (.define .refl kind name span)
  cases definesFirst orderly.sound orderly.opens kind name span with
  | clash entry clashes outcome =>
    rw [outcome]
    exact orderly
  | new table free outcome gains =>
    refine ⟨sound, ?_, ?_⟩
    · unfold Tracker.define
      split
      · exact orderly.opens
      · exact opensInside_insert orderly.sound orderly.opens rfl
    · rw [outcome]
      exact labelsApart_gains orderly.apart free gains

theorem Orderly.refer (orderly : tracker.Orderly) (kind : NameKind) (name : String) (span : Span) :
    (tracker.refer kind name span).2.Orderly where
  sound := orderly.sound.course (.refer .refl kind name span)
  opens := by
    have openScopes : (tracker.refer kind name span).2.openScopes = tracker.openScopes := by
      cases kind <;> rfl
    unfold OpensInside
    rw [table_refer, openScopes]
    exact orderly.opens
  apart := by
    rw [table_refer]
    exact orderly.apart

theorem Orderly.course (orderly : tracker.Orderly) (steps : Course tracker uses verdicts last) :
    last.Orderly := by
  induction steps with
  | refl => exact orderly
  | push _ ih => exact ih.push
  | pop _ ih => exact ih.pop
  | define _ kind name span ih => exact ih.define kind name span
  | refer _ kind name span ih => exact ih.refer kind name span

/-! ## Siblings -/

/-- Whether there are two scopes inside the same one with labels of the same name. -/
def SiblingsShare (table : SymbolTable) : Prop :=
  ∃ first second : ScopeId, first ≠ second ∧
    (∃ parent, (table.scope first).parent = some parent ∧ (table.scope second).parent =
      some parent) ∧
    ∃ label ∈ (table.scope first).labels, ∃ other ∈ (table.scope second).labels,
    label.name = other.name

/-- The tracker after a label has been defined in a scope inside one that stays open. -/
def innerLabel : Tracker :=
  (Tracker.start.push.push.define .label "a" ⟨3, 5⟩).2.2.pop.1

theorem innerLabel_course : Course .start [] [] innerLabel := by
  have opened : Course .start [] [] (Tracker.start.push.push.define .label "a" ⟨3, 5⟩).2.2 :=
    Course.refl.push.push.define .label "a" ⟨3, 5⟩
  have closed := opened.pop
  have quiet : (Tracker.start.push.push.define .label "a" ⟨3, 5⟩).2.2.pop.2 = [] := by cbv
  rwa [quiet] at closed

/-- Siblings may share labels. -/
theorem siblings_share : ∃ siblings, Course .start [] [] siblings ∧
    SiblingsShare siblings.table := by
  refine ⟨_, innerLabel_course.push.define .label "a" ⟨7, 9⟩, 2, 3, by decide, ⟨1, by cbv, by cbv⟩,
    ⟨.label, "a", ⟨3, 5⟩, 2⟩, ?_, ⟨.label, "a", ⟨7, 9⟩, 3⟩, ?_, rfl⟩
  · have labels : ((innerLabel.push.define .label "a" ⟨7, 9⟩).2.2.table.scope 2).labels =
        [⟨.label, "a", ⟨3, 5⟩, 2⟩] := by cbv
    rw [labels]
    exact List.mem_singleton_self _
  · have labels : ((innerLabel.push.define .label "a" ⟨7, 9⟩).2.2.table.scope 3).labels =
        [⟨.label, "a", ⟨7, 9⟩, 3⟩] := by cbv
    rw [labels]
    exact List.mem_singleton_self _

/-! ## Every course -/

/-- Every definition is first come, first served: it fails exactly if the name clashes with an
entry; the report then names one of these, and nothing changes. Else it becomes an entry, and
nothing else changes. So no label stands both in a scope and in one around it, but siblings may
share labels. -/
theorem define_firstCome (steps : Course .start uses verdicts tracker) :
    (∀ kind name span,
      ((tracker.define kind name span).2.1.isSome = true ↔
          ∃ entry, tracker.ClashesWith kind name entry) ∧
        tracker.DefinesFirst kind name span) ∧
      (∀ input (state : Parser.State) kind found entry, state.tracker = tracker →
        (tracker.define kind found.name found.span).2.1 = some entry →
          ∃ report : Diagnostic,
            report.kind = .duplicate (kind.spelling found.name) entry.span ∧
              report.span = found.span ∧
              (Parser.define kind found input state).2 =
                { state with diagnostics := state.diagnostics.push report }) ∧
      tracker.table.LabelsApart ∧
      ∃ siblings, Course .start [] [] siblings ∧ SiblingsShare siblings.table := by
  have orderly := Orderly.start.course steps
  refine ⟨fun kind name span => ?_, ?_, orderly.apart, siblings_share⟩
  · have first := definesFirst orderly.sound orderly.opens kind name span
    refine ⟨?_, first⟩
    cases first with
    | clash entry clashes outcome =>
      simp only [outcome, Option.isSome_some, true_iff]
      exact ⟨entry, clashes⟩
    | new table free outcome gains =>
      simp only [outcome, Option.isSome_none, Bool.false_eq_true, false_iff]
      rintro ⟨entry, clashes⟩
      exact free entry clashes
  · rintro input state kind found entry rfl fails
    cases definesFirst orderly.sound orderly.opens kind found.name found.span with
    | clash earlier clashes outcome =>
      rw [outcome] at fails
      cases fails
      refine ⟨.ofDuplicate ⟨kind, found.name, found.span, state.tracker.scope⟩ entry, rfl, rfl, ?_⟩
      simp only [Parser.define, outcome]
    | new table free outcome gains =>
      rw [outcome] at fails
      cases fails

/-- A label of a scope that has been closed is not defined again in the scope around it. -/
theorem define_firstCome_innerLabel :
    Course .start [] [] innerLabel ∧
      (innerLabel.define .label "a" ⟨9, 11⟩).2.1 = some ⟨.label, "a", ⟨3, 5⟩, 2⟩ ∧
        ∃ entry, innerLabel.ClashesWith .label "a" entry :=
  ⟨innerLabel_course, by cbv,
    ((define_firstCome innerLabel_course).1 .label "a" ⟨9, 11⟩).1.1 (by cbv)⟩

end Tracker

end CirText
