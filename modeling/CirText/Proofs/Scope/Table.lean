import CirText.Scope.Basic
import Mathlib.Data.List.Perm.Basic
import Mathlib.Data.Nat.Basic
import Mathlib.Tactic.ByContra

/-!
# Tables of scopes

Facts about the scopes around a scope and about looking names up, and the invariant that every table
keeps: the scopes form a tree with the module at its root, numbered from the outside inwards, and
each definition is filed under its own kind and scope. Adding a definition or a scope never makes a
name unknown that was known before.
-/

namespace CirText

/-! ## Names in a list of definitions -/

theorem findName_cons (name : String) (definition : Definition) (rest : List Definition) :
    findName name (definition :: rest) =
      if definition.name = name then some definition else findName name rest := by
  by_cases same : definition.name = name
  · simp [findName, same]
  · simp [findName, same]

theorem findName_eq_some {name : String} {definitions : List Definition} {found : Definition}
    (h : findName name definitions = some found) : found ∈ definitions ∧ found.name = name :=
  ⟨List.mem_of_find?_eq_some h, by simpa using List.find?_some h⟩

theorem findName_isSome_cons {name : String} {definition : Definition}
    {definitions : List Definition} (h : (findName name definitions).isSome) :
    (findName name (definition :: definitions)).isSome := by
  rw [findName_cons]
  split
  · rfl
  · exact h

namespace SymbolTable

variable {table : SymbolTable}

/-! ## Scopes of a changed table -/

/-- The table with one more scope inside the given one. -/
def opened (table : SymbolTable) (parent : ScopeId) : SymbolTable :=
  { table with scopes := table.scopes.push { parent := some parent } }

@[simp]
theorem size_opened (table : SymbolTable) (parent : ScopeId) :
    (table.opened parent).scopes.size = table.scopes.size + 1 := by
  simp [opened]

theorem lt_size_opened {id : ScopeId} (parent : ScopeId) (inside : id < table.scopes.size) :
    id < (table.opened parent).scopes.size := by
  rw [size_opened]
  exact Nat.lt_succ_of_lt inside

theorem scope_opened (table : SymbolTable) (parent id : ScopeId) :
    (table.opened parent).scope id =
      if id = table.scopes.size then { parent := some parent } else table.scope id := by
  simp only [scope, opened, Array.getD_eq_getD_getElem?, Array.getElem?_push]
  split <;> simp

@[simp]
theorem size_insert (table : SymbolTable) (definition : Definition) :
    (table.insert definition).scopes.size = table.scopes.size := by
  unfold insert
  split <;> simp

theorem getD_modify {scopes : Array Scope} {home : ScopeId} (inside : home < scopes.size)
    (update : Scope → Scope) (id : ScopeId) :
    (scopes.modify home update).getD id {} =
      if id = home then update (scopes.getD id {}) else scopes.getD id {} := by
  simp only [Array.getD_eq_getD_getElem?, Array.getElem?_modify]
  by_cases here : id = home
  · subst here
    simp [inside]
  · simp [here, Ne.symm here]

theorem scope_insert {definition : Definition} (inside : definition.scope < table.scopes.size)
    (id : ScopeId) :
    (table.insert definition).scope id =
      if id = definition.scope then
        match definition.kind with
        | .value => { table.scope id with values := definition :: (table.scope id).values }
        | .label => { table.scope id with labels := definition :: (table.scope id).labels }
        | .symbol => table.scope id
      else table.scope id := by
  cases kind : definition.kind with
  | value => simp only [scope, insert, kind, getD_modify inside]
  | label => simp only [scope, insert, kind, getD_modify inside]
  | symbol => simp only [scope, insert, kind, ite_self]

theorem parent_insert {definition : Definition} (inside : definition.scope < table.scopes.size)
    (id : ScopeId) : ((table.insert definition).scope id).parent = (table.scope id).parent := by
  rw [scope_insert inside]
  split
  · split <;> rfl
  · rfl

theorem symbols_insert (table : SymbolTable) (definition : Definition) :
    (table.insert definition).symbols =
      if definition.kind = .symbol then definition :: table.symbols else table.symbols := by
  cases kind : definition.kind <;> simp [insert, kind]

theorem values_insert {definition : Definition} (inside : definition.scope < table.scopes.size)
    (id : ScopeId) :
    ((table.insert definition).scope id).values =
      if definition.kind = .value ∧ id = definition.scope then
        definition :: (table.scope id).values
      else (table.scope id).values := by
  rw [scope_insert inside]
  by_cases here : id = definition.scope
  · cases kind : definition.kind <;> simp [here]
  · simp [here]

theorem labels_insert {definition : Definition} (inside : definition.scope < table.scopes.size)
    (id : ScopeId) :
    ((table.insert definition).scope id).labels =
      if definition.kind = .label ∧ id = definition.scope then
        definition :: (table.scope id).labels
      else (table.scope id).labels := by
  rw [scope_insert inside]
  by_cases here : id = definition.scope
  · cases kind : definition.kind <;> simp [here]
  · simp [here]

/-! ## The scopes around a scope -/

theorem enclosing_eq (table : SymbolTable) (id : ScopeId) :
    table.enclosing id =
      match (table.scope id).parent with
      | none => []
      | some parent => if parent < id then parent :: table.enclosing parent else [] := by
  refine (enclosing.eq_def table id).trans ?_
  split <;> simp_all

theorem enclosing_congr {other : SymbolTable} {id : ScopeId}
    (h : ∀ k ≤ id, (table.scope k).parent = (other.scope k).parent) :
    table.enclosing id = other.enclosing id := by
  induction id using Nat.strong_induction_on with
  | _ id ih =>
    rw [enclosing_eq, enclosing_eq other, h id le_rfl]
    split
    · rfl
    · split
      · rename_i parent _ below
        rw [ih parent below fun k le => h k (Nat.le_trans le (Nat.le_of_lt below))]
      · rfl

theorem lt_of_mem_enclosing {id outer : ScopeId} (h : outer ∈ table.enclosing id) : outer < id := by
  induction id using Nat.strong_induction_on with
  | _ id ih =>
    rw [enclosing_eq] at h
    split at h
    · simp at h
    · split at h
      · rename_i parent _ below
        rcases List.mem_cons.1 h with rfl | h
        · exact below
        · exact Nat.lt_trans (ih parent below h) below
      · simp at h

theorem enclosing_insert {definition : Definition} (inside : definition.scope < table.scopes.size)
    (id : ScopeId) : (table.insert definition).enclosing id = table.enclosing id :=
  enclosing_congr fun k _ => parent_insert inside k

theorem enclosing_opened {id : ScopeId} (parent : ScopeId) (inside : id < table.scopes.size) :
    (table.opened parent).enclosing id = table.enclosing id := by
  apply enclosing_congr
  intro k le
  have old : k ≠ table.scopes.size := Nat.ne_of_lt (Nat.lt_of_le_of_lt le inside)
  rw [scope_opened, if_neg old]

/-- The scopes around a new scope are the one it was opened in and those around that. -/
theorem enclosing_opened_size {parent : ScopeId} (inside : parent < table.scopes.size) :
    (table.opened parent).enclosing table.scopes.size = parent :: table.enclosing parent := by
  have new : ((table.opened parent).scope table.scopes.size).parent = some parent := by
    rw [scope_opened, if_pos rfl]
  rw [enclosing_eq, new]
  simp only [inside, if_true, enclosing_opened parent inside]

/-- The scopes around the innermost scope around a scope. -/
theorem enclosing_eq_cons {id parent : ScopeId} {around : List ScopeId}
    (h : table.enclosing id = parent :: around) : table.enclosing parent = around := by
  rw [enclosing_eq] at h
  split at h
  · cases h
  · split at h
    · cases h
      rfl
    · cases h

/-! ## The invariant of tables -/

/-- The scopes form a tree, and every definition stands where it belongs. -/
structure WellFormed (table : SymbolTable) : Prop where
  /-- The module has a scope. -/
  root_lt : ScopeId.root < table.scopes.size
  /-- Nothing is around the module. -/
  parent_root : (table.scope ScopeId.root).parent = none
  /-- Every other scope is inside one that was opened before it. -/
  parent_lt : ∀ id < table.scopes.size, id ≠ ScopeId.root →
    ∃ parent < id, (table.scope id).parent = some parent
  /-- The values of a scope. -/
  values : ∀ id, ∀ definition ∈ (table.scope id).values,
    definition.kind = .value ∧ definition.scope = id
  /-- The labels of a scope. -/
  labels : ∀ id, ∀ definition ∈ (table.scope id).labels,
    definition.kind = .label ∧ definition.scope = id
  /-- The symbols of the module. -/
  symbols : ∀ definition ∈ table.symbols, definition.kind = .symbol ∧
    definition.scope = ScopeId.root

namespace WellFormed

theorem empty : WellFormed .empty where
  root_lt := by decide
  parent_root := rfl
  parent_lt id inside other := by
    have : id = 0 := Nat.lt_one_iff.1 inside
    exact absurd this other
  values id definition member := by
    have none : ((SymbolTable.empty).scope id).values = [] := by
      simp only [SymbolTable.empty, scope, Array.getD_eq_getD_getElem?]
      rcases id with _ | id <;> rfl
    rw [none] at member
    cases member
  labels id definition member := by
    have none : ((SymbolTable.empty).scope id).labels = [] := by
      simp only [SymbolTable.empty, scope, Array.getD_eq_getD_getElem?]
      rcases id with _ | id <;> rfl
    rw [none] at member
    cases member
  symbols definition member := by cases member

theorem opened (wf : table.WellFormed) {parent : ScopeId} (inside : parent < table.scopes.size) :
    (table.opened parent).WellFormed where
  root_lt := by
    rw [size_opened]
    exact Nat.lt_succ_of_lt wf.root_lt
  parent_root := by
    rw [scope_opened, if_neg (Nat.ne_of_lt wf.root_lt), wf.parent_root]
  parent_lt id lt other := by
    rw [scope_opened]
    split
    · rename_i new
      exact ⟨parent, new ▸ inside, rfl⟩
    · rename_i old
      rw [size_opened] at lt
      exact wf.parent_lt id (Nat.lt_of_le_of_ne (Nat.lt_succ_iff.1 lt) old) other
  values id definition member := by
    rw [scope_opened] at member
    split at member
    · cases member
    · exact wf.values id definition member
  labels id definition member := by
    rw [scope_opened] at member
    split at member
    · cases member
    · exact wf.labels id definition member
  symbols := wf.symbols

theorem insert (wf : table.WellFormed) {definition : Definition}
    (inside : definition.scope < table.scopes.size)
    (home : definition.kind = .symbol → definition.scope = ScopeId.root) :
    (table.insert definition).WellFormed where
  root_lt := by
    rw [size_insert]
    exact wf.root_lt
  parent_root := by rw [parent_insert inside, wf.parent_root]
  parent_lt id lt other := by
    rw [parent_insert inside]
    rw [size_insert] at lt
    exact wf.parent_lt id lt other
  values id other member := by
    rw [values_insert inside] at member
    split at member
    · rename_i here
      rcases List.mem_cons.1 member with rfl | member
      · exact ⟨here.1, here.2.symm⟩
      · exact wf.values id other member
    · exact wf.values id other member
  labels id other member := by
    rw [labels_insert inside] at member
    split at member
    · rename_i here
      rcases List.mem_cons.1 member with rfl | member
      · exact ⟨here.1, here.2.symm⟩
      · exact wf.labels id other member
    · exact wf.labels id other member
  symbols other member := by
    rw [symbols_insert] at member
    split at member
    · rename_i kind
      rcases List.mem_cons.1 member with rfl | member
      · exact ⟨kind, home kind⟩
      · exact wf.symbols other member
    · exact wf.symbols other member

/-- A scope with nothing around it is the one of the module. -/
theorem eq_root_of_enclosing_eq_nil (wf : table.WellFormed) {id : ScopeId}
    (inside : id < table.scopes.size) (h : table.enclosing id = []) : id = ScopeId.root := by
  by_contra other
  obtain ⟨parent, below, parent_eq⟩ := wf.parent_lt id inside other
  rw [enclosing_eq, parent_eq] at h
  simp [below] at h

end WellFormed

/-! ## Looking names up -/

/-- What can be said of a definition that a reference points to, and of one that is nearest. -/
theorem WellFormed.valueIn_eq_some (wf : table.WellFormed) {name : String} {id : ScopeId}
    {found : Definition} (h : table.valueIn name id = some found) :
    found.kind = .value ∧ found.name = name ∧ found.scope = id := by
  obtain ⟨member, same⟩ := findName_eq_some h
  obtain ⟨kind, home⟩ := wf.values id found member
  exact ⟨kind, same, home⟩

theorem WellFormed.labelIn_eq_some (wf : table.WellFormed) {name : String} {id : ScopeId}
    {found : Definition} (h : table.labelIn name id = some found) :
    found.kind = .label ∧ found.name = name ∧ found.scope = id := by
  obtain ⟨member, same⟩ := findName_eq_some h
  obtain ⟨kind, home⟩ := wf.labels id found member
  exact ⟨kind, same, home⟩

theorem WellFormed.symbol_eq_some (wf : table.WellFormed) {name : String} {found : Definition}
    (h : table.symbol name = some found) :
    found.kind = .symbol ∧ found.name = name ∧ found.scope = ScopeId.root := by
  obtain ⟨member, same⟩ := findName_eq_some h
  obtain ⟨kind, home⟩ := wf.symbols found member
  exact ⟨kind, same, home⟩

theorem valueIn_opened (table : SymbolTable) (parent : ScopeId) (name : String) {id : ScopeId}
    (old : id ≠ table.scopes.size) :
    (table.opened parent).valueIn name id = table.valueIn name id := by
  rw [valueIn, scope_opened, if_neg old, valueIn]

theorem labelIn_opened (table : SymbolTable) (parent : ScopeId) (name : String) {id : ScopeId}
    (old : id ≠ table.scopes.size) :
    (table.opened parent).labelIn name id = table.labelIn name id := by
  rw [labelIn, scope_opened, if_neg old, labelIn]

/-- A definition does not change what a name means in any scope but its own. -/
theorem valueIn_insert_of_ne {definition : Definition}
    (inside : definition.scope < table.scopes.size) {id : ScopeId}
    (other : definition.kind = .value → id ≠ definition.scope) (name : String) :
    (table.insert definition).valueIn name id = table.valueIn name id := by
  rw [valueIn, values_insert inside, if_neg fun here => other here.1 here.2, valueIn]

theorem labelIn_insert_of_ne {definition : Definition}
    (inside : definition.scope < table.scopes.size) {id : ScopeId}
    (other : definition.kind = .label → id ≠ definition.scope) (name : String) :
    (table.insert definition).labelIn name id = table.labelIn name id := by
  rw [labelIn, labels_insert inside, if_neg fun here => other here.1 here.2, labelIn]

theorem isSome_valueIn_insert {definition : Definition}
    (inside : definition.scope < table.scopes.size) {name : String} {id : ScopeId}
    (h : (table.valueIn name id).isSome) : ((table.insert definition).valueIn name id).isSome := by
  rw [valueIn, values_insert inside]
  split
  · exact findName_isSome_cons h
  · exact h

theorem isSome_labelIn_insert {definition : Definition}
    (inside : definition.scope < table.scopes.size) {name : String} {id : ScopeId}
    (h : (table.labelIn name id).isSome) : ((table.insert definition).labelIn name id).isSome := by
  rw [labelIn, labels_insert inside]
  split
  · exact findName_isSome_cons h
  · exact h

theorem isSome_symbol_insert {definition : Definition} {name : String}
    (h : (table.symbol name).isSome) : ((table.insert definition).symbol name).isSome := by
  rw [symbol, symbols_insert]
  split
  · exact findName_isSome_cons h
  · exact h

/-- A value resolves exactly if a scope around its use defines it. -/
theorem isSome_resolve_value {reference : Reference} (kind : reference.kind = .value) :
    (table.resolve reference).isSome ↔
      ∃ id ∈ table.chain reference.scope, (table.valueIn reference.name id).isSome := by
  simp only [resolve, kind, List.findSome?_isSome_iff]

/-- What resolves goes on resolving when a definition is added. -/
theorem isSome_resolve_insert {definition : Definition}
    (inside : definition.scope < table.scopes.size) {reference : Reference}
    (h : (table.resolve reference).isSome) :
    ((table.insert definition).resolve reference).isSome := by
  cases kind : reference.kind with
  | value =>
    rw [isSome_resolve_value kind] at h ⊢
    obtain ⟨id, member, found⟩ := h
    refine ⟨id, ?_, isSome_valueIn_insert inside found⟩
    rwa [chain, enclosing_insert inside]
  | label =>
    simp only [resolve, kind] at h ⊢
    exact isSome_labelIn_insert inside h
  | symbol =>
    simp only [resolve, kind] at h ⊢
    exact isSome_symbol_insert h

/-- A search does not change when the function agrees on everything searched. -/
theorem findSome?_congr {α β : Type} {f g : α → Option β} :
    ∀ {items : List α}, (∀ item ∈ items, f item = g item) → items.findSome? f = items.findSome? g
  | [], _ => rfl
  | item :: items, h => by
    rw [List.findSome?_cons, List.findSome?_cons, h item List.mem_cons_self,
      findSome?_congr fun other member => h other (List.mem_cons_of_mem item member)]

/-- What a use in an existing scope means is not changed by a new scope. -/
theorem resolve_opened {parent : ScopeId} {reference : Reference}
    (inside : reference.scope < table.scopes.size) :
    (table.opened parent).resolve reference = table.resolve reference := by
  cases kind : reference.kind with
  | value =>
    simp only [resolve, kind, chain, enclosing_opened parent inside]
    have same : ∀ id ∈ reference.scope :: table.enclosing reference.scope,
        (table.opened parent).valueIn reference.name id = table.valueIn reference.name id := by
      intro id member
      apply valueIn_opened
      rcases List.mem_cons.1 member with rfl | member
      · exact Nat.ne_of_lt inside
      · exact Nat.ne_of_lt (Nat.lt_trans (lt_of_mem_enclosing member) inside)
    exact findSome?_congr same
  | label =>
    simp only [resolve, kind]
    exact labelIn_opened table parent _ (Nat.ne_of_lt inside)
  | symbol => simp only [resolve, kind, symbol, opened]

end SymbolTable

end CirText
