import CirText.Scope.Tracker
import CirText.Proofs.Scope.Table

/-!
# The entries of a table

All definitions that a table holds, in whichever scope. Defining a name adds exactly one entry, and
opening, closing and using names adds none, as long as the open scopes are scopes of the table.
-/

namespace CirText

/-- The values and labels of a scope. -/
def Scope.entries (scope : Scope) : List Definition :=
  scope.values ++ scope.labels

namespace SymbolTable

variable {table : SymbolTable}

/-- All definitions of a table: the symbols of the module, and the values and labels of all
scopes. -/
def entries (table : SymbolTable) : List Definition :=
  table.symbols ++ table.scopes.toList.flatMap Scope.entries

theorem entries_opened (table : SymbolTable) (parent : ScopeId) :
    (table.opened parent).entries = table.entries := by
  simp [entries, opened, Scope.entries]

private theorem perm_modify {update : Scope → Scope} {definition : Definition}
    (adds : ∀ scope, (update scope).entries.Perm (definition :: scope.entries))
    {scopes : List Scope} {home : Nat} (inside : home < scopes.length) :
    ((scopes.modify home update).flatMap Scope.entries).Perm
      (definition :: scopes.flatMap Scope.entries) := by
  induction scopes generalizing home with
  | nil => cases inside
  | cons scope scopes ih =>
    cases home with
    | zero => exact (adds scope).append_right _
    | succ home =>
      rw [List.modify_succ_cons, List.flatMap_cons, List.flatMap_cons]
      exact ((ih (Nat.lt_of_succ_lt_succ inside)).append_left _).trans List.perm_middle

/-- A definition becomes an entry. -/
theorem entries_insert {definition : Definition}
    (inside : definition.scope < table.scopes.size) :
    (table.insert definition).entries.Perm (definition :: table.entries) := by
  unfold insert entries
  cases definition.kind with
  | value =>
    rw [Array.toList_modify]
    apply (List.Perm.append_left _ (perm_modify _ inside)).trans List.perm_middle
    intro scope
    exact .refl _
  | label =>
    rw [Array.toList_modify]
    apply (List.Perm.append_left _ (perm_modify _ inside)).trans List.perm_middle
    intro scope
    exact List.perm_middle
  | symbol => exact .refl _

end SymbolTable

namespace Tracker

variable {tracker : Tracker}

/-- Whether the open scopes, and that of the module, are scopes of the table. -/
structure Fits (tracker : Tracker) : Prop where
  root : ScopeId.root < tracker.table.scopes.size
  openScopes : ∀ id ∈ tracker.openScopes, id < tracker.table.scopes.size

theorem Fits.start : Tracker.start.Fits where
  root := Nat.zero_lt_one
  openScopes := by
    intro id member
    rw [List.mem_singleton.1 member]
    exact Nat.zero_lt_one

theorem Fits.push (fits : tracker.Fits) : tracker.push.Fits where
  root := SymbolTable.lt_size_opened _ fits.root
  openScopes := by
    intro id member
    rcases List.mem_cons.1 member with rfl | around
    · change tracker.table.scopes.size < (tracker.table.opened tracker.scope).scopes.size
      rw [SymbolTable.size_opened]
      exact Nat.lt_succ_self _
    · exact SymbolTable.lt_size_opened _ (fits.openScopes id around)

theorem table_pop (tracker : Tracker) : tracker.pop.1.table = tracker.table := by
  unfold pop
  split <;> rfl

theorem Fits.pop (fits : tracker.Fits) : tracker.pop.1.Fits where
  root := by
    rw [table_pop]
    exact fits.root
  openScopes := by
    rw [table_pop]
    intro id member
    apply fits.openScopes
    cases around : tracker.outer with
    | nil =>
      have stays : tracker.pop.1 = tracker := by simp [Tracker.pop, around]
      rw [stays] at member
      exact member
    | cons parent outer =>
      have closed : tracker.pop.1.openScopes = tracker.outer.map (·.scope) := by
        simp [Tracker.pop, Tracker.openScopes, around]
      rw [closed] at member
      exact List.mem_cons_of_mem _ member

theorem Fits.home_lt (fits : tracker.Fits) (kind : NameKind) :
    tracker.home kind < tracker.table.scopes.size := by
  cases kind with
  | symbol => exact fits.root
  | value => exact fits.openScopes _ List.mem_cons_self
  | label => exact fits.openScopes _ List.mem_cons_self

theorem Fits.insert (fits : tracker.Fits) (definition : Definition) :
    { tracker with table := tracker.table.insert definition : Tracker }.Fits where
  root := by
    rw [SymbolTable.size_insert]
    exact fits.root
  openScopes := by
    intro id member
    rw [SymbolTable.size_insert]
    exact fits.openScopes id member

theorem table_refer (tracker : Tracker) (kind : NameKind) (name : String) (span : Span) :
    (tracker.refer kind name span).2.table = tracker.table := by
  cases kind <;> rfl

theorem Fits.refer (fits : tracker.Fits) (kind : NameKind) (name : String) (span : Span) :
    (tracker.refer kind name span).2.Fits where
  root := by
    rw [table_refer]
    exact fits.root
  openScopes := by
    intro id member
    rw [table_refer]
    apply fits.openScopes
    cases kind <;> exact member

theorem table_popMany (count : Nat) (tracker : Tracker) :
    (tracker.popMany count).1.table = tracker.table := by
  induction count generalizing tracker with
  | zero => rfl
  | succ count ih => exact (ih tracker.pop.1).trans (table_pop tracker)

/-- At the end the table is the one of the tracker. -/
theorem table_finish (tracker : Tracker) : tracker.finish.1 = tracker.table :=
  table_popMany _ tracker

end Tracker

end CirText
