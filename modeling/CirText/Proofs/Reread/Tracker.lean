import CirText.Proofs.Reread.Unplaced
import CirText.Proofs.Scope.Table
import CirText.Scope.Tracker

/-!
# Following scopes wherever names stand

What a tracker does with a name, and what it finds wrong in the end, does not depend on where names
stand. So everything that is done with a tracker can be done with the tracker without its places.
-/

namespace CirText

/-! ## Tables -/

theorem findName_unplaced (name : String) (definitions : List Definition) :
    findName name (definitions.map Definition.unplaced) =
      (findName name definitions).map Definition.unplaced := by
  rw [findName, List.find?_map]
  rfl

namespace SymbolTable

variable (table : SymbolTable) (name : String) (id : ScopeId)

theorem scope_unplaced : table.unplaced.scope id = (table.scope id).unplaced := by
  simp only [scope, unplaced, Array.getD_eq_getD_getElem?, Array.getElem?_map]
  cases table.scopes[id]? <;> rfl

theorem enclosing_unplaced : table.unplaced.enclosing id = table.enclosing id := by
  apply enclosing_congr
  intro k _
  rw [scope_unplaced]
  rfl

theorem valueIn_unplaced :
    table.unplaced.valueIn name id = (table.valueIn name id).map Definition.unplaced := by
  rw [valueIn, scope_unplaced]
  exact findName_unplaced _ _

theorem labelIn_unplaced :
    table.unplaced.labelIn name id = (table.labelIn name id).map Definition.unplaced := by
  rw [labelIn, scope_unplaced]
  exact findName_unplaced _ _

theorem symbol_unplaced :
    table.unplaced.symbol name = (table.symbol name).map Definition.unplaced :=
  findName_unplaced _ _

theorem labelAround_unplaced :
    table.unplaced.labelAround name id = (table.labelAround name id).map Definition.unplaced := by
  rw [labelAround, labelAround, enclosing_unplaced, List.map_findSome?]
  congr 1
  funext scope
  exact table.labelIn_unplaced name scope

theorem insert_unplaced (definition : Definition) :
    (table.insert definition).unplaced = table.unplaced.insert definition.unplaced := by
  have modified : ∀ {f g : Scope → Scope}, (∀ scope, (f scope).unplaced = g scope.unplaced) →
      (table.scopes.modify definition.scope f).map Scope.unplaced =
        (table.scopes.map Scope.unplaced).modify definition.scope g := by
    intro f g same
    apply Array.ext_getElem?
    intro index
    simp only [Array.getElem?_map, Array.getElem?_modify]
    split
    · cases table.scopes[index]? <;> simp [same]
    · rfl
  obtain ⟨kind, name, span, scope⟩ := definition
  have built : ∀ {scopes others : Array Scope}, scopes.map Scope.unplaced = others →
      (SymbolTable.mk scopes table.symbols).unplaced =
        ⟨others, table.symbols.map Definition.unplaced⟩ := by
    rintro scopes _ rfl
    rfl
  cases kind with
  | value => exact built (modified fun _ => rfl)
  | label => exact built (modified fun _ => rfl)
  | symbol => rfl

end SymbolTable

/-! ## Trackers -/

/-- The open scope without the places of the uses that wait in it. -/
def Frame.unplaced (frame : Frame) : Frame where
  scope := frame.scope
  waiting := frame.waiting.map Reference.unplaced

/-- The verdict without the place of the reference. -/
def Unresolved.unplaced (verdict : Unresolved) : Unresolved :=
  ⟨verdict.reference.unplaced, verdict.reason⟩

namespace Tracker

/-- The tracker without the places of names. -/
def unplaced (tracker : Tracker) : Tracker where
  table := tracker.table.unplaced
  current := tracker.current.unplaced
  outer := tracker.outer.map Frame.unplaced
  symbolUses := tracker.symbolUses.map Reference.unplaced

variable (tracker : Tracker)

theorem scope_unplaced : tracker.unplaced.scope = tracker.scope :=
  rfl

theorem home_unplaced (kind : NameKind) : tracker.unplaced.home kind = tracker.home kind := by
  cases kind <;> rfl

theorem refer_unplaced (kind : NameKind) (name : String) (span : Span) :
    (tracker.refer kind name span).1.unplaced = (tracker.unplaced.refer kind name .nowhere).1 ∧
      (tracker.refer kind name span).2.unplaced =
        (tracker.unplaced.refer kind name .nowhere).2 := by
  cases kind <;> simp [refer, unplaced, Frame.unplaced, Reference.unplaced, scope]

theorem clash?_unplaced (kind : NameKind) (name : String) :
    tracker.unplaced.clash? kind name = (tracker.clash? kind name).map Definition.unplaced := by
  cases kind with
  | value => exact tracker.table.valueIn_unplaced name tracker.scope
  | symbol => exact tracker.table.symbol_unplaced name
  | label =>
    have inside : ∀ scopes : List Scope,
        (scopes.map Scope.unplaced).findSome? (fun scope => findName name scope.labels) =
          (scopes.findSome? fun scope => findName name scope.labels).map Definition.unplaced := by
      intro scopes
      rw [List.findSome?_map, List.map_findSome?]
      congr 1
      funext scope
      exact findName_unplaced name scope.labels
    have dropped := inside (tracker.table.scopes.toList.drop (tracker.scope + 1))
    rw [List.map_drop, ← Array.toList_map] at dropped
    simp only [clash?, scope_unplaced]
    rw [show tracker.unplaced.table = tracker.table.unplaced from rfl,
      SymbolTable.labelIn_unplaced, SymbolTable.labelAround_unplaced]
    rw [show tracker.table.unplaced.scopes = tracker.table.scopes.map Scope.unplaced from rfl,
      dropped]
    cases tracker.table.labelIn name tracker.scope <;>
      cases tracker.table.labelAround name tracker.scope <;> rfl

theorem push_unplaced : tracker.push.unplaced = tracker.unplaced.push := by
  simp [push, unplaced, SymbolTable.unplaced, Frame.unplaced, Scope.unplaced, scope]

theorem judge_unplaced (table : SymbolTable) (id : ScopeId) (used : Reference) :
    judge table.unplaced id used.unplaced = (judge table id used).map Unresolved.unplaced := by
  obtain ⟨kind, name, span, scope⟩ := used
  cases kind with
  | label =>
    simp only [judge, judgeLabel, Reference.unplaced, SymbolTable.labelIn_unplaced,
      SymbolTable.labelAround_unplaced, Option.isSome_map]
    split
    · rfl
    · split <;> rfl
  | _ => rfl

theorem movesOut_unplaced (table : SymbolTable) (id : ScopeId) (used : Reference) :
    movesOut table.unplaced id used.unplaced = movesOut table id used := by
  rw [movesOut, movesOut, show used.unplaced.name = used.name from rfl,
    SymbolTable.valueIn_unplaced, Option.isNone_map]
  rfl

theorem filterMap_unplaced {verdict : Reference → Option Unresolved}
    {other : Reference → Option Unresolved}
    (same : ∀ used, other used.unplaced = (verdict used).map Unresolved.unplaced)
    (uses : List Reference) :
    (uses.map Reference.unplaced).filterMap other =
      (uses.filterMap verdict).map Unresolved.unplaced := by
  rw [List.filterMap_map, List.map_filterMap]
  congr 1
  funext used
  exact same used

theorem pop_unplaced :
    tracker.unplaced.pop = (tracker.pop.1.unplaced, tracker.pop.2.map Unresolved.unplaced) := by
  obtain ⟨table, ⟨scope, waiting⟩, outer, symbolUses⟩ := tracker
  cases outer with
  | nil => rfl
  | cons parent outer =>
    have verdicts := filterMap_unplaced (judge_unplaced table scope) waiting.toList
    have moving : (waiting.map Reference.unplaced).filter (movesOut table.unplaced scope) =
        (waiting.filter (movesOut table scope)).map Reference.unplaced := by
      rw [Array.filter_map]
      congr 2
      funext used
      exact movesOut_unplaced table scope used
    simp only [pop, unplaced, Frame.unplaced, Tracker.scope, List.map_cons]
    rw [moving, Array.map_append, Array.toList_map, verdicts]

theorem popMany_unplaced (count : Nat) : popMany count tracker.unplaced =
    ((popMany count tracker).1.unplaced,
      (popMany count tracker).2.map Unresolved.unplaced) := by
  induction count generalizing tracker with
  | zero => rfl
  | succ count ih =>
    simp only [popMany, pop_unplaced, ih, List.map_append]

theorem judgeAtEnd_unplaced (table : SymbolTable) (used : Reference) :
    judgeAtEnd table.unplaced used.unplaced = (judgeAtEnd table used).map Unresolved.unplaced := by
  obtain ⟨kind, name, span, scope⟩ := used
  cases kind <;>
    simp only [judgeAtEnd, Reference.unplaced, SymbolTable.valueIn_unplaced,
      SymbolTable.labelIn_unplaced, Option.isSome_map] <;>
    split <;> rfl

theorem judgeSymbol_unplaced (table : SymbolTable) (used : Reference) :
    judgeSymbol table.unplaced used.unplaced =
      (judgeSymbol table used).map Unresolved.unplaced := by
  rw [judgeSymbol, judgeSymbol, show used.unplaced.name = used.name from rfl,
    SymbolTable.symbol_unplaced, Option.isSome_map]
  split <;> rfl

theorem finish_unplaced : tracker.unplaced.finish =
    (tracker.finish.1.unplaced, tracker.finish.2.map Unresolved.unplaced) := by
  have size : tracker.unplaced.outer.length = tracker.outer.length := List.length_map _
  rw [finish, size, popMany_unplaced]
  let closed := (popMany tracker.outer.length tracker).1
  have uses := filterMap_unplaced (judgeSymbol_unplaced closed.table) closed.symbolUses.toList
  have waiting :=
    filterMap_unplaced (judgeAtEnd_unplaced closed.table) closed.current.waiting.toList
  simp only [finish, List.map_append]
  rw [← uses, ← waiting, ← Array.toList_map, ← Array.toList_map]
  rfl

/-- If one of two trackers that differ in the places of names only finds nothing wrong in the end,
neither does the other, and they end with tables that differ in places only. -/
theorem finish_of_unplaced {tracker other : Tracker} (same : other.unplaced = tracker.unplaced)
    {table : SymbolTable} (finished : tracker.finish = (table, [])) :
    ∃ found, other.finish = (found, []) ∧ found.unplaced = table.unplaced := by
  have both := other.finish_unplaced
  rw [same, tracker.finish_unplaced, finished] at both
  obtain ⟨tables, verdicts⟩ := Prod.mk.inj both
  refine ⟨other.finish.1, Prod.ext rfl ?_, tables.symm⟩
  exact List.map_eq_nil_iff.1 verdicts.symm

end Tracker

end CirText
