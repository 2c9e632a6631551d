import CirText.Scope.Basic

/-!
# Following scopes while a module is read

The tracker knows which scopes are open and which uses of names still wait for a verdict. Since a
name may be defined after its use, a use is judged only when no further definition can reach it: a
label when its scope is closed, a value when the module ends, moving outwards with each scope that
is closed without defining it, and a symbol at the very end.
-/

namespace CirText

/-- Why a reference points nowhere. -/
inductive UnresolvedReason where
  /-- No scope that could define the name does. -/
  | notDefined
  /-- The label is defined, but in a region around the one of its use. -/
  | crossRegion
  /-- The module has no such symbol. -/
  | undeclared
deriving DecidableEq, Repr

/-- The reason in words. -/
def UnresolvedReason.message : UnresolvedReason → String
  | notDefined => "no definition in any enclosing scope"
  | crossRegion => "label belongs to an enclosing region; branches cannot cross regions"
  | undeclared => "no module-level declaration with this name"

/-- A reference that points nowhere. -/
structure Unresolved where
  /-- The reference. -/
  reference : Reference
  /-- Why it points nowhere. -/
  reason : UnresolvedReason
deriving DecidableEq, Repr

/-- An open scope. -/
structure Frame where
  /-- The scope. -/
  scope : ScopeId
  /-- The uses of values and labels that wait for a verdict, in the order in which they came. -/
  waiting : Array Reference := #[]
deriving Repr

/-- The scopes of a module while it is read. -/
structure Tracker where
  /-- All scopes and definitions so far. -/
  table : SymbolTable
  /-- The innermost open scope. -/
  current : Frame
  /-- The open scopes around it, from the inside outwards. -/
  outer : List Frame
  /-- All uses of symbols so far. -/
  symbolUses : Array Reference
deriving Repr

namespace Tracker

/-- The tracker at the start of a module. -/
def start : Tracker where
  table := .empty
  current := { scope := .root }
  outer := []
  symbolUses := #[]

/-- The scope in which names are used and defined. -/
def scope (tracker : Tracker) : ScopeId :=
  tracker.current.scope

/-- The numbers of the open scopes, from the inside outwards. -/
def openScopes (tracker : Tracker) : List ScopeId :=
  tracker.current.scope :: tracker.outer.map (·.scope)

/-- Opens a new scope inside the current one. -/
def push (tracker : Tracker) : Tracker :=
  { tracker with
    table := { tracker.table with
      scopes := tracker.table.scopes.push { parent := some tracker.scope } }
    current := { scope := tracker.table.scopes.size }
    outer := tracker.current :: tracker.outer }

/-- The verdict on a use of a label when its scope is closed. -/
def judgeLabel (table : SymbolTable) (id : ScopeId) (reference : Reference) : Option Unresolved :=
  if (table.labelIn reference.name id).isSome then none
  else if (table.labelAround reference.name id).isSome then some ⟨reference, .crossRegion⟩
  else some ⟨reference, .notDefined⟩

/-- The verdict on a use that waits when a scope inside the module is closed. -/
def judge (table : SymbolTable) (id : ScopeId) (reference : Reference) : Option Unresolved :=
  match reference.kind with
  | .label => judgeLabel table id reference
  | .value | .symbol => none

/-- Whether a use goes on waiting in the scope around when a scope is closed. -/
def movesOut (table : SymbolTable) (id : ScopeId) (reference : Reference) : Bool :=
  reference.kind == .value && (table.valueIn reference.name id).isNone

/-- Closes the innermost scope and judges its uses of labels. Uses of values that it does not define
move to the scope around. The scope of the module stays open. -/
def pop (tracker : Tracker) : Tracker × List Unresolved :=
  match tracker.outer with
  | [] => (tracker, [])
  | parent :: outer =>
    let id := tracker.scope
    let uses := tracker.current.waiting
    let moving := uses.filter (movesOut tracker.table id)
    ({ tracker with current := { parent with waiting := parent.waiting ++ moving }, outer },
      uses.toList.filterMap (judge tracker.table id))

/-- The earlier definition with which a new one of the name would clash. Values must be unique in
their scope and symbols in the module. A label must be unique in its scope, in the scopes around it
and in the scopes inside it; those are the ones that were opened after it. -/
def clash? (tracker : Tracker) (kind : NameKind) (name : String) : Option Definition :=
  match kind with
  | .value => tracker.table.valueIn name tracker.scope
  | .symbol => tracker.table.symbol name
  | .label =>
    tracker.table.labelIn name tracker.scope <|>
    tracker.table.labelAround name tracker.scope <|>
    (tracker.table.scopes.toList.drop (tracker.scope + 1)).findSome? fun scope =>
      findName name scope.labels

/-- The scope that a definition of the kind belongs to. -/
def home (tracker : Tracker) : NameKind → ScopeId
  | .symbol => .root
  | .value | .label => tracker.scope

/-- Defines a name. If it clashes with an earlier definition, nothing is recorded and that
definition is returned too. -/
def define (tracker : Tracker) (kind : NameKind) (name : String) (span : Span) :
    Definition × Option Definition × Tracker :=
  match tracker.clash? kind name with
  | some earlier => (⟨kind, name, span, tracker.scope⟩, some earlier, tracker)
  | none =>
    let definition : Definition := ⟨kind, name, span, tracker.home kind⟩
    (definition, none, { tracker with table := tracker.table.insert definition })

/-- Notes a use of a name in the current scope. -/
def refer (tracker : Tracker) (kind : NameKind) (name : String) (span : Span) :
    Reference × Tracker :=
  let reference : Reference := ⟨kind, name, span, tracker.scope⟩
  match kind with
  | .symbol => (reference, { tracker with symbolUses := tracker.symbolUses.push reference })
  | .value | .label =>
    (reference, { tracker with
      current := { tracker.current with waiting := tracker.current.waiting.push reference } })

/-- Closes the given number of scopes, from the inside outwards. -/
def popMany : Nat → Tracker → Tracker × List Unresolved
  | 0, tracker => (tracker, [])
  | count + 1, tracker =>
    let (tracker, unresolved) := tracker.pop
    let (tracker, more) := popMany count tracker
    (tracker, unresolved ++ more)

/-- The verdict on a use that still waits in the scope of the module when the module ends. -/
def judgeAtEnd (table : SymbolTable) (reference : Reference) : Option Unresolved :=
  let isDefined := match reference.kind with
    | .value => (table.valueIn reference.name .root).isSome
    | .label => (table.labelIn reference.name .root).isSome
    | .symbol => true
  if isDefined then none else some ⟨reference, .notDefined⟩

/-- The verdict on a use of a symbol when the module ends. -/
def judgeSymbol (table : SymbolTable) (reference : Reference) : Option Unresolved :=
  if (table.symbol reference.name).isSome then none else some ⟨reference, .undeclared⟩

/-- Closes all scopes and judges the uses that still wait. -/
def finish (tracker : Tracker) : SymbolTable × List Unresolved :=
  let (closed, unresolved) := popMany tracker.outer.length tracker
  (closed.table,
    unresolved ++
      closed.current.waiting.toList.filterMap (judgeAtEnd closed.table) ++
      closed.symbolUses.toList.filterMap (judgeSymbol closed.table))

end Tracker

end CirText
