import CirText.Proofs.Grammar.Leaves
import CirText.Proofs.Operation.Extents
import CirText.Proofs.Operation.Surroundings
import CirText.Proofs.Scope.Entries

/-!
# What holds of the operations that are returned

Three things hold of every operation that is read, with or without errors: it stands in its place
and contains the places of its parts (`Operation.Placed`), its names and regions belong to the scope
that it stands in (`Operation.Scoped`), and its regions are divided into blocks as terminators
demand (`Shaped`). `Operation.Sound` says all of it of one operation.
-/

namespace CirText

/-! ## Places -/

/-- Whether a span stands in a text, inside another span. -/
structure Span.Within (text : List Char) (outer span : Span) : Prop where
  on : span.On text
  start : outer.start ≤ span.start
  stop : span.stop ≤ outer.stop

theorem Span.Within.widen {text : List Char} {outer wider span : Span}
    (within : Span.Within text outer span) (start : wider.start ≤ outer.start)
    (stop : outer.stop ≤ wider.stop) : Span.Within text wider span :=
  ⟨within.on, Nat.le_trans start within.start, Nat.le_trans within.stop stop⟩

theorem Span.Within.trans {text : List Char} {outer middle span : Span}
    (inner : Span.Within text middle span) (outside : Span.Within text outer middle) :
    Span.Within text outer span :=
  inner.widen outside.start outside.stop

/-- Whether a place stands in a text, inside a span, and what is kept for it is what stands
there. -/
structure Extent.Within (text : List Char) (outer : Span) (extent : Extent) : Prop where
  span : Span.Within text outer extent.span
  text : ∀ written ∈ extent.text, written = String.ofList (extent.span.slice text)

/-- Whether the header and the operations of a block stand in it, the operations one after the
other. -/
structure Block.Placed (text : List Char) (block : Block Operation) : Prop where
  span : block.span.On text
  definitions : ∀ definition ∈ block.definitions, Span.Within text block.span definition.span
  types : ∀ arg ∈ block.args, Extent.Within text block.span arg.type.extent
  ops : ∀ op ∈ block.ops, Span.Within text block.span op.span
  ordered : block.ops.Pairwise fun first second => first.span.Before second.span

/-- Whether the blocks of a region stand in it, one after the other. -/
structure Region.Placed (text : List Char) (region : Region Operation) : Prop where
  span : region.span.On text
  blocks : ∀ block ∈ region.blocks, Span.Within text region.span block.span ∧ block.Placed text
  ordered : region.blocks.Pairwise fun first second => first.span.Before second.span

/-- Whether the names, places and regions of an operation stand in it, the regions one after the
other. -/
structure Operation.Placed (text : List Char) (op : Operation) : Prop where
  span : op.span.On text
  references : ∀ reference ∈ op.references, Span.Within text op.span reference.span
  definitions : ∀ definition ∈ op.definitions, Span.Within text op.span definition.span
  extents : ∀ extent ∈ op.node.extents, Extent.Within text op.span extent
  regions : ∀ region ∈ op.regions, Span.Within text op.span region.span
  ordered : op.regions.Pairwise fun first second => first.span.Before second.span

/-- A name that is defined in a region stands in it. -/
theorem Region.Placed.definitions {text : List Char} {region : Region Operation}
    (placed : region.Placed text) {definition : Definition}
    (member : definition ∈ region.definitions) : Span.Within text region.span definition.span := by
  obtain ⟨block, inRegion, inBlock⟩ := List.mem_flatMap.1 member
  have found := placed.blocks block inRegion
  exact (found.2.definitions definition inBlock).trans found.1

/-- Whether the header of a module stands in a text, with its name and its attributes inside it. -/
structure ModuleHeader.Placed (text : List Char) (header : ModuleHeader) : Prop where
  span : header.span.On text
  name : ∀ name ∈ header.name, Extent.Within text header.span name.extent
  attributes : ∀ attributes ∈ header.attributes, Extent.Within text header.span attributes.extent

/-! ## Scopes -/

/-- Whether an operation belongs to a scope: its results and the names that it uses do, its regions
are inside that scope, and the parameters of a function belong to its body. The name for which a
function is an alias is not used in that scope, but in the one of the function. -/
structure Operation.Scoped (table : SymbolTable) (scope : ScopeId) (op : Operation) : Prop where
  results : ∀ result ∈ op.results, result.scope = scope
  references : op.opcode ≠ .func → ∀ reference ∈ op.references, reference.scope = scope
  regions : ∀ region ∈ op.regions, (table.scope region.scope).parent = some scope
  parameters : ∀ function, op.payload = .compound (.func function) → ∀ body ∈ function.body,
    ∀ parameter ∈ function.parameters, ∀ name ∈ parameter.name, name.scope = body.scope

/-- Whether the labels and arguments of the blocks of a region belong to its scope. -/
def Region.Scoped (region : Region Operation) : Prop :=
  ∀ definition ∈ region.definitions, definition.scope = region.scope

/-! ## Blocks -/

/-- Whether operations are divided into blocks as terminators demand: a terminator ends its block,
and a block without a label, unless it is the first one, goes on after a terminator. -/
structure Shaped (blocks : List (Block Operation)) : Prop where
  terminators : ∀ block ∈ blocks, ∀ op ∈ block.ops.dropLast, op.isTerminator = false
  labels : blocks.IsChain fun first second =>
    second.label = none → first.terminator.isSome = true

/-! ## Operations -/

/-- What holds of a region of an operation besides what holds of the operations inside it. It stands
at a level, counted from the deepest one allowed, that is not zero. -/
structure Region.Sound (text : List Char) (levels : Nat) (region : Region Operation) : Prop where
  room : 0 < levels
  placed : region.Placed text
  names : region.Scoped
  nonempty : region.blocks ≠ []
  shaped : Shaped region.blocks

/-- What holds of every operation that is read, with the number of levels to which regions may nest
in it and the scope that it stands in. -/
structure Operation.Sound (text : List Char) (table : SymbolTable) (levels : Nat) (scope : ScopeId)
    (op : Operation) : Prop where
  placed : op.Placed text
  names : op.Scoped table scope
  regions : ∀ region ∈ op.regions, region.Sound text levels

/-- What holds of a region that is read and of everything inside it. -/
structure Region.Thorough (text : List Char) (levels : Nat) (table : SymbolTable)
    (region : Region Operation) : Prop where
  sound : region.Sound text levels
  inside : ∀ child ∈ region.ops,
    child.Throughout (Operation.Sound text table) (levels - 1) region.scope

/-- What holds of an operation and of its regions holds throughout it. -/
theorem Operation.Sound.throughout {text : List Char} {table : SymbolTable} {levels : Nat}
    {scope : ScopeId} {op : Operation} (placed : op.Placed text) (names : op.Scoped table scope)
    (regions : ∀ region ∈ op.regions, region.Thorough text levels table) :
    op.Throughout (Operation.Sound text table) levels scope :=
  .of ⟨placed, names, fun region member => (regions region member).sound⟩
    fun region member => (regions region member).inside

/-! ## Modules -/

/-- What holds of a module that is read: its header and its items are as they should be, the items
stand one after the other, and the scopes of all regions ascend. -/
structure Module.Sound (text : List Char) (levels : Nat) (unit : Module) : Prop where
  header : ∀ header ∈ unit.header, header.Placed text
  items : ∀ item ∈ unit.items, item.Throughout (Operation.Sound text unit.symbols) levels .root
  ordered : unit.items.Pairwise fun first second => first.span.Before second.span
  scopes : (unit.allRegions.map (·.scope)).Pairwise (· < ·)
  entries : ∀ definition ∈ unit.symbols.entries, definition.span.On text

end CirText
