import CirText.Opcode
import CirText.Operation.Parts

/-!
# Blocks and regions

A region is a list of blocks between braces, a block a list of operations that ends with a
terminator. What kind of construct a region belongs to decides which terminators its blocks may end
with. The type of operations is a parameter.
-/

namespace CirText

/-- The constructs that a region can belong to. -/
inductive RegionKind where
  /-- The body of a function. -/
  | functionBody
  /-- The condition of a loop. -/
  | loopCondition
  /-- The body or step of a loop. -/
  | loopBody
  /-- The part of an await that asks whether the result is there. -/
  | awaitReady
  /-- A region of any other structured operation. -/
  | structured
  /-- A branch of a conditional value. -/
  | ternaryBranch
  /-- The constructor or destructor of a global. -/
  | initializer
deriving DecidableEq, Repr

namespace RegionKind

/-- All kinds. -/
def all : List RegionKind :=
  [functionBody, loopCondition, loopBody, awaitReady, structured, ternaryBranch, initializer]

/-- The kind in words. -/
def describe : RegionKind → String
  | functionBody => "function body"
  | loopCondition => "loop condition"
  | loopBody => "loop body"
  | awaitReady => "await ready region"
  | structured => "structured region"
  | ternaryBranch => "ternary branch"
  | initializer => "global initializer"

/-- The operations that may end a block, in the order in which messages list them. -/
def terminators : RegionKind → List Opcode
  | functionBody => [.ret, .unreachable, .trap, .throw, .resume, .br, .brcond, .indirectBr]
  | loopCondition => [.condition, .unreachable, .trap]
  | awaitReady => [.condition, .yield, .unreachable, .trap]
  | loopBody =>
    [.yield, .breakLoop, .continueLoop, .ret, .unreachable, .trap, .throw, .resume, .br, .brcond]
  | structured =>
    [.yield, .ret, .breakLoop, .continueLoop, .unreachable, .trap, .throw, .resume, .br, .brcond,
      .indirectBr]
  | ternaryBranch | initializer => [.yield, .unreachable, .trap]

/-- Whether a block may end with the operation. -/
def allows (kind : RegionKind) (opcode : Opcode) : Bool :=
  kind.terminators.contains opcode

/-- The allowed operations as messages list them. -/
def terminatorNames (kind : RegionKind) : String :=
  ", ".intercalate (kind.terminators.map fun opcode => "`" ++ opcode.keyword ++ "`")

end RegionKind

/-- An argument of a block. -/
structure BlockArgument where
  /-- The name. -/
  definition : Definition
  /-- The type. -/
  type : TypeText
deriving DecidableEq, Repr

/-- A list of operations that can be branched to if it has a label. -/
structure Block (O : Type) where
  /-- The label. The first block of a region has none, nor has a block that goes on after a
  terminator. -/
  label : Option Definition
  /-- The arguments. -/
  args : List BlockArgument
  /-- The operations. -/
  ops : List O
  /-- Where the block stands. -/
  span : Span

/-- A list of blocks in a scope of its own. -/
structure Region (O : Type) where
  /-- The construct that the region belongs to. -/
  kind : RegionKind
  /-- The blocks. -/
  blocks : List (Block O)
  /-- The scope of the names used and defined directly in the region. -/
  scope : ScopeId
  /-- Where the region stands, braces included. -/
  span : Span

variable {O P : Type}

/-- The operations directly in a region. -/
def Region.ops (region : Region O) : List O :=
  region.blocks.flatMap (·.ops)

/-- Replaces the operations of a region. -/
def Region.map (f : O → P) (region : Region O) : Region P :=
  { region with
    blocks := region.blocks.map fun block => { block with ops := block.ops.map f } }

/-- Replaces the operations of a region. The function may use that an operation is one of them. -/
def Region.mapMem (region : Region O) (f : (op : O) → op ∈ region.ops → P) : Region P :=
  { region with
    blocks := region.blocks.attach.map fun ⟨block, inRegion⟩ =>
      { block with
        ops := block.ops.attach.map fun ⟨op, inBlock⟩ =>
          f op (List.mem_flatMap.2 ⟨block, inRegion, inBlock⟩) } }

theorem Region.mapMem_eq_map (region : Region O) (f : O → P) :
    region.mapMem (fun op _ => f op) = region.map f := by
  simp [mapMem, map]

theorem Region.sizeOf_lt_of_mem [SizeOf O] {region : Region O} {op : O} (h : op ∈ region.ops) :
    sizeOf op < sizeOf region := by
  obtain ⟨block, inRegion, inBlock⟩ := List.mem_flatMap.1 h
  have inner := List.sizeOf_lt_of_mem inBlock
  have outer := List.sizeOf_lt_of_mem inRegion
  cases region
  cases block
  simp only [Region.mk.sizeOf_spec, Block.mk.sizeOf_spec] at *
  omega

end CirText
