import CirText.Operation.Compound
import CirText.Operation.Instruction
import CirText.Operation.Region

/-!
# Operations

An operation has a number, names for its results, a payload that says what it does, the form in
which it was written, an optional attribute at its end, and a span. Operations and regions contain
each other. Whatever is computed from an operation together with everything inside it is computed by
`Operation.fold`, and proofs about operations go by `Operation.induction`.
-/

namespace CirText

/-- The surface forms of operations. Those that can be written in one way only are canonical. -/
inductive Form where
  | canonical
  | direct
  | indirect
  | exceptionPointer
  | successors
  | parenthesized
  | bare
  | labeled
  | fluent
  | toForm
  | comma
  | singleType
  | dualType
  | parenthesizedValue
  | dialectAttribute
  | attributeAlias
deriving DecidableEq, Repr

/-- The name of a form. -/
def Form.name : Form → String
  | canonical => "canonical"
  | direct => "direct"
  | indirect => "indirect"
  | exceptionPointer => "exception-pointer"
  | successors => "successors"
  | parenthesized => "parenthesized"
  | bare => "bare"
  | labeled => "labeled"
  | fluent => "fluent"
  | toForm => "to"
  | comma => "comma"
  | singleType => "single-type"
  | dualType => "dual-type"
  | parenthesizedValue => "parenthesized-value"
  | dialectAttribute => "dialect-attribute"
  | attributeAlias => "attribute-alias"

/-- The form of a memory access, which its types decide. -/
def AccessTypes.form : AccessTypes → Form
  | single _ => .singleType
  | dual .. => .dualType

/-- What an operation does: an instruction, or an operation with regions. -/
inductive Payload (R : Type) where
  | instruction (plain : Instruction)
  | compound (structured : Compound R)

namespace Payload

variable {R S : Type}

/-- The operation code. -/
def opcode : Payload R → Opcode
  | .instruction plain => plain.opcode
  | .compound structured => structured.opcode

/-- The regions in source order. -/
def regions : Payload R → List R
  | .instruction _ => []
  | .compound structured => structured.regions

/-- Replaces the regions. The function may use that a region is one of them. -/
def mapMem : (payload : Payload R) → ((region : R) → region ∈ payload.regions → S) → Payload S
  | .instruction plain, _ => .instruction plain
  | .compound structured, f => .compound (structured.mapMem f)

end Payload

/-- An operation whose regions are of the type `R`. -/
structure Node (R : Type) where
  /-- The number of the operation. Numbers are given in source order. -/
  id : Nat
  /-- The names of the results. -/
  results : List Definition
  /-- What the operation does. -/
  payload : Payload R
  /-- The form in which it is written. -/
  form : Form
  /-- The attribute at its end. -/
  extra : Option AttributeText
  /-- Where it stands. -/
  span : Span

namespace Node

variable {R S : Type}

/-- The operation code. -/
def opcode (node : Node R) : Opcode :=
  node.payload.opcode

/-- The regions in source order. -/
def regions (node : Node R) : List R :=
  node.payload.regions

/-- Whether the operation ends its block. A call that may throw does so if it branches. -/
def isTerminator (node : Node R) : Bool :=
  match node.payload with
  | .instruction (.tryCall _ _ (.successors ..) _ _) => true
  | payload => payload.opcode.isTerminator

/-- The names that the operation itself refers to, in the order of the text, not counting its
regions. A copy in the comma form is written with its destination first. -/
def references (node : Node R) : List Reference :=
  match node.payload with
  | .instruction (.copy source dest _) =>
    if node.form = .comma then [dest, source] else [source, dest]
  | .instruction plain => plain.references
  | .compound structured => structured.references

/-- Replaces the regions. The function may use that a region is one of them. -/
def mapMem (node : Node R) (f : (region : R) → region ∈ node.regions → S) : Node S :=
  { node with payload := node.payload.mapMem f }

/-- Replaces the regions. -/
def map (f : R → S) (node : Node R) : Node S :=
  node.mapMem fun region _ => f region

end Node

/-- An operation with everything inside it. -/
inductive Operation where
  | of (node : Node (Region Operation))

namespace Operation

/-- The operation without looking into its regions. -/
def node : Operation → Node (Region Operation)
  | of node => node

/-- The number of the operation. -/
def id (op : Operation) : Nat := op.node.id

/-- The names of the results. -/
def results (op : Operation) : List Definition := op.node.results

/-- What the operation does. -/
def payload (op : Operation) : Payload (Region Operation) := op.node.payload

/-- The form in which the operation is written. -/
def form (op : Operation) : Form := op.node.form

/-- The attribute at the end of the operation. -/
def extra (op : Operation) : Option AttributeText := op.node.extra

/-- Where the operation stands. -/
def span (op : Operation) : Span := op.node.span

/-- The operation code. -/
def opcode (op : Operation) : Opcode := op.node.opcode

/-- The regions in source order. -/
def regions (op : Operation) : List (Region Operation) := op.node.regions

/-- Whether the operation ends its block. -/
def isTerminator (op : Operation) : Bool := op.node.isTerminator

/-- The names that the operation itself refers to, not counting its regions. -/
def references (op : Operation) : List Reference := op.node.references

/-- The operations directly in the regions of an operation, in source order. -/
def children (op : Operation) : List Operation :=
  op.regions.flatMap Region.ops

end Operation

/-- The closing operation of a block, if its last operation is a terminator. -/
def Block.terminator (block : Block Operation) : Option Operation :=
  block.ops.getLast?.filter Operation.isTerminator

/-- Whether an operation may close a block of a region. A call that may throw and branches goes
wherever a branch may go. -/
def RegionKind.accepts (kind : RegionKind) (op : Operation) : Bool :=
  if op.opcode = .tryCall then kind.allows .br else kind.allows op.opcode

/-! ## Recursion into regions -/

private theorem sizeOf_lt_of_mem_toList {R : Type} [SizeOf R] {region : R} {optional : Option R}
    (h : region ∈ optional.toList) : sizeOf region < sizeOf optional := by
  rw [Option.mem_toList] at h
  cases h
  simp

theorem Initializer.sizeOf_lt_of_mem {R : Type} [SizeOf R] {init : Initializer R} {region : R}
    (h : region ∈ init.regions) : sizeOf region < sizeOf init := by
  cases init with
  | constructed type ctor dtor =>
    rcases List.mem_cons.1 h with rfl | h
    · simp only [constructed.sizeOf_spec]; omega
    · have := sizeOf_lt_of_mem_toList h
      simp only [constructed.sizeOf_spec]; omega
  | destructed type dtor =>
    rw [List.mem_singleton.1 h]
    simp only [destructed.sizeOf_spec]; omega
  | given value => simp [regions] at h

theorem Compound.sizeOf_lt_of_mem {R : Type} [SizeOf R] {compound : Compound R} {region : R}
    (h : region ∈ compound.regions) : sizeOf region < sizeOf compound := by
  cases compound with
  | func function =>
    have := sizeOf_lt_of_mem_toList h
    cases function
    simp only [func.sizeOf_spec, Function.mk.sizeOf_spec] at *
    omega
  | global decl =>
    obtain ⟨_, _, _, init, _, _⟩ := decl
    cases init with
    | none => simp [regions] at h
    | some init =>
      have inInit : region ∈ init.regions := by simpa [regions] using h
      have := Initializer.sizeOf_lt_of_mem inInit
      simp only [global.sizeOf_spec, Global.mk.sizeOf_spec, Option.some.sizeOf_spec]
      omega
  | tryCatch body clauses cleanup =>
    simp only [regions, List.cons_append, List.mem_cons, List.mem_append, List.mem_map] at h
    simp only [tryCatch.sizeOf_spec]
    rcases h with rfl | ⟨clause, member, rfl⟩ | h
    · omega
    · cases clauses with
      | none => simp at member
      | some list =>
        have := List.sizeOf_lt_of_mem (by simpa using member : clause ∈ list)
        cases clause
        simp only [Handler.mk.sizeOf_spec, Option.some.sizeOf_spec] at *
        omega
    · have := sizeOf_lt_of_mem_toList h
      omega
  | loop kind cond body step result =>
    simp only [regions, List.mem_append, List.mem_cons] at h
    simp only [loop.sizeOf_spec]
    rcases h with h | rfl | h
    · have := sizeOf_lt_of_mem_toList h; omega
    · omega
    · have := sizeOf_lt_of_mem_toList h; omega
  | ifElse cond first optional result | scope first optional result =>
    rcases List.mem_cons.1 h with rfl | h
    · simp only [ifElse.sizeOf_spec, scope.sizeOf_spec]; omega
    · have := sizeOf_lt_of_mem_toList h
      simp only [ifElse.sizeOf_spec, scope.sizeOf_spec]; omega
  | forLoop | whileLoop | doWhile | await | switch | caseArm | ternary =>
    simp only [regions, List.mem_cons, List.not_mem_nil, or_false] at h
    simp only [forLoop.sizeOf_spec, whileLoop.sizeOf_spec, doWhile.sizeOf_spec, await.sizeOf_spec,
      switch.sizeOf_spec, caseArm.sizeOf_spec, ternary.sizeOf_spec]
    rcases h with rfl | rfl | rfl <;> omega

namespace Operation

theorem sizeOf_region_lt {node : Node (Region Operation)} {region : Region Operation}
    (h : region ∈ node.regions) : sizeOf region < sizeOf (of node) := by
  obtain ⟨_, _, payload, _, _, _⟩ := node
  cases payload with
  | instruction plain => simp [Node.regions, Payload.regions] at h
  | compound structured =>
    have inStructured : region ∈ structured.regions := h
    have := Compound.sizeOf_lt_of_mem inStructured
    simp only [of.sizeOf_spec, Node.mk.sizeOf_spec, Payload.compound.sizeOf_spec]
    omega

theorem sizeOf_lt_of_mem_ops {node : Node (Region Operation)} {region : Region Operation}
    {op : Operation} (inNode : region ∈ node.regions) (inRegion : op ∈ region.ops) :
    sizeOf op < sizeOf (of node) :=
  Nat.lt_trans (Region.sizeOf_lt_of_mem inRegion) (sizeOf_region_lt inNode)

theorem sizeOf_lt_of_mem_children {op child : Operation} (h : child ∈ op.children) :
    sizeOf child < sizeOf op := by
  obtain ⟨node⟩ := op
  obtain ⟨region, inNode, inRegion⟩ := List.mem_flatMap.1 h
  exact sizeOf_lt_of_mem_ops inNode inRegion

/-- To prove something of all operations, prove it of an operation from the operations directly in
its regions. -/
theorem induction {motive : Operation → Prop}
    (step : ∀ op, (∀ child ∈ op.children, motive child) → motive op) (op : Operation) :
    motive op :=
  step op fun child _inside => induction step child
termination_by sizeOf op
decreasing_by exact sizeOf_lt_of_mem_children _inside

/-- Computes a value from an operation, given how to compute it once all operations inside have been
replaced by their values. -/
def fold {α : Type} (combine : Node (Region α) → α) : Operation → α
  | of node =>
    combine <| node.mapMem fun region _inNode =>
      region.mapMem fun op _inRegion => fold combine op
termination_by op => sizeOf op
decreasing_by exact sizeOf_lt_of_mem_ops _inNode _inRegion

theorem fold_of {α : Type} (combine : Node (Region α) → α) (node : Node (Region Operation)) :
    fold combine (of node) = combine (node.map (Region.map (fold combine))) := by
  rw [fold]
  simp only [Region.mapMem_eq_map]
  rfl

end Operation

end CirText
