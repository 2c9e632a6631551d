import CirText.Operation.Walk
import CirText.Proofs.Grammar.Regions
import CirText.Proofs.Grammar.Spacing

/-!
# The leaves of operations

The pieces of an operation with those of its regions in their place are its leaves: the tokens,
names, types and attributes of its whole text in the order in which they are printed. The names
that are defined or used among them are the ones that the operation and the operations inside it
define or use.
-/

namespace CirText

variable {R S : Type}

/-- A piece that is not a region. -/
abbrev Leaf := Piece Empty

namespace Piece

/-- The leaves of a piece, given those of regions. -/
def flatten (region : R → List Leaf) : Piece R → List Leaf
  | .blank => [.blank]
  | .token kind text => [.token kind text]
  | .reference used => [.reference used]
  | .definition defined => [.definition defined]
  | .type written => [.type written]
  | .attribute value => [.attribute value]
  | .region inner => region inner

theorem flatten_map (f : R → S) (region : S → List Leaf) (piece : Piece R) :
    (piece.map f).flatten region = piece.flatten (region ∘ f) := by
  cases piece <;> rfl

/-- Where the text of a type or an attribute stands. -/
def opaqueSpans : Piece R → List Span
  | .type written => [written.span]
  | .attribute value => [value.span]
  | _ => []

end Piece

/-- The names of the results with an equals sign. -/
def resultLeaves (results : List Definition) : List Leaf :=
  if results.isEmpty then []
  else Piece.commaed (results.map fun defined => [.definition defined]) ++
    [.blank, .punct .equal, .blank]

/-- The label and the arguments of a block. -/
def Block.headerLeaves {O : Type} (block : Block O) : List Leaf :=
  match block.label with
  | none => []
  | some label => .blank :: (Grammar.blockHeader (R := Empty)).pieces (label, block.args)

/-- The leaves of a block, given those of its operations. -/
def Block.leaves (block : Block (List Leaf)) : List Leaf :=
  block.headerLeaves ++ block.ops.flatMap fun op => .blank :: op

/-- The leaves of a region, given those of its operations. -/
def Region.leaves (region : Region (List Leaf)) : List Leaf :=
  .punct .leftBrace :: (region.blocks.flatMap Block.leaves ++ [.blank, .punct .rightBrace])

/-- The leaves of an operation, given those of the operations in its regions. -/
def Node.leaves (node : Node (Region (List Leaf))) : List Leaf :=
  resultLeaves node.results ++ .token .keyword node.opcode.keyword ::
    ((Grammar.body node.opcode node.form).pieces ⟨node.payload, node.extra⟩).flatMap
      (Piece.flatten Region.leaves)

/-- The leaves of an operation. -/
def Operation.leaves : Operation → List Leaf :=
  Operation.fold Node.leaves

/-- The leaves of a region of operations. -/
def Region.allLeaves (region : Region Operation) : List Leaf :=
  (region.map Operation.leaves).leaves

/-- Whether an operation is one that can be written: the grammar of its form can build it, its
pieces do not run together, and the blocks of its regions that have arguments have labels. -/
structure Operation.Built (op : Operation) : Prop where
  body : (Grammar.body op.opcode op.form).Builds ⟨op.payload, op.extra⟩
  spaced : Piece.Spaced ((Grammar.body op.opcode op.form).pieces ⟨op.payload, op.extra⟩)
  blocks : ∀ region ∈ op.regions, ∀ block ∈ region.blocks, block.label = none → block.args = []

theorem Node.opcode_map (f : R → S) (node : Node R) : (node.map f).opcode = node.opcode := by
  obtain ⟨id, results, payload, form, extra, span⟩ := node
  cases payload with
  | instruction plain => rfl
  | compound structured => cases structured <;> rfl

/-- The pieces of an operation when its regions are replaced. -/
theorem Node.pieces_map (f : R → S) (node : Node R)
    (built : (Grammar.body node.opcode node.form).Builds ⟨node.payload, node.extra⟩) :
    (Grammar.body (node.map f).opcode (node.map f).form).pieces
        ⟨(node.map f).payload, (node.map f).extra⟩ =
      ((Grammar.body node.opcode node.form).pieces ⟨node.payload, node.extra⟩).map
        (Piece.map f) := by
  rw [Node.opcode_map]
  exact Grammar.body_natural f node.opcode node.form ⟨node.payload, node.extra⟩ built

/-- The leaves of an operation are those of its results and of its body. -/
theorem Operation.leaves_eq {op : Operation} (built : op.Built) :
    op.leaves = resultLeaves op.results ++ .token .keyword op.opcode.keyword ::
      ((Grammar.body op.opcode op.form).pieces ⟨op.payload, op.extra⟩).flatMap
        (Piece.flatten Region.allLeaves) := by
  obtain ⟨node⟩ := op
  have pieces := Node.pieces_map (Region.map (fold Node.leaves)) node built.body
  rw [Operation.leaves, Operation.fold_of, Node.leaves, pieces, Node.opcode_map, List.flatMap_map]
  simp only [Piece.flatten_map]
  rfl

/-! ## Names in operations -/

/-- The names that a block defines. -/
def Block.definitions {O : Type} (block : Block O) : List Definition :=
  block.label.toList ++ block.args.map (·.definition)

/-- The names that the blocks of a region define. -/
def Region.definitions {O : Type} (region : Region O) : List Definition :=
  region.blocks.flatMap Block.definitions

/-- The names that the operation itself defines: its results, its own name and its parameters, and
the labels and arguments of the blocks of its regions. -/
def Operation.definitions (op : Operation) : List Definition :=
  op.results ++ op.payload.definitions ++ op.regions.flatMap Region.definitions

/-- What the operation itself defines and uses. -/
def Operation.ownMentions (op : Operation) : List (Mention Empty) :=
  op.definitions.map .definition ++ op.references.map .reference

/-- A mention with those of its region in its place. -/
def Mention.flatten (region : R → List (Mention Empty)) : Mention R → List (Mention Empty)
  | .definition defined => [.definition defined]
  | .reference used => [.reference used]
  | .region inner => region inner

theorem mentions_flatten (region : R → List Leaf) (pieces : List (Piece R)) :
    mentions (pieces.flatMap (Piece.flatten region)) =
      (mentions pieces).flatMap (Mention.flatten fun inner => mentions (region inner)) := by
  rw [mentions_flatMap]
  induction pieces using mentions.induct <;>
    simp_all [Piece.flatten, Mention.flatten]

theorem mentions_resultLeaves (results : List Definition) :
    mentions (resultLeaves results) = results.map .definition := by
  unfold resultLeaves
  split
  · rename_i empty
    rw [List.isEmpty_iff.1 empty]
    rfl
  · simp [List.flatMap_map, ← List.map_eq_flatMap]

theorem mentions_blockArguments (args : List BlockArgument) :
    mentions ((Grammar.blockArguments (R := R)).pieces args) =
      args.map fun arg => .definition arg.definition := by
  have one (arg : BlockArgument) : mentions ((Grammar.blockArgument (R := R)).pieces arg) =
      [.definition arg.definition] := rfl
  cases args with
  | nil => rfl
  | cons head tail =>
    have all : (Grammar.blockArguments (R := R)).pieces (head :: tail) =
        .punct .leftParen :: (Piece.commaed ((head :: tail).map Grammar.blockArgument.pieces) ++
          [.punct .rightParen]) := rfl
    rw [all, mentions_punct, mentions_append, mentions_commaed, List.flatMap_map]
    simp only [one, mentions_punct, mentions, List.append_nil, ← List.map_eq_flatMap]

theorem mentions_headerLeaves {O : Type} {block : Block O}
    (labeled : block.label = none → block.args = []) :
    mentions block.headerLeaves = block.definitions.map .definition := by
  unfold Block.headerLeaves Block.definitions
  cases label : block.label with
  | none =>
    rw [labeled label]
    rfl
  | some defined => simp [Grammar.blockHeader, mentions_blockArguments]

theorem Region.mentions_allLeaves {region : Region Operation}
    (labeled : ∀ block ∈ region.blocks, block.label = none → block.args = []) :
    mentions region.allLeaves = region.blocks.flatMap fun block =>
      block.definitions.map .definition ++ block.ops.flatMap fun op => mentions op.leaves := by
  have blocks : ∀ block ∈ region.blocks,
      mentions (Block.leaves { block with ops := block.ops.map Operation.leaves }) =
        block.definitions.map .definition ++ block.ops.flatMap fun op => mentions op.leaves := by
    intro block inside
    have header := mentions_headerLeaves (labeled block inside)
    unfold Block.leaves
    rw [mentions_append, mentions_flatMap, List.flatMap_map, ← header]
    rfl
  unfold Region.allLeaves Region.leaves Region.map
  simp only [mentions_punct, mentions_append, mentions_flatMap, List.flatMap_map, mentions,
    List.append_nil]
  exact List.flatMap_congr blocks

/-- The names of a region are those of its blocks and those of its operations. -/
theorem Region.mentions_allLeaves_perm {region : Region Operation}
    (labeled : ∀ block ∈ region.blocks, block.label = none → block.args = []) :
    (mentions region.allLeaves).Perm (region.definitions.map .definition ++
      region.ops.flatMap fun op => mentions op.leaves) := by
  rw [mentions_allLeaves labeled, Region.definitions, Region.ops, List.map_flatMap,
    List.flatMap_assoc]
  exact List.flatMap_append_perm _ _ _ |>.symm

/-- The names among the leaves of an operation, given those of its regions. -/
theorem Operation.mentions_leaves_own {op : Operation} (built : op.Built) :
    (mentions op.leaves).Perm
      (op.ownMentions ++ op.children.flatMap fun child => mentions child.leaves) := by
  have body : (mentions (((Grammar.body op.opcode op.form).pieces
      ⟨op.payload, op.extra⟩).flatMap (Piece.flatten Region.allLeaves))).Perm
        (op.payload.definitions.map .definition ++ op.payload.references.map .reference ++
          op.regions.flatMap fun region => mentions region.allLeaves) := by
    have described := (Grammar.body_describes op.opcode op.form).mentions _ built.body
    rw [mentions_flatten]
    apply (described.flatMap_right _).trans
    simp only [Payload.mentions, List.flatMap_append, List.flatMap_map, Mention.flatten,
      ← List.map_eq_flatMap]
    exact .refl _
  have regions : (op.regions.flatMap fun region => mentions region.allLeaves).Perm
      ((op.regions.flatMap Region.definitions).map .definition ++
        op.children.flatMap fun child => mentions child.leaves) := by
    have each := List.Perm.flatMap_left op.regions fun region inside =>
      Region.mentions_allLeaves_perm (built.blocks region inside)
    apply each.trans
    apply (List.flatMap_append_perm _ _ _).symm.trans
    rw [List.map_flatMap, ← List.flatMap_assoc]
    exact .refl _
  have references : op.references.Perm op.payload.references := op.node.references_perm
  rw [op.leaves_eq built, mentions_append, mentions_resultLeaves, mentions]
  apply ((body.trans (regions.append_left _)).append_left _).trans
  simp only [ownMentions, definitions, List.map_append, List.append_assoc]
  apply List.Perm.append_left
  apply List.Perm.append_left
  apply (List.perm_append_comm_assoc _ _ _).trans
  exact ((references.symm.map _).append_right _).append_left _

/-- The names among the leaves of an operation are the ones that it defines and uses itself and the
ones of the operations inside it. -/
theorem Operation.mentions_leaves {op : Operation} (built : ∀ inner ∈ op.preorder, inner.Built) :
    (mentions op.leaves).Perm (op.preorder.flatMap Operation.ownMentions) := by
  induction op using Operation.induction with
  | step op ih =>
    rw [op.preorder_eq] at built ⊢
    have children := List.Perm.flatMap_left op.children fun child inside =>
      ih child inside fun inner deeper =>
        built inner (List.mem_cons_of_mem _ (List.mem_flatMap.2 ⟨child, inside, deeper⟩))
    rw [List.flatMap_cons, List.flatMap_assoc]
    exact (mentions_leaves_own (built op List.mem_cons_self)).trans (children.append_left _)

end CirText
