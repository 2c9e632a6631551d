import CirText.Proofs.Reread.Operations

/-!
# What has been read of a region, read again

Blocks with the same operations, and drafts of blocks, are the same but for their places and are
printed alike. What has been read of a region so far stays the same with each operation and each
header that is read.
-/

namespace CirText

open CirText.Parser CirText.Cursor

/-! ## Operations that are the same -/

namespace Operation

theorem opcode_unplaced (op : Operation) : op.unplaced.opcode = op.opcode := by
  obtain ⟨node⟩ := op
  rw [unplaced_of]
  exact node.payload.opcode_unplaced Region.fullyUnplaced

theorem isTerminator_unplaced (op : Operation) : op.unplaced.isTerminator = op.isTerminator := by
  obtain ⟨⟨id, results, payload, form, extra, span⟩⟩ := op
  rw [unplaced_of]
  have opcode := payload.opcode_unplaced Region.fullyUnplaced
  simp only [isTerminator, Node.isTerminator, node]
  cases payload with
  | instruction plain =>
    cases plain with
    | tryCall callee args target signature modifiers => cases target <;> rfl
    | _ => rfl
  | compound structured => exact congrArg Opcode.isTerminator opcode

namespace Matches

variable {op again : Operation}

theorem opcode (same : op.Matches again) : op.opcode = again.opcode := by
  rw [← op.opcode_unplaced, same.unplaced, again.opcode_unplaced]

theorem isTerminator (same : op.Matches again) : op.isTerminator = again.isTerminator := by
  rw [← op.isTerminator_unplaced, same.unplaced, again.isTerminator_unplaced]

theorem accepts (same : op.Matches again) (kind : RegionKind) :
    kind.accepts op = kind.accepts again := by
  rw [RegionKind.accepts, RegionKind.accepts, same.opcode]

theorem forall₂_isTerminator {ops others : List Operation}
    (same : List.Forall₂ Matches ops others) :
    ops.head?.any Operation.isTerminator = others.head?.any Operation.isTerminator := by
  cases same with
  | nil => rfl
  | cons first _ => exact first.isTerminator

end Matches

end Operation

/-! ## Blocks that are the same -/

/-- The block, with everything inside it, without places. -/
def Block.fullyUnplaced (block : Block Operation) : Block Operation :=
  Block.unplaced { block with ops := block.ops.map Operation.unplaced }

theorem Region.fullyUnplaced_eq (region : Region Operation) :
    region.fullyUnplaced =
      { kind := region.kind, blocks := region.blocks.map Block.fullyUnplaced, scope := region.scope,
        span := .nowhere } := by
  unfold fullyUnplaced Region.unplaced Region.map
  rw [List.map_map]
  rfl

theorem Region.ops_fullyUnplaced (region : Region Operation) :
    region.fullyUnplaced.ops = region.ops.map Operation.unplaced := by
  rw [fullyUnplaced_eq, ops, ops, List.flatMap_map, List.map_flatMap]
  rfl

theorem Compound.regions_unplaced {R S : Type} (f : R → S) (structured : Compound R) :
    (structured.unplaced f).regions = structured.regions.map f := by
  cases structured with
  | tryCatch body clauses cleanup =>
    cases clauses <;> cases cleanup <;>
      simp [unplaced, regions, Handler.unplaced]
  | loop kind cond body step result =>
    cases cond <;> cases step <;> simp [unplaced, regions]
  | func function =>
    obtain ⟨_, _, _, _, _, _, _, _, _ | _⟩ := function <;> rfl
  | global decl =>
    obtain ⟨_, _, _, init, _, _⟩ := decl
    rcases init with _ | ⟨_, _, _ | _⟩ | _ | _ <;> rfl
  | ifElse cond thenRegion elseRegion result => cases elseRegion <;> rfl
  | scope body cleanup result => cases cleanup <;> rfl
  | _ => rfl

namespace Operation

theorem children_unplaced (op : Operation) : op.unplaced.children = op.children.map unplaced := by
  obtain ⟨node⟩ := op
  have regions : (node.payload.unplaced Region.fullyUnplaced).regions =
      node.payload.regions.map Region.fullyUnplaced := by
    cases node.payload with
    | instruction plain => rfl
    | compound structured => exact structured.regions_unplaced Region.fullyUnplaced
  rw [unplaced_of]
  change (node.payload.unplaced Region.fullyUnplaced).regions.flatMap Region.ops =
    (node.payload.regions.flatMap Region.ops).map unplaced
  rw [regions, List.flatMap_map, List.map_flatMap]
  exact List.flatMap_congr fun region _ => region.ops_fullyUnplaced

theorem preorder_unplaced (op : Operation) : op.unplaced.preorder = op.preorder.map unplaced := by
  induction op using Operation.induction with
  | step op ih =>
    rw [preorder_eq, preorder_eq, List.map_cons, children_unplaced, List.flatMap_map,
      List.map_flatMap]
    exact congrArg _ (List.flatMap_congr ih)

theorem id_unplaced (op : Operation) : op.unplaced.id = op.id := by
  obtain ⟨node⟩ := op
  rw [unplaced_of]
  rfl

theorem form_unplaced (op : Operation) : op.unplaced.form = op.form := by
  obtain ⟨node⟩ := op
  rw [unplaced_of]
  rfl

end Operation

/-- The header of a block is printed without regard to places. -/
theorem Block.printHeader_unplaced (block : Block Layout) :
    block.unplaced.printHeader = block.printHeader := by
  have args : ∀ args : List BlockArgument,
      (args.map BlockArgument.unplaced).map (Grammar.blockArgument.print (R := Layout) id) =
        args.map (Grammar.blockArgument.print id) := by
    intro args
    rw [List.map_map]
    rfl
  obtain ⟨_ | label, _ | ⟨first, rest⟩, ops, span⟩ := block
  · rfl
  · rfl
  · rfl
  · exact congrArg (fun args => Layout.line 0 ++ (Layout.text label.spelling ++
      (Layout.text "(" ++ (Layout.join ", " args ++ Layout.text ")")) ++ Layout.text ":"))
        (args (first :: rest))

/-- Whether two blocks are the same but for their places, and printed in the same way. -/
structure Block.Matches (block again : Block Operation) : Prop where
  label : block.label.map Definition.unplaced = again.label.map Definition.unplaced
  args : block.args.map BlockArgument.unplaced = again.args.map BlockArgument.unplaced
  ops : List.Forall₂ Operation.Matches block.ops again.ops

namespace Block.Matches

variable {block again : Block Operation}

theorem fullyUnplaced (same : block.Matches again) : block.fullyUnplaced = again.fullyUnplaced := by
  have ops := map_eq_of_forall₂ same.ops fun _ _ => Operation.Matches.unplaced
  rw [Block.fullyUnplaced, Block.fullyUnplaced, Block.unplaced, Block.unplaced,
    same.label, same.args, ops]

theorem chars (same : block.Matches again) (amount : Nat) :
    (Block.print { block with ops := block.ops.map Operation.layout }).chars amount =
      (Block.print { again with ops := again.ops.map Operation.layout }).chars amount := by
  have header : Block.printHeader { block with ops := block.ops.map Operation.layout } =
      Block.printHeader { again with ops := again.ops.map Operation.layout } := by
    have here := Block.printHeader_unplaced { block with ops := block.ops.map Operation.layout }
    have there := Block.printHeader_unplaced { again with ops := again.ops.map Operation.layout }
    simp only [Block.unplaced] at here there
    rw [same.label, same.args] at here
    exact here.symm.trans there
  have ops := map_eq_of_forall₂ same.ops fun _ _ same =>
    congrArg ((Layout.line indentation).chars amount ++ ·) (same.chars (indentation + amount))
  simp only [Block.print, Layout.chars_append, Layout.chars_flatMap, Layout.chars_shift,
    List.flatMap_map, header]
  rw [List.flatMap_def, List.flatMap_def, ops]

theorem isNone_terminator (same : block.Matches again) :
    block.terminator.isNone = again.terminator.isNone := by
  have last := Operation.Matches.forall₂_isTerminator (List.rel_reverse same.ops)
  simp only [List.head?_reverse] at last
  rw [Block.terminator, Block.terminator]
  cases here : block.ops.getLast? <;> cases there : again.ops.getLast? <;>
    simp_all [Option.filter_some]
  split <;> rfl

end Block.Matches

/-- Regions with the same blocks are the same but for their places, and printed in the same way. -/
theorem Region.outline_eq {region again : Region Operation} (kind : region.kind = again.kind)
    (scope : region.scope = again.scope)
    (blocks : List.Forall₂ Block.Matches region.blocks again.blocks) :
    region.outline = again.outline := by
  have unplaced := map_eq_of_forall₂ blocks fun _ _ => Block.Matches.fullyUnplaced
  refine Prod.ext ?_ (funext fun amount => ?_)
  · rw [outline, outline, fullyUnplaced_eq, fullyUnplaced_eq, kind, scope, unplaced]
  · have chars := map_eq_of_forall₂ blocks fun _ _ same => same.chars amount
    simp only [outline, print, map, Layout.chars_append, Layout.chars_flatMap, List.flatMap_map]
    rw [List.flatMap_def, List.flatMap_def, chars]

namespace Parser

/-! ## What has been read so far -/

/-- Whether blocks are terminated does not depend on their places. -/
theorem Terminated.of_matches {implicitTerminator : Bool} {blocks others : List (Block Operation)}
    (terminated : Terminated implicitTerminator blocks)
    (same : List.Forall₂ Block.Matches blocks others) : Terminated implicitTerminator others := by
  rcases terminated with only | all
  · left
    rw [← same.length_eq]
    exact only
  · right
    induction same with
    | nil => exact all
    | cons first _ ih =>
      obtain ⟨here, later⟩ := List.forall_mem_cons.1 all
      exact List.forall_mem_cons.2 ⟨first.isNone_terminator ▸ here, ih later⟩

/-- Whether two drafts are the same but for their places. -/
structure BlockDraft.Matches (draft again : BlockDraft) : Prop where
  label : draft.label.map Definition.unplaced = again.label.map Definition.unplaced
  args : draft.args.map BlockArgument.unplaced = again.args.map BlockArgument.unplaced
  ops : List.Forall₂ Operation.Matches draft.ops again.ops

namespace BlockDraft.Matches

variable {draft again : BlockDraft}

theorem start (offset other : Nat) :
    (BlockDraft.startingAt offset).Matches (BlockDraft.startingAt other) :=
  ⟨rfl, rfl, .nil⟩

theorem close (same : draft.Matches again) : draft.close.Matches again.close :=
  ⟨same.label, same.args, List.rel_reverse same.ops⟩

theorem isEmpty (same : draft.Matches again) : draft.isEmpty = again.isEmpty := by
  have unlabeled : draft.label.isNone = again.label.isNone := by
    rw [← Option.isNone_map (f := Definition.unplaced), same.label, Option.isNone_map]
  have none : draft.ops.isEmpty = again.ops.isEmpty := by
    rw [Bool.eq_iff_iff, List.isEmpty_iff_length_eq_zero, List.isEmpty_iff_length_eq_zero,
      same.ops.length_eq]
  rw [BlockDraft.isEmpty, BlockDraft.isEmpty, unlabeled, none]

theorem isTerminated (same : draft.Matches again) : draft.isTerminated = again.isTerminated :=
  Operation.Matches.forall₂_isTerminator same.ops

theorem push (same : draft.Matches again) {op other : Operation} (added : op.Matches other) :
    (draft.push op).Matches (again.push other) :=
  ⟨same.label, same.args, .cons added same.ops⟩

end BlockDraft.Matches

/-- Whether the same has been read so far but for its places. -/
structure Progress.Matches (progress again : Progress) : Prop where
  closed : List.Forall₂ Block.Matches progress.closed again.closed
  current : progress.current.Matches again.current

namespace Progress.Matches

variable {progress again : Progress}

theorem blocks (same : progress.Matches again) :
    List.Forall₂ Block.Matches progress.blocks again.blocks :=
  List.rel_reverse (.cons same.current.close same.closed)

theorem next (same : progress.Matches again) {draft other : BlockDraft}
    (started : draft.Matches other) : (progress.next draft).Matches (again.next other) :=
  ⟨.cons same.current.close same.closed, started⟩

theorem nextLabeled (same : progress.Matches again) {draft other : BlockDraft}
    (started : draft.Matches other) :
    (progress.nextLabeled draft).Matches (again.nextLabeled other) := by
  rw [Progress.nextLabeled, Progress.nextLabeled, same.current.isEmpty]
  split
  · exact ⟨same.closed, started⟩
  · exact same.next started

theorem push (same : progress.Matches again) {op other : Operation} (added : op.Matches other) :
    (progress.push op).Matches (again.push other) := by
  rw [Progress.push, Progress.push, same.current.isTerminated]
  split
  · have started := same.next (.start op.span.start other.span.start)
    exact ⟨started.closed, started.current.push added⟩
  · exact ⟨same.closed, same.current.push added⟩

theorem admits (same : progress.Matches again) {op other : Operation} (added : op.Matches other)
    {kind : RegionKind} (admits : progress.Admits kind op) : again.Admits kind other := by
  rwa [Progress.Admits, ← same.current.isTerminated, ← added.isTerminator, ← added.accepts]

end Progress.Matches

end Parser

end CirText
