import CirText.Module
import CirText.Proofs.Grammar.Mentions

/-!
# Operations and the regions around them

An operation of a module stands in a region of another operation, or directly in the module.
`Module.Encloses` lists the regions around an operation. What holds of all operations inside the
items of a module, each with the scope and the depth that it stands at, holds of every operation
with the regions around it.
-/

namespace CirText

/-! ## Regions in the order of a walk -/

namespace Operation

/-- The regions of an operation and of the operations inside it, in source order, every region
before the ones inside it. -/
def allRegions (op : Operation) : List (Region Operation) :=
  op.regions.attach.flatMap fun inOp =>
    inOp.1 :: inOp.1.ops.attach.flatMap fun inRegion => inRegion.1.allRegions
termination_by sizeOf op
decreasing_by
  exact sizeOf_lt_of_mem_children (List.mem_flatMap.2 ⟨inOp.1, inOp.2, inRegion.2⟩)

end Operation

/-- All regions inside a region in source order. -/
def Region.inner (region : Region Operation) : List (Region Operation) :=
  region.ops.flatMap Operation.allRegions

theorem Operation.allRegions_eq (op : Operation) :
    op.allRegions = op.regions.flatMap fun region => region :: region.inner := by
  rw [allRegions]
  simp only [List.flatMap_subtype, List.unattach_attach, Region.inner]

/-- All regions of a module in source order. -/
def Module.allRegions (unit : Module) : List (Region Operation) :=
  unit.items.flatMap Operation.allRegions

theorem Operation.mem_allRegions_iff {op : Operation} {region : Region Operation} :
    region ∈ op.allRegions ↔ ∃ inner ∈ op.preorder, region ∈ inner.regions := by
  induction op using Operation.induction with
  | step op ih =>
    rw [allRegions_eq, preorder_eq, List.mem_flatMap]
    constructor
    · rintro ⟨outer, inOp, member⟩
      rcases List.mem_cons.1 member with rfl | deeper
      · exact ⟨op, List.mem_cons_self, inOp⟩
      · obtain ⟨child, inRegion, inChild⟩ := List.mem_flatMap.1 deeper
        have isChild : child ∈ op.children := List.mem_flatMap.2 ⟨outer, inOp, inRegion⟩
        obtain ⟨inner, below, found⟩ := (ih child isChild).1 inChild
        exact ⟨inner, List.mem_cons_of_mem _ (List.mem_flatMap.2 ⟨child, isChild, below⟩), found⟩
    · rintro ⟨inner, below, found⟩
      rcases List.mem_cons.1 below with rfl | deeper
      · exact ⟨region, found, List.mem_cons_self⟩
      · obtain ⟨child, isChild, below⟩ := List.mem_flatMap.1 deeper
        obtain ⟨outer, inOp, inRegion⟩ := List.mem_flatMap.1 isChild
        have inChild := (ih child isChild).2 ⟨inner, below, found⟩
        exact ⟨outer, inOp, List.mem_cons_of_mem _ (List.mem_flatMap.2 ⟨child, inRegion, inChild⟩)⟩

/-- The regions of a module are those of its operations. -/
theorem Module.mem_allRegions_iff {unit : Module} {region : Region Operation} :
    region ∈ unit.allRegions ↔ ∃ op ∈ unit.preorder, region ∈ op.regions := by
  simp only [allRegions, preorder, List.mem_flatMap, Operation.mem_allRegions_iff]
  constructor
  · rintro ⟨item, isItem, op, below, found⟩
    exact ⟨op, ⟨item, isItem, below⟩, found⟩
  · rintro ⟨op, ⟨item, isItem, below⟩, found⟩
    exact ⟨item, isItem, op, below, found⟩

/-! ## The regions around an operation -/

/-- Whether the given regions are those around an operation of a module, from the inside
outwards. -/
inductive Module.Encloses (unit : Module) : List (Region Operation) → Operation → Prop where
  /-- There are none around a function or a global. -/
  | top {op : Operation} (item : op ∈ unit.items) : Encloses unit [] op
  /-- The regions around an operation of a region are that region and the ones around it. -/
  | inside {around : List (Region Operation)} {op child : Operation} {region : Region Operation}
      (outer : Encloses unit around op) (inOp : region ∈ op.regions) (inRegion :
        child ∈ region.ops) :
      Encloses unit (region :: around) child

/-- The scope of the innermost of the regions around an operation, or that of the module. -/
def innermostScope (around : List (Region Operation)) : ScopeId :=
  (around.head?.map (·.scope)).getD .root

theorem Operation.mem_preorder_of_child {root op child : Operation} (inside : op ∈ root.preorder)
    (isChild : child ∈ op.children) : child ∈ root.preorder := by
  induction root using Operation.induction with
  | step root ih =>
    rw [preorder_eq] at inside ⊢
    rcases List.mem_cons.1 inside with rfl | deeper
    · refine List.mem_cons_of_mem _ (List.mem_flatMap.2 ⟨child, isChild, ?_⟩)
      rw [preorder_eq]
      exact List.mem_cons_self
    · obtain ⟨next, isNext, deeper⟩ := List.mem_flatMap.1 deeper
      exact List.mem_cons_of_mem _ (List.mem_flatMap.2 ⟨next, isNext, ih next isNext deeper⟩)

/-- The operations with regions around them are all operations of the module. -/
theorem Module.exists_encloses_iff {unit : Module} {op : Operation} :
    (∃ around, unit.Encloses around op) ↔ op ∈ unit.preorder := by
  constructor
  · rintro ⟨around, encloses⟩
    induction encloses with
    | top item =>
      rename_i op
      refine List.mem_flatMap.2 ⟨op, item, ?_⟩
      rw [Operation.preorder_eq]
      exact List.mem_cons_self
    | inside outer inOp inRegion ih =>
      obtain ⟨item, isItem, deeper⟩ := List.mem_flatMap.1 ih
      exact List.mem_flatMap.2 ⟨item, isItem, Operation.mem_preorder_of_child deeper
        (List.mem_flatMap.2 ⟨_, inOp, inRegion⟩)⟩
  · intro member
    obtain ⟨item, isItem, inside⟩ := List.mem_flatMap.1 member
    suffices descend : ∀ (root : Operation) around, unit.Encloses around root → op ∈ root.preorder →
        ∃ around, unit.Encloses around op from
      descend item [] (.top isItem) inside
    intro root
    induction root using Operation.induction with
    | step root ih =>
      intro around encloses inside
      rw [Operation.preorder_eq] at inside
      rcases List.mem_cons.1 inside with rfl | deeper
      · exact ⟨around, encloses⟩
      · obtain ⟨child, isChild, deeper⟩ := List.mem_flatMap.1 deeper
        obtain ⟨region, inRoot, inRegion⟩ := List.mem_flatMap.1 isChild
        exact ih child isChild (region :: around) (.inside encloses inRoot inRegion) deeper

/-! ## What holds everywhere -/

/-- Whether something holds of an operation and of all operations inside it. It may depend on the
scope that an operation stands in, and on the number of levels that regions may still nest there. -/
inductive Operation.Throughout (holds : Nat → ScopeId → Operation → Prop) :
    Nat → ScopeId → Operation → Prop where
  | of {levels : Nat} {scope : ScopeId} {op : Operation} (here : holds levels scope op)
      (inside : ∀ region ∈ op.regions, ∀ child ∈ region.ops,
        Throughout holds (levels - 1) region.scope child) : Throughout holds levels scope op

namespace Operation.Throughout

variable {holds others : Nat → ScopeId → Operation → Prop} {levels : Nat} {scope : ScopeId}
  {op : Operation}

theorem here (throughout : op.Throughout holds levels scope) : holds levels scope op := by
  cases throughout with
  | of here _ => exact here

theorem inside (throughout : op.Throughout holds levels scope) {region : Region Operation}
    (inOp : region ∈ op.regions) {child : Operation} (inRegion : child ∈ region.ops) :
    child.Throughout holds (levels - 1) region.scope := by
  cases throughout with
  | of _ inside => exact inside region inOp child inRegion

/-- What holds throughout the items of a module holds of every operation with the regions around
it. -/
theorem of_encloses {unit : Module} {around : List (Region Operation)}
    (encloses : unit.Encloses around op)
    (items : ∀ item ∈ unit.items, item.Throughout holds levels .root) :
    op.Throughout holds (levels - around.length) (innermostScope around) := by
  induction encloses with
  | top item => exact items _ item
  | inside outer inOp inRegion ih =>
    rw [List.length_cons, ← Nat.sub_sub]
    exact ih.inside inOp inRegion

end Operation.Throughout

end CirText
