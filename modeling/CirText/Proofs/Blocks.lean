import CirText.Proofs.Parser.Conservation
import CirText.Proofs.Parser.Progress
import CirText.Proofs.Soundness

/-!
# Blocks and terminators

The regions of a module that is read are divided into blocks as terminators demand. If there is no
error, every block but the first of a region has a label, and every block ends with a terminator
that its region accepts. Only the branches of conditionals and the bodies of scopes may go without
one.
-/

namespace CirText

open CirText.Parser

/-! ## Regions that must be closed -/

namespace Grammar

variable {R α : Type}

/-- Whether every region has to end with a terminator. -/
def explicit : {α : Type} → Grammar R α → Bool
  | _, .region _ implicitTerminator => !implicitTerminator
  | _, .seq first second | _, .choice _ first second => first.explicit && second.explicit
  | _, .view _ inner | _, .optional _ inner | _, .separated inner | _, .listed inner
  | _, .listedWithEllipsis inner | _, .bracketed _ inner | _, .repeated _ inner
  | _, .spanned inner | _, .binder _ inner | _, .inScope inner | _, .recommended _ _ inner =>
    inner.explicit
  | _, _ => true

/-- Where every region has to end with a terminator, all regions are read as such. -/
theorem reads_explicit (region : RegionKind → Bool → Meaning R) (grammar : Grammar R α)
    (isExplicit : grammar.explicit = true) :
    grammar.Reads region = grammar.Reads fun kind _ => region kind false := by
  induction grammar with
  | seq first second ihFirst ihSecond | choice isFirst first second ihFirst ihSecond =>
    obtain ⟨left, right⟩ := Bool.and_eq_true_iff.1 isExplicit
    simp only [Reads, ihFirst left, ihSecond right]
  | region kind implicitTerminator =>
    obtain rfl : implicitTerminator = false := by simpa [explicit] using isExplicit
    rfl
  | view as inner ih | optional present inner ih | separated inner ih | listed inner ih
  | listedWithEllipsis inner ih | bracketed separator inner ih | repeated next inner ih
  | spanned inner ih | binder what inner ih | inScope inner ih
  | recommended opcode warning inner ih => simp only [Reads, ih isExplicit]
  | _ => rfl

end Grammar

/-- Whether the only block of a region of the operation may go without a terminator. -/
def Opcode.leavesOpen (opcode : Opcode) : Bool :=
  opcode == .ifElse || opcode == .scope || opcode == .ternary

theorem Grammar.body_explicit {R : Type} {opcode : Opcode} (closes : opcode.leavesOpen = false)
    (form : Form) : (body (R := R) opcode form).explicit = true := by
  unfold body
  split
  all_goals first | rfl | cases closes

/-! ## Closed regions -/

/-- Whether every block but the first has a label, and every block ends with a terminator that the
region accepts, except perhaps the only one. -/
structure Region.Closed (leavesOpen : Bool) (region : Region Operation) : Prop where
  labels : ∀ block ∈ region.blocks.tail, block.label.isSome = true
  ends : ∀ block ∈ region.blocks,
    (∃ op, block.terminator = some op ∧ region.kind.accepts op = true) ∨
      leavesOpen = true ∧ region.blocks = [block] ∧ block.terminator = none

/-- Whether all regions of an operation and of those inside it are closed. -/
def Operation.Closed (op : Operation) : Prop :=
  ∀ inner ∈ op.preorder, ∀ region ∈ inner.regions, region.Closed inner.opcode.leavesOpen

theorem Operation.closed_of {op : Operation}
    (regions : ∀ region ∈ op.regions, region.Closed op.opcode.leavesOpen ∧
      ∀ child ∈ region.ops, child.Closed) : op.Closed := by
  intro inner member
  rw [op.preorder_eq] at member
  rcases List.mem_cons.1 member with rfl | deeper
  · exact fun region inOp => (regions region inOp).1
  · obtain ⟨child, isChild, inside⟩ := List.mem_flatMap.1 deeper
    obtain ⟨region, inOp, inRegion⟩ := List.mem_flatMap.1 isChild
    exact (regions region inOp).2 child inRegion inner inside

namespace Parser

/-- What holds of blocks that are read without errors. -/
structure Admitted (kind : RegionKind) (blocks : List (Block Operation)) : Prop where
  labels : ∀ block ∈ blocks.tail, block.label.isSome = true
  accepted : ∀ block ∈ blocks, ∀ op ∈ block.ops, op.isTerminator = true → kind.accepts op = true
  inside : ∀ block ∈ blocks, ∀ op ∈ block.ops, op.Closed

theorem forall_mem_tail_concat {α : Type} {holds : α → Prop} {init : List α} {last : α} :
    (∀ a ∈ (init ++ [last]).tail, holds a) ↔ (∀ a ∈ init.tail, holds a) ∧
      (init ≠ [] → holds last) := by
  cases init with
  | nil => simp
  | cons first rest => simp [or_imp, forall_and]

namespace Admitted

variable {kind : RegionKind} {blocks : List (Block Operation)} {block : Block Operation}

theorem concat_iff : Admitted kind (blocks ++ [block]) ↔
    Admitted kind blocks ∧ (blocks ≠ [] → block.label.isSome = true) ∧
      (∀ op ∈ block.ops, op.isTerminator = true → kind.accepts op = true) ∧
        ∀ op ∈ block.ops, op.Closed := by
  have each : ∀ {holds : Block Operation → Prop}, (∀ other ∈ blocks ++ [block], holds other) ↔
      (∀ other ∈ blocks, holds other) ∧ holds block := by
    intro holds
    simp [or_imp, forall_and]
  constructor
  · rintro ⟨labels, accepted, inside⟩
    obtain ⟨early, late⟩ := forall_mem_tail_concat.1 labels
    exact ⟨⟨early, (each.1 accepted).1, (each.1 inside).1⟩, late, (each.1 accepted).2,
      (each.1 inside).2⟩
  · rintro ⟨⟨labels, accepted, inside⟩, label, accepts, closed⟩
    exact ⟨forall_mem_tail_concat.2 ⟨labels, label⟩, each.2 ⟨accepted, accepts⟩,
      each.2 ⟨inside, closed⟩⟩

theorem start (kind : RegionKind) (offset : Nat) :
    Admitted kind (Progress.mk [] (.startingAt offset)).blocks := by
  have empty : ∀ block ∈ (Progress.mk [] (.startingAt offset)).blocks, block.ops = [] := by
    intro block member
    rw [List.mem_singleton.1 member]
    rfl
  refine ⟨by rintro _ ⟨⟩, ?_, ?_⟩
  · intro block member op inBlock
    rw [empty block member] at inBlock
    cases inBlock
  · intro block member op inBlock
    rw [empty block member] at inBlock
    cases inBlock

theorem nextLabeled {progress : Progress} {draft : BlockDraft}
    (admitted : Admitted kind progress.blocks) (labeled : draft.label.isSome = true)
    (fresh : draft.ops = []) : Admitted kind (progress.nextLabeled draft).blocks := by
  have none : draft.close.ops = [] := by simp [BlockDraft.close, fresh]
  have next : ∀ {blocks}, Admitted kind blocks → Admitted kind (blocks ++ [draft.close]) := by
    intro blocks sofar
    refine concat_iff.2 ⟨sofar, fun _ => labeled, ?_, ?_⟩
    · rw [none]
      rintro _ ⟨⟩
    · rw [none]
      rintro _ ⟨⟩
  rw [Progress.blocks_nextLabeled]
  split
  · rw [Progress.blocks_eq] at admitted
    exact next (concat_iff.1 admitted).1
  · exact next admitted

theorem push {progress : Progress} (admitted : Admitted kind progress.blocks) {op : Operation}
    (admits : progress.Admits kind op) (closed : op.Closed) :
    Admitted kind (progress.push op).blocks := by
  rw [Progress.blocks_push, admits.1]
  rw [Progress.blocks_eq] at admitted
  obtain ⟨early, label, accepted, inside⟩ := concat_iff.1 admitted
  refine concat_iff.2 ⟨early, label, ?_, ?_⟩
  · intro other member terminates
    rcases List.mem_append.1 member with old | new
    · exact accepted other old terminates
    · rw [List.mem_singleton.1 new] at terminates ⊢
      simpa [terminates] using admits.2
  · intro other member
    rcases List.mem_append.1 member with old | new
    · exact inside other old
    · rw [List.mem_singleton.1 new]
      exact closed

end Admitted

variable {source : List Char} {before after : Stage}

section Regions

variable {region : RegionKind → Bool → Meaning (Region Operation)}
  (regions : ∀ kind implicitTerminator {before after : Stage} {inner : Region Operation},
    region kind implicitTerminator source before inner after →
      inner.Closed implicitTerminator ∧ ∀ child ∈ inner.ops, child.Closed)

include regions

theorem operation_closed {op : Operation} (reads : OperationReads region source before op after) :
    op.Closed := by
  obtain ⟨names, middle, _, found, last, fromKeyword, results, _, rfl⟩ := reads
  obtain ⟨keyword, start, opcode, form, _, _, _, body, reads, rfl⟩ := fromKeyword
  have built := reads.builds
  have describes := Grammar.body_describes (R := Region Operation) opcode form
  have code : body.payload.opcode = opcode := describes.opcode body built
  apply Operation.closed_of
  intro inner member
  have mentioned : .region inner ∈ mentions ((Grammar.body opcode form).pieces body) :=
    (describes.mentions body built).mem_iff.2 (List.mem_append_right _ (List.mem_map_of_mem member))
  change inner.Closed body.payload.opcode.leavesOpen ∧ _
  rw [code]
  cases leavesOpen : opcode.leavesOpen with
  | true =>
    apply Grammar.reads_regions (fun kind implicitTerminator {_ _ _} reads => ?_) _
      reads inner mentioned
    obtain ⟨closed, inside⟩ := regions kind implicitTerminator reads
    refine ⟨⟨closed.labels, fun block member => ?_⟩, inside⟩
    exact (closed.ends block member).imp_right fun only => ⟨rfl, only.2⟩
  | false =>
    rw [Grammar.reads_explicit region _ (Grammar.body_explicit leavesOpen form)] at reads
    exact Grammar.reads_regions (fun kind _ {_ _ _} reads => regions kind false reads) _ reads inner
      mentioned

theorem blocks_admitted {kind : RegionKind} {progress : Progress}
    {found : List (Block Operation) × Span}
    (reads : BlocksRead region kind source progress before found after)
    (admitted : Admitted kind progress.blocks) : Admitted kind found.1 := by
  induction reads with
  | close here => exact admitted
  | header inside more starts first rest ih =>
    obtain ⟨header, _, rfl⟩ := first
    exact ih (admitted.nextLabeled rfl rfl)
  | operation inside more starts first admits rest ih =>
    exact ih (admitted.push admits (operation_closed regions first))

theorem region_closed {kind : RegionKind} {implicitTerminator : Bool} {inner : Region Operation}
    (reads : RegionReads region kind implicitTerminator source before inner after) :
    inner.Closed implicitTerminator ∧ ∀ child ∈ inner.ops, child.Closed := by
  obtain ⟨opening, middle, _, found, reads, terminated, rfl⟩ := reads
  have admitted := blocks_admitted regions reads (.start kind _)
  have accepts : ∀ block ∈ found.1, ∀ op, block.terminator = some op → kind.accepts op = true := by
    intro block member op ends
    obtain ⟨last, terminates⟩ := Option.filter_eq_some_iff.1 ends
    exact admitted.accepted block member op (List.mem_of_getLast? last) terminates
  refine ⟨⟨admitted.labels, ?_⟩, ?_⟩
  · intro block member
    cases ends : block.terminator with
    | some op => exact .inl ⟨op, rfl, accepts block member op ends⟩
    | none =>
      rcases terminated with only | all
      · obtain ⟨mayStayOpen, single⟩ := Bool.and_eq_true_iff.1 only
        obtain ⟨other, same⟩ := List.length_eq_one_iff.1 (beq_iff_eq.1 single)
        rw [same, List.mem_singleton] at member
        rw [← member] at same
        exact .inr ⟨mayStayOpen, same, rfl⟩
      · have present := all block member
        rw [ends] at present
        cases present
  · intro child member
    obtain ⟨block, inRegion, inBlock⟩ := List.mem_flatMap.1 member
    exact admitted.inside block inRegion child inBlock

end Regions

/-- Regions that are read without errors are closed, however deep they nest. -/
theorem regionWithin_closed (levels : Nat) (kind : RegionKind) (implicitTerminator : Bool)
    {before after : Stage} {inner : Region Operation}
    (reads : RegionWithinReads levels kind implicitTerminator source before inner after) :
    inner.Closed implicitTerminator ∧ ∀ child ∈ inner.ops, child.Closed := by
  induction levels generalizing kind implicitTerminator before after inner with
  | zero => cases reads
  | succ levels ih => exact region_closed ih reads

theorem items_closed {levels : Nat} {braced : Bool} {ops : List Operation}
    (reads : ItemsRead (RegionWithinReads levels) braced source before ops after) :
    ∀ op ∈ ops, op.Closed := by
  induction reads with
  | nil =>
    rintro _ ⟨⟩
  | cons inside starts first rest ih =>
    exact List.forall_mem_cons.2 ⟨operation_closed (regionWithin_closed levels) first, ih⟩

theorem sourceUnit_closed {levels : Nat} {found : Option ModuleHeader × List Operation}
    (reads : SourceUnitReads (RegionWithinReads levels) source before found after) :
    ∀ op ∈ found.2, op.Closed := by
  unfold SourceUnitReads at reads
  split at reads
  · obtain ⟨_, _, _, _, _, _, ops, _, items, _, _, _, rfl⟩ := reads
    exact items_closed items
  · obtain ⟨ops, items, rfl⟩ := reads
    exact items_closed items

end Parser

/-! ## Modules -/

/-- The regions of a module that is read have blocks, divided as terminators demand. If it is read
without errors, all of them are closed. -/
theorem parse_blocks (source : String) (options : Options) :
    (∀ region ∈ (parse source options).unit.allRegions,
        region.blocks ≠ [] ∧ Shaped region.blocks) ∧
      ((parse source options).hasErrors = false → ∀ op ∈ (parse source options).unit.preorder,
        ∀ region ∈ op.regions, region.Closed op.opcode.leavesOpen) := by
  constructor
  · intro region member
    obtain ⟨op, inUnit, inOp⟩ := Module.mem_allRegions_iff.1 member
    obtain ⟨around, encloses⟩ := Module.exists_encloses_iff.2 inUnit
    have sound := (Operation.Throughout.of_encloses encloses
      (parse_sound source options).items).here
    exact ⟨(sound.regions region inOp).nonempty, (sound.regions region inOp).shaped⟩
  · intro clean op member
    obtain ⟨_, after, reads, _⟩ := parse_reads clean
    obtain ⟨item, isItem, inside⟩ := List.mem_flatMap.1 member
    exact sourceUnit_closed reads item isItem op inside

/-- A function with a scope in which there is nothing. -/
def emptyScope : String :=
  "cir.func @f() { cir.scope { } cir.return }"

theorem emptyScope_clean : (parse emptyScope {}).hasErrors = false := by
  cbv

/-- The function is read without errors, although the only block of the scope has no terminator. -/
theorem parse_blocks_emptyScope :
    (parse emptyScope {}).hasErrors = false ∧
      ((parse emptyScope {}).unit.allRegions.map fun region =>
        region.blocks.map (·.terminator.isSome)) = [[true], [false]] ∧
      ∀ op ∈ (parse emptyScope {}).unit.preorder, ∀ region ∈ op.regions,
        region.Closed op.opcode.leavesOpen :=
  ⟨emptyScope_clean, by cbv, (parse_blocks emptyScope {}).2 emptyScope_clean⟩

end CirText
