import CirText.Proofs.Grammar.Passage
import Mathlib.Data.List.Forall2

/-!
# What operations, regions and source units are read from is accounted for

The leaves of an operation account for all tokens that it is read from, those of its regions
included, and its definitions are the names by which the table grows. The same holds for the blocks
of regions and for the items of a source unit, however deep regions nest.
-/

namespace CirText

open CirText.Parser

/-! ## Whole operations -/

/-- Whether an operation and all operations inside it can be written. -/
def Operation.Whole (op : Operation) : Prop :=
  ∀ inner ∈ op.preorder, inner.Built

theorem Operation.Whole.built {op : Operation} (whole : op.Whole) : op.Built :=
  whole op (by rw [op.preorder_eq]; exact List.mem_cons_self)

theorem Operation.Whole.child {op child : Operation} (whole : op.Whole)
    (isChild : child ∈ op.children) : child.Whole := by
  intro inner inside
  apply whole
  rw [op.preorder_eq]
  exact List.mem_cons_of_mem _ (List.mem_flatMap.2 ⟨child, isChild, inside⟩)

/-- Whether a block can be written: it has arguments only if it has a label, and its operations can
be written. -/
structure Block.Whole (block : Block Operation) : Prop where
  labeled : block.label = none → block.args = []
  ops : ∀ op ∈ block.ops, op.Whole

/-- Whether all blocks of a region can be written. -/
def Region.Whole (region : Region Operation) : Prop :=
  ∀ block ∈ region.blocks, block.Whole

theorem Operation.whole_of {op : Operation}
    (body : (Grammar.body op.opcode op.form).Builds ⟨op.payload, op.extra⟩)
    (spaced : Piece.Spaced ((Grammar.body op.opcode op.form).pieces ⟨op.payload, op.extra⟩))
    (regions : ∀ region ∈ op.regions, region.Whole) : op.Whole := by
  intro inner member
  rw [op.preorder_eq] at member
  rcases List.mem_cons.1 member with rfl | deeper
  · exact ⟨body, spaced, fun region inside block among =>
      (regions region inside block among).labeled⟩
  · obtain ⟨child, isChild, inside⟩ := List.mem_flatMap.1 deeper
    obtain ⟨region, inOp, inRegion⟩ := List.mem_flatMap.1 isChild
    obtain ⟨block, inBlocks, inBlock⟩ := List.mem_flatMap.1 inRegion
    exact (regions region inOp block inBlocks).ops child inBlock inner inside

/-! ## Leaves of blocks -/

/-- The leaves of a block of operations. -/
def Block.allLeaves (block : Block Operation) : List Leaf :=
  block.headerLeaves ++ block.ops.flatMap fun op => .blank :: op.leaves

theorem Region.allLeaves_eq (region : Region Operation) :
    region.allLeaves =
      .punct .leftBrace ::
        (region.blocks.flatMap Block.allLeaves ++ [.blank, .punct .rightBrace]) := by
  unfold Region.allLeaves Region.leaves Region.map
  rw [List.flatMap_map]
  simp only [Block.leaves, List.flatMap_map]
  rfl

theorem Piece.flatten_leaf (region : Empty → List Leaf) (leaf : Leaf) :
    leaf.flatten region = [leaf] := by
  cases leaf with
  | region inner => cases inner
  | _ => rfl

theorem filter_commaed_leaves (items : List (List Leaf)) :
    (Piece.commaed items).filter Piece.isSignificant =
      items.flatten.filter Piece.isSignificant := by
  have each : Piece.flatten (fun _ : Empty => []) = fun leaf => [leaf] :=
    funext (Piece.flatten_leaf _)
  have commaed := filter_commaed (fun _ : Empty => []) items
  rw [each] at commaed
  simpa only [List.flatMap_singleton', List.flatMap_id'] using commaed

/-- The header of a block has no regions. -/
theorem Grammar.leaves_blockHeader {R : Type} (region : R → List Leaf)
    (header : Definition × List BlockArgument) :
    Grammar.blockHeader.leaves region header =
      (Grammar.blockHeader (R := Empty)).pieces header := by
  have same : (Grammar.blockHeader (R := Empty)).recast R = some Grammar.blockHeader := rfl
  rw [leaves, pieces_of_recast Empty.elim same, List.flatMap_map]
  simp only [Piece.flatten_map, Piece.flatten_leaf, List.flatMap_singleton']

/-- The form in which a body was read does not change its grammar. -/
theorem Grammar.body_form {R : Type} {opcode : Opcode} {form : Form} {b : Body R}
    (built : (body opcode form).Builds b) :
    body (R := R) opcode (b.form form) = body opcode form := by
  have same := (body_describes opcode form).opcode b built
  obtain ⟨payload, extra⟩ := b
  unfold Body.form
  split
  · rename_i flags address types load
    obtain rfl : Opcode.load = opcode := by rw [← same]; exact (congrArg Payload.opcode load).symm
    rfl
  · rename_i flags value address types store
    obtain rfl : Opcode.store = opcode := by rw [← same]; exact (congrArg Payload.opcode store).symm
    rfl
  · rfl

namespace Parser

variable {source : List Char} {before middle after : Stage}

/-! ## Results -/

/-- Whether a definition is that of a value whose name stands in a token. -/
structure Binds (token : Token) (defined : Definition) : Prop where
  kind : defined.kind = .value
  name : token.name = defined.name
  span : token.span = defined.span

theorem DefinesAll.spec {names : List Token} {results : List Definition}
    (defines : DefinesAll names before results after) :
    List.Forall₂ Binds names results ∧ after.rest = before.rest ∧ Grows before results after := by
  induction names generalizing before results with
  | nil =>
    obtain ⟨rfl, rfl⟩ := defines
    exact ⟨.nil, rfl, .refl _⟩
  | cons name names ih =>
    obtain ⟨defined, middle, first, others, rest, rfl⟩ := defines
    obtain ⟨bound, same, grows⟩ := ih rest
    have here : Grows before [defined] middle := .defines first
    obtain ⟨_, rfl, rfl⟩ := first
    exact ⟨.cons ⟨rfl, rfl, rfl⟩ bound, same, here.trans grows⟩

/-- A token that is the name of a value. -/
def ValueNameReads : Meaning Token := fun _ before name after =>
  name.kind = .value ∧ before.Passes name after

/-- Whether leaves account for what is read, and no names are defined or used. -/
def Quiet (source : List Char) (before : Stage) (leaves : List Leaf) (after : Stage) : Prop :=
  Consumes source before leaves after ∧ after.tracker = before.tracker

theorem Quiet.trans {leaves more : List Leaf} (left : Quiet source before leaves middle)
    (right : Quiet source middle more after) : Quiet source before (leaves ++ more) after :=
  ⟨left.1.trans right.1, right.2.trans left.2⟩

theorem Quiet.punct {token : Token} {mark : Punct} (isMark : token.isPunct mark = true)
    (passes : before.Passes token after) : Quiet source before [.punct mark] after :=
  ⟨.punct passes.1 isMark, passes.tracker⟩

theorem Quiet.name {name : Token} {defined : Definition}
    (reads : ValueNameReads source before name after) (bound : Binds name defined) :
    Quiet source before [.definition defined] after := by
  obtain ⟨isValue, passes⟩ := reads
  refine ⟨.leaf rfl passes.1 ⟨name, rfl, ?_, bound.name, bound.span⟩, passes.tracker⟩
  rw [isValue, bound.kind]
  rfl

theorem Quiet.names {names : List Token} {results : List Definition}
    (reads : TailReads ValueNameReads source before names after)
    (bound : List.Forall₂ Binds names results) :
    Quiet source before (results.map .definition) after := by
  induction reads generalizing results with
  | nil =>
    cases bound
    exact ⟨.refl source _, rfl⟩
  | cons comma first rest ih =>
    cases bound with
    | cons here later =>
      have passes := ((Stage.passes_iff (·.isPunct .comma) fun _ => rfl).1 ⟨comma, rfl, rfl⟩).2
      obtain ⟨all, same⟩ :=
        (Quiet.punct comma passes).trans ((Quiet.name first here).trans (ih later))
      exact ⟨all.congr (.refl _), same⟩

/-- The names of results and the equals sign. -/
theorem Quiet.results {names : List Token} {results : List Definition}
    (reads : ResultNamesRead source before names after)
    (bound : List.Forall₂ Binds names results) :
    Quiet source before (resultLeaves results) after := by
  unfold ResultNamesRead at reads
  split at reads
  · obtain ⟨⟨head, tail⟩, middle, ⟨last, first, rest⟩, equal, ⟨isEqual, passes⟩, rfl⟩ := reads
    cases bound with
    | @cons _ defined _ others here later =>
      obtain ⟨all, same⟩ := (Quiet.name first here).trans
        ((Quiet.names rest later).trans (Quiet.punct isEqual passes))
      refine ⟨all.congr ?_, same⟩
      rw [resultLeaves, List.isEmpty_cons, if_neg Bool.false_ne_true, List.filter_append,
        List.filter_append, List.filter_append, filter_commaed_leaves, ← List.flatMap_def,
        ← List.map_eq_flatMap]
      exact .refl _
  · obtain ⟨rfl, rfl⟩ := reads
    cases bound
    exact ⟨.refl source _, rfl⟩

/-! ## Operations -/

section Regions

variable {region : RegionKind → Bool → Meaning (Region Operation)}
  (regions : ∀ kind implicitTerminator {before after : Stage} {inner : Region Operation},
    region kind implicitTerminator source before inner after →
      inner.Whole ∧ Passage source before inner.allLeaves after)

include regions

theorem fromKeyword_passage {found : Nat × Form × Body (Region Operation)}
    (reads : FromKeywordReads region source before found after) :
    ∃ opcode form, found.2.1 = found.2.2.form form ∧
      (Grammar.body opcode form).Builds found.2.2 ∧
      Piece.Spaced ((Grammar.body opcode form).pieces found.2.2) ∧
      (∀ inner ∈ found.2.2.payload.regions, inner.Whole) ∧
      Passage source before (.token .keyword opcode.keyword ::
        (Grammar.body opcode form).leaves Region.allLeaves found.2.2) after := by
  obtain ⟨keyword, middle, opcode, form, ⟨isKeyword, passes⟩, named, _, body, reads, rfl⟩ := reads
  obtain ⟨built, passage⟩ := Grammar.reads_passage
    (fun kind implicitTerminator {_ _ _} reads => (regions kind implicitTerminator reads).2)
    (Grammar.body opcode form) (Grammar.body_lawful opcode form)
    (Grammar.body_plain opcode form) reads
  refine ⟨opcode, form, rfl, built, Grammar.reads_spaced opcode form reads, ?_, ?_⟩
  · have read := Grammar.reads_regions
      (fun kind implicitTerminator {_ _ _} reads => (regions kind implicitTerminator reads).1)
      (Grammar.body opcode form) reads
    intro inner member
    apply read inner
    have mentioned := ((Grammar.body_describes opcode form).mentions body built).mem_iff
      (a := Mention.region inner)
    exact mentioned.2 (List.mem_append_right _ (List.mem_map_of_mem member))
  · unfold Opcode.ofKeyword? at named
    have matched := List.find?_some named
    have text : keyword.text = opcode.keyword := (beq_iff_eq.1 matched).symm
    have first : Passage source before [.token .keyword keyword.text] middle :=
      .lexeme isKeyword rfl passes
    rw [text] at first
    have counted : Passage source middle [] { middle with nextId := middle.nextId + 1 } :=
      .unnamed (.of_rest (.refl source middle) rfl rfl) rfl rfl
    exact first.trans (counted.trans passage)

/-- The leaves of an operation account for what it is read from. -/
theorem operation_passage {op : Operation} (reads : OperationReads region source before op after) :
    op.Whole ∧ Passage source before op.leaves after := by
  obtain ⟨names, middle, readNames, found, last, fromKeyword, results, defines, rfl⟩ := reads
  obtain ⟨opcode, form, sameForm, built, spaced, whole, passage⟩ :=
    fromKeyword_passage regions fromKeyword
  obtain ⟨bound, rest, grows⟩ := defines.spec
  have sameOpcode := (Grammar.body_describes opcode form).opcode _ built
  let op : Operation := .of
    { id := found.1, results, payload := found.2.2.payload, form := found.2.1,
      extra := found.2.2.extra, span := before.cursor.spanBetween after.cursor }
  have grammar : Grammar.body (R := Region Operation) op.opcode op.form =
      Grammar.body opcode form := by
    change Grammar.body found.2.2.payload.opcode found.2.1 = _
    rw [sameOpcode, sameForm, Grammar.body_form built]
  have isWhole : op.Whole := by
    apply Operation.whole_of
    · rw [grammar]
      exact built
    · rw [grammar]
      exact spaced
    · exact whole
  have leaves : op.leaves = resultLeaves results ++ .token .keyword opcode.keyword ::
      (Grammar.body opcode form).leaves Region.allLeaves found.2.2 := by
    rw [Operation.leaves_eq isWhole.built, grammar]
    change resultLeaves results ++ Piece.token .keyword found.2.2.payload.opcode.keyword :: _ = _
    rw [sameOpcode]
    rfl
  refine ⟨isWhole, ?_⟩
  change Passage source before op.leaves after
  rw [leaves]
  obtain ⟨consumes, unchanged⟩ := Quiet.results readNames bound
  refine ⟨consumes.trans (passage.consumes.of_rest rfl rest), ?_⟩
  have all := (Grows.same unchanged).trans (passage.grows.trans grows)
  apply all.congr
  have own : (results.map (Mention.definition (R := Empty))).filterMap Mention.definition? =
      results := by
    rw [List.filterMap_map]
    exact List.filterMap_some
  rw [mentions_append, mentions_resultLeaves, List.filterMap_append, own, List.nil_append]
  exact List.perm_append_comm

/-! ## Blocks -/

theorem blockHeader_passage {draft : BlockDraft}
    (reads : BlockHeaderReads region source before draft after) :
    draft.label.isSome = true ∧ draft.ops = [] ∧
      Passage source before draft.close.allLeaves after := by
  obtain ⟨header, reads, rfl⟩ := reads
  refine ⟨rfl, rfl, ?_⟩
  have passage := (Grammar.reads_passage
    (fun kind implicitTerminator {_ _ _} reads => (regions kind implicitTerminator reads).2)
    Grammar.blockHeader Grammar.blockHeader_lawful Grammar.blockHeader_plain reads).2
  rw [Grammar.leaves_blockHeader] at passage
  apply passage.congr
  simp only [Block.allLeaves, BlockDraft.close, Block.headerLeaves, List.reverse_nil,
    List.flatMap_nil, List.append_nil]
  exact .refl _

end Regions

/-- The leaves of the blocks that have been read so far. -/
def Progress.leaves (progress : Progress) : List Leaf :=
  progress.blocks.flatMap Block.allLeaves

/-- Whether all blocks that have been read so far can be written. -/
def Progress.Whole (progress : Progress) : Prop :=
  ∀ block ∈ progress.blocks, block.Whole

theorem Progress.leaves_eq (progress : Progress) :
    progress.leaves =
      progress.closed.reverse.flatMap Block.allLeaves ++ progress.current.close.allLeaves := by
  rw [leaves, blocks, List.reverse_cons, List.flatMap_append, List.flatMap_singleton]

theorem Progress.whole_iff {progress : Progress} :
    progress.Whole ↔ (∀ block ∈ progress.closed, block.Whole) ∧ progress.current.close.Whole := by
  simp only [Whole, blocks, List.mem_reverse, List.forall_mem_cons, and_comm]

theorem Progress.leaves_next (progress : Progress) (draft : BlockDraft) :
    (progress.next draft).leaves = progress.leaves ++ draft.close.allLeaves := by
  rw [leaves_eq, leaves_eq, next, List.reverse_cons, List.flatMap_append, List.flatMap_singleton]

theorem Progress.Whole.next {progress : Progress} {draft : BlockDraft} (whole : progress.Whole)
    (another : draft.close.Whole) : (progress.next draft).Whole :=
  whole_iff.2 ⟨List.forall_mem_cons.2 (whole_iff.1 whole).symm, another⟩

theorem BlockDraft.whole_close {draft : BlockDraft} (labeled : draft.label = none → draft.args = [])
    (none : draft.ops = []) : draft.close.Whole := by
  refine ⟨labeled, ?_⟩
  intro op member
  rw [close, none] at member
  cases member

theorem BlockDraft.whole_push {draft : BlockDraft} {op : Operation} (whole : draft.close.Whole)
    (new : op.Whole) : (draft.push op).close.Whole := by
  refine ⟨whole.labeled, ?_⟩
  intro other member
  rcases List.mem_cons.1 (List.mem_reverse.1 member) with rfl | earlier
  · exact new
  · exact whole.ops other (List.mem_reverse.2 earlier)

theorem BlockDraft.allLeaves_push (draft : BlockDraft) (op : Operation) :
    (draft.push op).close.allLeaves = draft.close.allLeaves ++ .blank :: op.leaves := by
  have header : (draft.push op).close.headerLeaves = draft.close.headerLeaves := rfl
  rw [Block.allLeaves, Block.allLeaves, header, List.append_assoc]
  congr 1
  rw [close, close, push, List.reverse_cons, List.flatMap_append, List.flatMap_singleton]

theorem BlockDraft.allLeaves_of_isEmpty {draft : BlockDraft} (empty : draft.isEmpty = true) :
    draft.close.allLeaves = [] := by
  obtain ⟨unlabeled, none⟩ := Bool.and_eq_true_iff.1 empty
  rw [Option.isNone_iff_eq_none] at unlabeled
  rw [List.isEmpty_iff] at none
  simp [Block.allLeaves, Block.headerLeaves, close, unlabeled, none]

theorem Progress.leaves_nextLabeled (progress : Progress) (draft : BlockDraft) :
    (progress.nextLabeled draft).leaves = progress.leaves ++ draft.close.allLeaves := by
  unfold nextLabeled
  split
  · rename_i empty
    rw [leaves_eq, leaves_eq, BlockDraft.allLeaves_of_isEmpty empty, List.append_nil]
  · exact leaves_next progress draft

theorem Progress.Whole.nextLabeled {progress : Progress} {draft : BlockDraft}
    (whole : progress.Whole) (another : draft.close.Whole) :
    (progress.nextLabeled draft).Whole := by
  unfold Progress.nextLabeled
  split
  · exact whole_iff.2 ⟨(whole_iff.1 whole).1, another⟩
  · exact whole.next another

/-- An operation is added to the current block or to a new one without a label. -/
theorem Progress.push_spec (progress : Progress) (op : Operation) :
    (progress.push op).leaves = progress.leaves ++ .blank :: op.leaves ∧
      (progress.Whole → op.Whole → (progress.push op).Whole) := by
  have pushed : ∀ progress : Progress,
      ({ progress with current := progress.current.push op } : Progress).leaves =
          progress.leaves ++ .blank :: op.leaves ∧
        (progress.Whole → op.Whole →
          ({ progress with current := progress.current.push op } : Progress).Whole) := by
    intro progress
    constructor
    · rw [leaves_eq, leaves_eq, BlockDraft.allLeaves_push, List.append_assoc]
    · intro whole new
      obtain ⟨closed, current⟩ := whole_iff.1 whole
      exact whole_iff.2 ⟨closed, BlockDraft.whole_push current new⟩
  unfold push
  split
  · obtain ⟨leaves, whole⟩ := pushed (progress.next (.startingAt op.span.start))
    refine ⟨?_, fun old => whole (old.next (BlockDraft.whole_close (fun _ => rfl) rfl))⟩
    rw [leaves, leaves_next, BlockDraft.allLeaves_of_isEmpty rfl, List.append_nil]
  · exact pushed progress

section Regions

variable {region : RegionKind → Bool → Meaning (Region Operation)}
  (regions : ∀ kind implicitTerminator {before after : Stage} {inner : Region Operation},
    region kind implicitTerminator source before inner after →
      inner.Whole ∧ Passage source before inner.allLeaves after)

include regions

/-- The leaves of the blocks that are still to come account for the rest of a region. -/
theorem blocks_passage {kind : RegionKind} {progress : Progress}
    {found : List (Block Operation) × Span}
    (reads : BlocksRead region kind source progress before found after) (whole : progress.Whole) :
    (∀ block ∈ found.1, block.Whole) ∧ ∃ more,
      found.1.flatMap Block.allLeaves = progress.leaves ++ more ∧
        Passage source before (more ++ [.punct .rightBrace]) after := by
  induction reads with
  | close here =>
    have passes := ((Stage.passes_iff (·.isPunct .rightBrace) fun _ => rfl).1 ⟨here, rfl, rfl⟩).2
    exact ⟨whole, [], (List.append_nil _).symm, .punct here passes⟩
  | header inside more starts first rest ih =>
    obtain ⟨labeled, none, passage⟩ := blockHeader_passage regions first
    rename_i progress before middle after draft found
    have new : draft.close.Whole := BlockDraft.whole_close (fun unlabeled => by
      rw [unlabeled] at labeled
      cases labeled) none
    obtain ⟨all, leaves, same, later⟩ := ih (whole.nextLabeled new)
    refine ⟨all, draft.close.allLeaves ++ leaves, ?_, ?_⟩
    · rw [same, Progress.leaves_nextLabeled, List.append_assoc]
    · rw [List.append_assoc]
      exact passage.trans later
  | operation inside more starts first admits rest ih =>
    obtain ⟨new, passage⟩ := operation_passage regions first
    rename_i progress before middle after op found
    obtain ⟨pushed, stays⟩ := progress.push_spec op
    obtain ⟨all, leaves, same, later⟩ := ih (stays whole new)
    refine ⟨all, .blank :: op.leaves ++ leaves, ?_, ?_⟩
    · rw [same, pushed, List.append_assoc]
    · rw [List.append_assoc]
      exact (passage.trans later).congr (.refl _)

theorem region_passage {kind : RegionKind} {implicitTerminator : Bool} {inner : Region Operation}
    (reads : RegionReads region kind implicitTerminator source before inner after) :
    inner.Whole ∧ Passage source before inner.allLeaves after := by
  obtain ⟨opening, middle, ⟨isOpening, passes⟩, found, reads, _, rfl⟩ := reads
  have start : ∀ offset, (Progress.mk [] (.startingAt offset)).Whole := by
    intro offset
    exact Progress.whole_iff.2 ⟨by rintro _ ⟨⟩, BlockDraft.whole_close (fun _ => rfl) rfl⟩
  obtain ⟨whole, leaves, same, passage⟩ := blocks_passage regions reads (start _)
  have blocks : found.1.flatMap Block.allLeaves = leaves := by
    rw [same, Progress.leaves_eq, BlockDraft.allLeaves_of_isEmpty rfl]
    rfl
  refine ⟨whole, ?_⟩
  rw [Region.allLeaves_eq, blocks]
  apply ((Passage.punct isOpening passes).trans passage).congr
  simp only [List.singleton_append, List.filter_cons, List.filter_append]
  exact .refl _

end Regions

/-- The leaves of a region account for what it is read from, however deep regions nest in it. -/
theorem regionWithin_passage (levels : Nat) (kind : RegionKind) (implicitTerminator : Bool)
    {before after : Stage} {inner : Region Operation}
    (reads : RegionWithinReads levels kind implicitTerminator source before inner after) :
    inner.Whole ∧ Passage source before inner.allLeaves after := by
  induction levels generalizing kind implicitTerminator before after inner with
  | zero => cases reads
  | succ levels ih => exact region_passage ih reads

/-! ## Source units -/

/-- The leaves of items account for what they are read from. -/
theorem items_passage {levels : Nat} {braced : Bool} {ops : List Operation}
    (reads : ItemsRead (RegionWithinReads levels) braced source before ops after) :
    (∀ op ∈ ops, op.Whole) ∧ Passage source before (ops.flatMap Operation.leaves) after := by
  induction reads with
  | nil => exact ⟨by rintro _ ⟨⟩, .refl source _⟩
  | cons inside starts first rest ih =>
    obtain ⟨whole, passage⟩ := operation_passage (regionWithin_passage levels) first
    exact ⟨List.forall_mem_cons.2 ⟨whole, ih.1⟩, passage.trans ih.2⟩

theorem ItemsRead.ends {region : RegionKind → Bool → Meaning (Region Operation)} {braced : Bool}
    {ops : List Operation} (reads : ItemsRead region braced source before ops after) :
    (after.cursor.atEnd || braced && after.cursor.atPunct .rightBrace) = true := by
  induction reads with
  | nil ends => exact ends
  | cons _ _ _ _ ih => exact ih

/-- Whether tokens are the optional name of a module. -/
def NameTokens (name : Option Lexeme) (tokens : List Token) : Prop :=
  match name with
  | none => tokens = []
  | some name => ∃ token, tokens = [token] ∧ token.kind = .symbol ∧ name = ⟨token.text, token.span⟩

/-- Whether tokens are the optional attributes of a module. -/
def AttributeTokens (source : List Char) (attributes : Option AttributeText) (tokens : List Token) :
    Prop :=
  match attributes with
  | none => tokens = []
  | some value => ∃ word taken, tokens = word :: taken ∧ word.isWord "attributes" = true ∧
      Embedded source taken value.text value.span

/-- Whether tokens are what stands in front of the items of a source unit and behind them. -/
def HeaderTokens (source : List Char) (header : Option ModuleHeader) (lead trail : List Token) :
    Prop :=
  match header with
  | none => lead = [] ∧ trail = []
  | some header => ∃ word name attributes opening closing,
      lead = word :: (name ++ attributes ++ [opening]) ∧ trail = [closing] ∧
      word.isWord "module" = true ∧ NameTokens header.name name ∧
      AttributeTokens source header.attributes attributes ∧
      opening.isPunct .leftBrace = true ∧ closing.isPunct .rightBrace = true

theorem UnitNameReads.tokens {name : Option Lexeme}
    (reads : UnitNameReads source before name after) :
    after.tracker = before.tracker ∧
      ∃ tokens, before.rest = tokens ++ after.rest ∧ NameTokens name tokens := by
  unfold UnitNameReads at reads
  split at reads
  · rename_i isSymbol
    obtain ⟨rfl, rfl⟩ := reads
    obtain ⟨here, passes⟩ :=
      (Stage.passes_iff (·.kind == .symbol) fun _ => rfl).1 ⟨isSymbol, rfl, rfl⟩
    exact ⟨rfl, [_], passes.1, _, rfl, beq_iff_eq.1 here, rfl⟩
  · obtain ⟨rfl, rfl⟩ := reads
    exact ⟨rfl, [], rfl, rfl⟩

theorem UnitAttributesRead.tokens {attributes : Option AttributeText}
    (reads : UnitAttributesRead source before attributes after) :
    after.tracker = before.tracker ∧
      ∃ tokens, before.rest = tokens ++ after.rest ∧ AttributeTokens source attributes tokens := by
  unfold UnitAttributesRead at reads
  split at reads
  · rename_i isWord
    obtain ⟨value, ⟨_, embeds⟩, rfl⟩ := reads
    obtain ⟨here, passes⟩ :=
      (Stage.passes_iff (·.isWord "attributes") fun _ => rfl).1 ⟨isWord, rfl, rfl⟩
    obtain ⟨taken, rest, embedded⟩ := embeds.embedded
    refine ⟨?_, _ :: taken, ?_, _, taken, rfl, here, embedded⟩
    · obtain ⟨_, _, rfl, _⟩ := embeds
      rfl
    · rw [passes.1, rest]
      rfl
  · obtain ⟨rfl, rfl⟩ := reads
    exact ⟨rfl, [], rfl, rfl⟩

/-- The tokens of a source unit are those of its header and what the leaves of its items account
for. -/
theorem sourceUnit_passage {levels : Nat} {found : Option ModuleHeader × List Operation}
    (reads : SourceUnitReads (RegionWithinReads levels) source before found after) :
    (∀ op ∈ found.2, op.Whole) ∧
      Grows before ((mentions (found.2.flatMap Operation.leaves)).filterMap Mention.definition?)
        after ∧
      ∃ lead tokens trail, before.rest = lead ++ tokens ++ trail ∧
        HeaderTokens source found.1 lead trail ∧
        Covers source (found.2.flatMap Operation.leaves) tokens := by
  have ended : ∀ {stage : Stage}, stage.cursor.atEnd = true → stage.rest = [] :=
    fun atEnd => List.isEmpty_iff.1 atEnd
  unfold SourceUnitReads at reads
  split at reads
  · rename_i isModule
    obtain ⟨header, named, ⟨name, unnamed, readsName, attributes, readsAttributes, rfl⟩, opening,
      inside, ⟨isOpening, passes⟩, ops, last, reads, isClosing, rfl, atEnd, rfl⟩ := reads
    obtain ⟨isWord, first⟩ :=
      (Stage.passes_iff (·.isWord "module") fun _ => rfl).1 ⟨isModule, rfl, rfl⟩
    obtain ⟨closes, ending⟩ :=
      (Stage.passes_iff (·.isPunct .rightBrace) fun _ => rfl).1 ⟨isClosing, rfl, rfl⟩
    obtain ⟨sameName, nameTokens, restName, isName⟩ := readsName.tokens
    obtain ⟨sameAttributes, attributeTokens, restAttributes, isAttributes⟩ := readsAttributes.tokens
    obtain ⟨whole, ⟨tokens, rest, covers⟩, grows⟩ := items_passage reads
    refine ⟨whole, ?_, _ :: (nameTokens ++ attributeTokens ++ [opening]), tokens, [_], ?_,
      ⟨_, nameTokens, attributeTokens, opening, _, rfl, rfl, isWord, isName,
        isAttributes, isOpening, closes⟩, covers⟩
    · apply grows.of_tracker _ ending.tracker
      rw [passes.tracker, sameAttributes, sameName, first.tracker]
    · rw [first.1, restName, restAttributes, passes.1, rest, ending.1, ended atEnd]
      simp
  · obtain ⟨ops, reads, rfl⟩ := reads
    obtain ⟨whole, ⟨tokens, rest, covers⟩, grows⟩ := items_passage reads
    have atEnd := reads.ends
    rw [Bool.false_and, Bool.or_false] at atEnd
    rw [rest, ended atEnd]
    exact ⟨whole, grows, [], tokens, [], rfl, ⟨rfl, rfl⟩, covers⟩

end Parser

end CirText
