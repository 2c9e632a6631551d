import CirText.Proofs.Grammar.Laid
import CirText.Proofs.Operation.Sound

/-!
# The blocks of a region that have been read so far

While a region is read, its blocks stand one after the other, they are divided as terminators
demand, and everything in them is as it should be. This is kept when a block is added, when an
operation is added to the last block, and when the last block is dropped because there is nothing in
it.
-/

namespace CirText

/-! ## Drafts -/

/-- A block with one more operation. -/
def Block.push (block : Block Operation) (op : Operation) : Block Operation :=
  { block with ops := block.ops ++ [op], span := ⟨block.span.start, op.span.stop⟩ }

namespace Parser

theorem BlockDraft.close_push (draft : BlockDraft) (op : Operation) :
    (draft.push op).close = draft.close.push op := by
  simp [BlockDraft.close, BlockDraft.push, Block.push]

theorem BlockDraft.terminator_close (draft : BlockDraft) :
    draft.close.terminator.isSome = draft.isTerminated := by
  have last : draft.close.ops.getLast? = draft.ops.head? := List.getLast?_reverse
  rw [Block.terminator, last, BlockDraft.isTerminated]
  cases draft.ops.head? with
  | none => rfl
  | some op => cases terminates : op.isTerminator <;> simp [Option.filter, terminates]

theorem Progress.blocks_eq (progress : Progress) :
    progress.blocks = progress.closed.reverse ++ [progress.current.close] := by
  rw [Progress.blocks, List.reverse_cons]

theorem Progress.blocks_next (progress : Progress) (draft : BlockDraft) :
    (progress.next draft).blocks = progress.blocks ++ [draft.close] :=
  (progress.next draft).blocks_eq

/-- An operation is added to the last block, unless that one is terminated. -/
theorem Progress.blocks_push (progress : Progress) (op : Operation) :
    (progress.push op).blocks =
      if progress.current.isTerminated then
        progress.blocks ++ [(BlockDraft.startingAt op.span.start).close.push op]
      else progress.closed.reverse ++ [progress.current.close.push op] := by
  unfold Progress.push
  split
  · rw [Progress.blocks_eq, BlockDraft.close_push]
    rfl
  · rw [Progress.blocks_eq, BlockDraft.close_push]

theorem Progress.blocks_nextLabeled (progress : Progress) (draft : BlockDraft) :
    (progress.nextLabeled draft).blocks =
      if progress.current.isEmpty then progress.closed.reverse ++ [draft.close]
      else progress.blocks ++ [draft.close] := by
  unfold Progress.nextLabeled
  split
  · exact Progress.blocks_eq _
  · exact progress.blocks_next draft

/-- The operations in the blocks that have been read so far. -/
def progressOps (progress : Progress) : List Operation :=
  progress.blocks.flatMap (·.ops)

theorem progressOps_push (progress : Progress) (op : Operation) :
    progressOps (progress.push op) = progressOps progress ++ [op] := by
  rw [progressOps, Progress.blocks_push, progressOps]
  split
  · simp [Block.push, BlockDraft.close, BlockDraft.startingAt]
  · simp [Progress.blocks_eq, Block.push]

theorem progressOps_nextLabeled {progress : Progress} {draft : BlockDraft}
    (fresh : draft.ops = []) :
    progressOps (progress.nextLabeled draft) = progressOps progress := by
  have empty : draft.close.ops = [] := by simp [BlockDraft.close, fresh]
  rw [progressOps, Progress.blocks_nextLabeled, progressOps]
  split
  · rename_i unused
    have none_ : progress.current.close.ops = [] := by
      rw [BlockDraft.isEmpty, Bool.and_eq_true, List.isEmpty_iff] at unused
      simp [BlockDraft.close, unused.2]
    simp [Progress.blocks_eq, empty, none_]
  · simp [empty]

end Parser

/-! ## The shape of blocks -/

namespace Shaped

variable {blocks : List (Block Operation)} {block other : Block Operation}

theorem nil : Shaped [] :=
  ⟨by rintro _ ⟨⟩, .nil⟩

theorem concat_iff : Shaped (blocks ++ [block]) ↔
    Shaped blocks ∧ (∀ op ∈ block.ops.dropLast, op.isTerminator = false) ∧
      ∀ last ∈ blocks.getLast?, block.label = none → last.terminator.isSome = true := by
  constructor
  · intro shaped
    obtain ⟨start, _, continues⟩ := List.isChain_append.1 shaped.labels
    refine ⟨⟨fun other member => shaped.terminators other (List.mem_append_left _ member), start⟩,
      shaped.terminators block (List.mem_append_right _ List.mem_cons_self), ?_⟩
    exact fun last isLast => continues last isLast block rfl
  · rintro ⟨shaped, terminators, continues⟩
    constructor
    · intro other member
      rcases List.mem_append.1 member with old | new
      · exact shaped.terminators other old
      · rw [List.mem_singleton.1 new]
        exact terminators
    · refine List.isChain_append.2 ⟨shaped.labels, .singleton _, ?_⟩
      rintro last isLast _ ⟨⟩
      exact continues last isLast

/-- An operation may come after any that is not a terminator. -/
theorem push (shaped : Shaped (blocks ++ [block])) (goesOn : block.terminator = none)
    (op : Operation) : Shaped (blocks ++ [block.push op]) := by
  obtain ⟨start, terminators, continues⟩ := concat_iff.1 shaped
  refine concat_iff.2 ⟨start, ?_, continues⟩
  intro other member
  have inBlock : other ∈ block.ops := by
    simpa [Block.push] using member
  rcases List.eq_nil_or_concat block.ops with empty | ⟨init, last, split⟩
  · rw [empty] at inBlock
    cases inBlock
  · rw [Block.terminator, split, List.concat_eq_append, List.getLast?_append] at goesOn
    rw [split, List.concat_eq_append, List.dropLast_concat] at terminators
    rw [split, List.concat_eq_append, List.mem_append, List.mem_singleton] at inBlock
    rcases inBlock with early | rfl
    · exact terminators other early
    · simpa [Option.filter] using goesOn

end Shaped

namespace Parser

/-! ## What is known of blocks -/

variable {text : List Char} {levels : Nat} {first now later : Stage}

/-- What is known of a block of a region of which the first token is read at one stage, at another
stage after the block. -/
structure KnowsBlock (text : List Char) (levels : Nat) (first now : Stage)
    (block : Block Operation) :
    Prop where
  placed : block.Placed text
  start : first.here ≤ block.span.start
  stop : block.span.stop ≤ now.here
  names : ∀ definition ∈ block.definitions, definition.scope = first.scope
  inside : ∀ op ∈ block.ops, ∀ table, now.tracker.table.GrowsTo table →
    op.Throughout (Operation.Sound text table) levels first.scope

/-- What is known of an operation between two stages. -/
structure Stage.Has (text : List Char) (levels : Nat) (before : Stage) (op : Operation)
    (after : Stage) : Prop where
  covers : Stage.Covers text before after op.span
  start : op.span.start = before.here
  throughout : ∀ table, after.tracker.table.GrowsTo table →
    op.Throughout (Operation.Sound text table) levels before.scope
  scopes : Ascends before.size after.size (op.allRegions.map (·.scope))
  fewer : after.rest.length < before.rest.length

namespace KnowsBlock

variable {block : Block Operation}

theorem widen {start : Stage} (known : KnowsBlock text levels first now block)
    (left : Stage.Stretch text start first) (right : Stage.Stretch text now later) :
    KnowsBlock text levels start later block where
  placed := known.placed
  start := Nat.le_trans (left.onward.here_le left.start) known.start
  stop := Nat.le_trans known.stop (right.onward.here_le right.start)
  names definition member := (known.names definition member).trans left.onward.scope_eq
  inside op member table grows := by
    rw [← left.onward.scope_eq]
    exact known.inside op member table (right.onward.grown.table.trans grows)

/-- A block without any text. -/
theorem empty (placed : now.Placed text) :
    KnowsBlock text levels now now (BlockDraft.startingAt now.here).close where
  placed :=
    { span := Span.on_emptyAt placed.cursor.peek.start
      definitions := by rintro _ ⟨⟩
      types := by rintro _ ⟨⟩
      ops := by rintro _ ⟨⟩
      ordered := .nil }
  start := Nat.le_refl _
  stop := Nat.le_refl _
  names := by rintro _ ⟨⟩
  inside := by rintro _ ⟨⟩

/-- An operation that stands after a block can be added to it. -/
theorem push (known : KnowsBlock text levels first now block) (left : Stage.Stretch text first now)
    {op : Operation} (has : now.Has text levels op later) (right : Stage.Stretch text now later) :
    KnowsBlock text levels first later (block.push op) := by
  have starts : block.span.stop ≤ op.span.start := Nat.le_trans known.stop has.covers.start
  have ends : block.span.stop ≤ op.span.stop := Nat.le_trans starts has.covers.on.ordered
  have nonempty : block.span.start ≤ block.span.stop := known.placed.span.ordered
  have wider : ∀ {span}, Span.Within text block.span span →
      Span.Within text (block.push op).span span := fun within => within.widen (Nat.le_refl _) ends
  constructor
  · constructor
    · exact ⟨Nat.le_trans nonempty ends, known.placed.span.start, has.covers.on.stop⟩
    · exact fun definition member => wider (known.placed.definitions definition member)
    · exact fun arg member =>
        ⟨wider (known.placed.types arg member).span, (known.placed.types arg member).text⟩
    · intro other member
      rcases List.mem_append.1 member with old | new
      · exact wider (known.placed.ops other old)
      · rw [List.mem_singleton.1 new]
        exact ⟨has.covers.on, Nat.le_trans nonempty starts, Nat.le_refl _⟩
    · refine List.pairwise_append.2 ⟨known.placed.ordered, List.pairwise_singleton _ op, ?_⟩
      intro other old last new
      rw [List.mem_singleton.1 new]
      exact Nat.le_trans (known.placed.ops other old).stop starts
  · exact known.start
  · exact Nat.le_trans has.covers.stop right.stop.lastStop_le_here
  · exact known.names
  · intro other member table grows
    rcases List.mem_append.1 member with old | new
    · exact known.inside other old table (right.onward.grown.table.trans grows)
    · rw [List.mem_singleton.1 new, ← left.onward.scope_eq]
      exact has.throughout table grows

end KnowsBlock

/-- The scopes of the regions inside blocks. -/
def blockScopes (blocks : List (Block Operation)) : List ScopeId :=
  ((blocks.flatMap (·.ops)).flatMap Operation.allRegions).map (·.scope)

theorem blockScopes_append (blocks more : List (Block Operation)) :
    blockScopes (blocks ++ more) = blockScopes blocks ++ blockScopes more := by
  simp only [blockScopes, List.flatMap_append, List.map_append]

theorem blockScopes_push (block : Block Operation) (op : Operation) :
    blockScopes [block.push op] = blockScopes [block] ++ op.allRegions.map (·.scope) := by
  simp only [blockScopes, Block.push, List.flatMap_singleton, List.flatMap_append, List.map_append]

/-- What is known of the blocks of a region from its first token on. -/
structure Surveyed (text : List Char) (levels : Nat) (first : Stage)
    (blocks : List (Block Operation))
    (now : Stage) : Prop where
  stretch : Stage.Stretch text first now
  known : ∀ block ∈ blocks, KnowsBlock text levels first now block
  ordered : blocks.Pairwise fun left right => left.span.Before right.span
  shaped : Shaped blocks
  scopes : Ascends first.size now.size (blockScopes blocks)

namespace Surveyed

variable {blocks : List (Block Operation)} {block : Block Operation}

theorem nil (placed : now.Placed text) : Surveyed text levels now [] now where
  stretch := .refl placed
  known := by rintro _ ⟨⟩
  ordered := .nil
  shaped := .nil
  scopes := .nil

theorem onward (surveyed : Surveyed text levels first blocks now)
    (stretch : Stage.Stretch text now later) : Surveyed text levels first blocks later where
  stretch := surveyed.stretch.trans stretch
  known block member := (surveyed.known block member).widen (.refl surveyed.stretch.start) stretch
  ordered := surveyed.ordered
  shaped := surveyed.shaped
  scopes := surveyed.scopes.widen (Nat.le_refl _) stretch.onward.size_le

/-- Another block follows. -/
theorem concat (surveyed : Surveyed text levels first blocks now)
    (stretch : Stage.Stretch text now later) (known : KnowsBlock text levels first later block)
    (start : now.here ≤ block.span.start)
    (terminators : ∀ op ∈ block.ops.dropLast, op.isTerminator = false)
    (continues : ∀ last ∈ blocks.getLast?, block.label = none → last.terminator.isSome = true)
    (scopes : Ascends now.size later.size (blockScopes [block])) :
    Surveyed text levels first (blocks ++ [block]) later where
  stretch := surveyed.stretch.trans stretch
  known other member := by
    rcases List.mem_append.1 member with old | new
    · exact (surveyed.known other old).widen (.refl surveyed.stretch.start) stretch
    · rw [List.mem_singleton.1 new]
      exact known
  ordered := by
    refine List.pairwise_append.2 ⟨surveyed.ordered, List.pairwise_singleton _ block, ?_⟩
    intro other old last new
    rw [List.mem_singleton.1 new]
    exact Nat.le_trans (surveyed.known other old).stop start
  shaped := Shaped.concat_iff.2 ⟨surveyed.shaped, terminators, continues⟩
  scopes := by
    rw [blockScopes_append]
    exact surveyed.scopes.append scopes surveyed.stretch.onward.size_le stretch.onward.size_le

/-- The last block may be dropped if it has no operations. -/
theorem init (surveyed : Surveyed text levels first (blocks ++ [block]) now)
    (empty : block.ops = []) :
    Surveyed text levels first blocks now where
  stretch := surveyed.stretch
  known other member := surveyed.known other (List.mem_append_left _ member)
  ordered := (List.pairwise_append.1 surveyed.ordered).1
  shaped := (Shaped.concat_iff.1 surveyed.shaped).1
  scopes := by
    have scopes := surveyed.scopes
    have none : blockScopes [block] = [] := by simp [blockScopes, empty]
    rwa [blockScopes_append, none, List.append_nil] at scopes

/-- An operation is added to the last block. -/
theorem push (surveyed : Surveyed text levels first (blocks ++ [block]) now)
    (goesOn : block.terminator = none) {op : Operation} (has : now.Has text levels op later)
    (stretch : Stage.Stretch text now later) :
    Surveyed text levels first (blocks ++ [block.push op]) later where
  stretch := surveyed.stretch.trans stretch
  known other member := by
    rcases List.mem_append.1 member with old | new
    · exact (surveyed.known other (List.mem_append_left _ old)).widen
        (.refl surveyed.stretch.start) stretch
    · rw [List.mem_singleton.1 new]
      exact (surveyed.known block (List.mem_append_right _ List.mem_cons_self)).push
        surveyed.stretch has stretch
  ordered := by
    obtain ⟨before, _, after⟩ := List.pairwise_append.1 surveyed.ordered
    refine List.pairwise_append.2 ⟨before, List.pairwise_singleton _ _, ?_⟩
    intro other old last new
    rw [List.mem_singleton.1 new]
    exact after other old block List.mem_cons_self
  shaped := surveyed.shaped.push goesOn op
  scopes := by
    have scopes := surveyed.scopes.append has.scopes surveyed.stretch.onward.size_le
      stretch.onward.size_le
    rwa [blockScopes_append, List.append_assoc, ← blockScopes_push, ← blockScopes_append] at scopes

/-- A block begins with a label, in place of one of which nothing has been read. -/
theorem nextLabeled {progress : Progress} {draft : BlockDraft}
    (surveyed : Surveyed text levels first progress.blocks now)
    (stretch : Stage.Stretch text now later) (known : KnowsBlock text levels now later draft.close)
    (labeled : draft.label.isSome = true) (fresh : draft.ops = []) :
    Surveyed text levels first (progress.nextLabeled draft).blocks later := by
  have inRegion := known.widen surveyed.stretch (.refl stretch.stop)
  have terminators : ∀ op ∈ draft.close.ops.dropLast, op.isTerminator = false := by
    simp [BlockDraft.close, fresh]
  have scopes : Ascends now.size later.size (blockScopes [draft.close]) := by
    simpa [blockScopes, BlockDraft.close, fresh] using Ascends.nil
  have next : ∀ {blocks}, Surveyed text levels first blocks now →
      Surveyed text levels first (blocks ++ [draft.close]) later := by
    intro blocks sofar
    refine sofar.concat stretch inRegion known.start terminators ?_ scopes
    intro last _ unlabeled
    rw [show draft.label = none from unlabeled] at labeled
    cases labeled
  rw [Progress.blocks_nextLabeled]
  split
  · rename_i empty
    rw [Progress.blocks_eq] at surveyed
    apply next (surveyed.init _)
    simp only [BlockDraft.isEmpty, Bool.and_eq_true, List.isEmpty_iff] at empty
    simp [BlockDraft.close, empty.2]
  · exact next surveyed

/-- An operation is added to the last block, or to one that goes on after it. -/
theorem pushProgress {progress : Progress}
    (surveyed : Surveyed text levels first progress.blocks now)
    {op : Operation} (has : now.Has text levels op later) (stretch : Stage.Stretch text now later) :
    Surveyed text levels first (progress.push op).blocks later := by
  rw [Progress.blocks_push]
  have ends := progress.current.terminator_close
  split
  · rename_i terminated
    have single : KnowsBlock text levels now later
        ((BlockDraft.startingAt op.span.start).close.push op) := by
      rw [has.start]
      exact (KnowsBlock.empty stretch.start).push (.refl stretch.start) has stretch
    have inRegion := single.widen surveyed.stretch (.refl stretch.stop)
    refine surveyed.concat stretch inRegion has.covers.start (by rintro _ ⟨⟩) ?_ ?_
    · intro last isLast _
      rw [Progress.blocks_eq, List.getLast?_concat] at isLast
      cases isLast
      exact ends.trans terminated
    · rw [blockScopes_push]
      exact has.scopes
  · rename_i goesOn
    rw [Progress.blocks_eq] at surveyed
    refine surveyed.push ?_ has stretch
    exact Option.not_isSome_iff_eq_none.1 (ends ▸ goesOn)

end Surveyed

end Parser

end CirText
