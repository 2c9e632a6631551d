import CirText.Proofs.Headers
import CirText.Proofs.Operation.Deprecated
import CirText.Proofs.Parser.Headway
import CirText.Proofs.Parser.Progress
import CirText.Proofs.Parser.Recovery
import CirText.Proofs.Reread.Blocks

/-!
# Where operations may be put in

The blocks of a region are read one header or operation after the other. Wherever one of them
starts, and in front of the closing brace, parsing can go on, and another operation may be put in
there.
-/

namespace CirText

open CirText.Parser

/-- The offsets at which the header and the operations of a block start. -/
def Block.starts (block : Block Operation) : List Nat :=
  block.label.toList.map (·.span.start) ++ block.ops.map (·.span.start)

/-- The offsets at which an operation, the header of a block or the closing brace of a region
starts. -/
def Region.boundaries (region : Region Operation) : List Nat :=
  region.blocks.flatMap Block.starts ++ [region.span.stop - 1]

/-- The tokens that stand inside a span. -/
def Span.tokens (span : Span) (tokens : List Token) : List Token :=
  tokens.filter (·.span.Inside span)

/-- Whether the types of the arguments of a block have no braces and their parentheses in pairs. -/
def Block.PairsParens (tokens : List Token) (block : Block Operation) : Prop :=
  ∀ arg ∈ block.args, pairsParens 0 (arg.type.span.tokens tokens) = true

theorem Operation.Matches.refl (op : Operation) : op.Matches op :=
  ⟨rfl, fun _ => rfl⟩

theorem Parser.BlockDraft.Matches.refl (draft : BlockDraft) : draft.Matches draft :=
  ⟨rfl, rfl, List.forall₂_same.2 fun op _ => .refl op⟩

/-- Whether a block goes on with a part of it: it has the same header and starts with the same
operations. -/
structure Block.GoesOn (part block : Block Operation) : Prop where
  start : block.span.start = part.span.start
  label : block.label = part.label
  args : block.args = part.args
  ops : part.ops <+: block.ops

theorem Block.GoesOn.refl (block : Block Operation) : Block.GoesOn block block :=
  ⟨rfl, rfl, rfl, List.prefix_rfl⟩

theorem Block.GoesOn.trans {part middle block : Block Operation} (first : Block.GoesOn part middle)
    (second : Block.GoesOn middle block) : Block.GoesOn part block :=
  ⟨second.start.trans first.start, second.label.trans first.label, second.args.trans first.args,
    first.ops.trans second.ops⟩

/-- Whether nothing has been read of a block. -/
def Block.Blank (block : Block Operation) : Prop :=
  block.label = none ∧ block.ops = []

namespace Parser

variable {region : RegionKind → Bool → Meaning (Region Operation)} {source : List Char}

/-! ## What has been read so far -/

namespace Progress

/-- The offsets at which the headers and operations start that have been read so far. -/
def starts (progress : Progress) : List Nat :=
  progress.blocks.flatMap Block.starts

theorem starts_push (progress : Progress) (op : Operation) :
    (progress.push op).starts = progress.starts ++ [op.span.start] := by
  rw [starts, blocks_push, starts]
  split
  · simp [Block.starts, Block.push, BlockDraft.close, BlockDraft.startingAt]
  · simp [blocks_eq, Block.starts, Block.push]

theorem starts_nextLabeled (progress : Progress) {draft : BlockDraft} (fresh : draft.ops = []) :
    (progress.nextLabeled draft).starts = progress.starts ++
      draft.label.toList.map (·.span.start) := by
  have labeled : draft.close.starts = draft.label.toList.map (·.span.start) := by
    simp [Block.starts, BlockDraft.close, fresh]
  rw [starts, blocks_nextLabeled, starts]
  split
  · rename_i unused
    rw [BlockDraft.isEmpty, Bool.and_eq_true, List.isEmpty_iff, Option.isNone_iff_eq_none] at unused
    have none_ : progress.current.close.starts = [] := by
      simp [Block.starts, BlockDraft.close, unused.1, unused.2]
    simp [blocks_eq, none_, labeled]
  · simp [labeled]

end Progress

namespace Progress

/-- Every block that has been read so far goes on when an operation is read. -/
theorem push_goesOn (progress : Progress) (op : Operation) :
    ∀ part ∈ progress.blocks, ∃ block ∈ (progress.push op).blocks, Block.GoesOn part block := by
  intro part member
  rw [blocks_push]
  split
  · exact ⟨part, List.mem_append_left _ member, .refl part⟩
  · rw [blocks_eq, List.mem_append, List.mem_singleton] at member
    rcases member with closed | rfl
    · exact ⟨part, List.mem_append_left _ closed, .refl part⟩
    · exact ⟨_, List.mem_append_right _ (List.mem_singleton.2 rfl), rfl, rfl, rfl,
        List.prefix_append _ _⟩

/-- Every block of which something has been read stays when the header of another one is read. -/
theorem mem_nextLabeled (progress : Progress) (draft : BlockDraft) :
    ∀ part ∈ progress.blocks, ¬part.Blank → part ∈ (progress.nextLabeled draft).blocks := by
  intro part member written
  rw [blocks_nextLabeled]
  split
  · rename_i unused
    rw [BlockDraft.isEmpty, Bool.and_eq_true, List.isEmpty_iff, Option.isNone_iff_eq_none] at unused
    rw [blocks_eq, List.mem_append, List.mem_singleton] at member
    rcases member with closed | rfl
    · exact List.mem_append_left _ closed
    · exact absurd ⟨unused.1, by simp [BlockDraft.close, unused.2]⟩ written
  · exact List.mem_append_left _ member

theorem mem_blocks_nextLabeled (progress : Progress) (draft : BlockDraft) :
    draft.close ∈ (progress.nextLabeled draft).blocks := by
  rw [blocks_nextLabeled]
  split <;> simp

end Progress

variable {kind : RegionKind} {progress : Progress} {before after : Stage}
    {found : List (Block Operation) × Span}

/-- The label of a block is the first token of its header. -/
theorem BlockHeaderReads.start_eq {draft : BlockDraft}
    (reads : BlockHeaderReads region source before draft after) :
    draft.ops = [] ∧ draft.label.toList.map (·.span.start) = [before.cursor.peek.span.start] := by
  obtain ⟨⟨defined, args⟩, reads, rfl⟩ := reads
  obtain ⟨_, ⟨_, ⟨label, _, ⟨_, passes⟩, defines⟩, _⟩, _⟩ := Grammar.reads_followedBy.1 reads
  obtain ⟨_, rfl, _⟩ := defines
  refine ⟨rfl, ?_⟩
  rw [Cursor.peek_of_cons passes.1]
  rfl

theorem BlockHeaderReads.draft_start {draft : BlockDraft}
    (reads : BlockHeaderReads region source before draft after) :
    draft.start = before.cursor.peek.span.start := by
  obtain ⟨_, _, rfl⟩ := reads
  rfl

/-- Every block of which something has been read so far goes on in the end. -/
theorem BlocksRead.goesOn (reads : BlocksRead region kind source progress before found after) :
    ∀ part ∈ progress.blocks, ¬part.Blank → ∃ block ∈ found.1, Block.GoesOn part block := by
  induction reads with
  | close => exact fun part member _ => ⟨part, member, .refl part⟩
  | header _ _ _ _ _ ih =>
    exact fun part member written =>
      ih part (Progress.mem_nextLabeled _ _ part member written) written
  | operation _ _ _ _ _ _ ih =>
    intro part member written
    obtain ⟨middle, later, first⟩ := Progress.push_goesOn _ _ part member
    have stillWritten : ¬middle.Blank := by
      rintro ⟨label, ops⟩
      exact written ⟨first.label.symm.trans label, List.prefix_nil.1 (ops ▸ first.ops)⟩
    obtain ⟨block, inFound, second⟩ := ih middle later stillWritten
    exact ⟨block, inFound, first.trans second⟩

/-- Every operation that has been read so far is there in the end. -/
theorem BlocksRead.mem_ops (reads : BlocksRead region kind source progress before found after) :
    ∀ op ∈ progressOps progress, op ∈ found.1.flatMap (·.ops) := by
  intro op member
  obtain ⟨part, inProgress, inPart⟩ := List.mem_flatMap.1 member
  obtain ⟨block, inFound, goesOn⟩ := reads.goesOn part inProgress fun blank => by
    rw [blank.2] at inPart
    cases inPart
  exact List.mem_flatMap.2 ⟨block, inFound, goesOn.ops.subset inPart⟩

/-! ## Going on -/

/-- Names of results with an equals sign behind them are recognised. -/
theorem startsResults_of_tail {middle : Stage} {names : List Token} {equal : Token}
    (reads : TailReads (fun _ before name after => name.kind = .value ∧ before.Passes name after)
      source before names middle)
    (isEqual : equal.isPunct .equal = true) (passes : middle.Passes equal after) {name : Token}
    (isName : name.kind = .value) : Cursor.startsResults (name :: before.rest) = true := by
  induction reads generalizing name with
  | nil =>
    rw [passes.1, Cursor.startsResults, isName, isEqual]
    rfl
  | @cons before next middle other others comma first _ ih =>
    obtain ⟨separator, isComma, toNext⟩ := Stage.passes_of_atPunct comma
    have later := ih passes first.1
    rw [← first.2.1] at later
    rw [toNext.1, Cursor.startsResults, isName, isComma, later]
    simp

/-- What is read as an operation is recognised as the start of one. -/
theorem OperationReads.startsUnit {op : Operation}
    (reads : OperationReads region source before op after) :
    Cursor.startsUnit before.rest = true := by
  obtain ⟨names, middle, named, _, _, ⟨keyword, _, _, _, ⟨isKeyword, passes⟩, _⟩, _⟩ := reads
  unfold ResultNamesRead at named
  split at named
  · obtain ⟨_, last, ⟨second, ⟨isName, first⟩, others⟩, equal, ⟨isEqual, toMiddle⟩, _⟩ := named
    have results := startsResults_of_tail others isEqual toMiddle isName
    rw [← first.1] at results
    rw [Cursor.startsUnit, results, Bool.or_true, Bool.true_or]
  · obtain ⟨_, rfl⟩ := named
    rw [passes.1, Cursor.startsUnit, List.head?_cons, Option.any_some, isKeyword]
    rfl

/-- Parsing goes on wherever the blocks of a region do. -/
theorem BlocksRead.resumes (reads : BlocksRead region kind source progress before found after) :
    Cursor.Resumes before.rest := by
  cases reads with
  | close here =>
    obtain ⟨brace, isBrace, passes⟩ := Stage.passes_of_atPunct here
    rw [passes.1]
    exact Cursor.resumes_of_rightBrace isBrace
  | header _ _ starts =>
    refine Cursor.resumes_of_startsUnit ?_
    rw [Cursor.startsUnit, starts, Bool.or_true]
  | operation _ _ _ first => exact Cursor.resumes_of_startsUnit first.startsUnit

end Parser

/-! ## Headers -/

namespace Lexer.Ordered

variable {offset : Nat} {tokens : List Token}

/-- Tokens that stand side by side are all that stand inside the span from the first to the last of
them. -/
theorem tokens_cover {front taken back : List Token}
    (ordered : Ordered offset (front ++ taken ++ back))
    {first last : Token} (starts : taken.head? = some first) (ends : taken.getLast? = some last) :
    (first.span.cover last.span).tokens (front ++ taken ++ back) = taken := by
  obtain ⟨_, inside⟩ := ordered.append_left.append_right
  have firstIn := List.mem_of_head? starts
  have lastIn := List.mem_of_getLast? ends
  have before : front.filter (·.span.Inside (first.span.cover last.span)) = [] := by
    refine List.filter_eq_nil_iff.2 fun token member within => ?_
    have earlier := ordered.append_left.stop_le_start token member first firstIn
    have some_ := ordered.nonempty token (List.mem_append_left _ (List.mem_append_left _ member))
    have start := (of_decide_eq_true within).start
    rw [inside.cover_eq starts ends] at start
    dsimp only at start
    omega
  have behind : back.filter (·.span.Inside (first.span.cover last.span)) = [] := by
    refine List.filter_eq_nil_iff.2 fun token member within => ?_
    have later := ordered.stop_le_start last (List.mem_append_right _ lastIn) token member
    have some_ := ordered.nonempty token (List.mem_append_right _ member)
    have stop := (of_decide_eq_true within).stop
    rw [inside.cover_eq starts ends] at stop
    dsimp only at stop
    omega
  rw [Span.tokens, List.filter_append, List.filter_append, before, behind, List.append_nil,
    List.nil_append, List.filter_eq_self]
  exact fun token member => decide_eq_true (inside.inside_cover starts ends token member)

/-- Where the tokens go on at the same offset, the same tokens are left. -/
theorem suffix_eq (ordered : Ordered offset tokens) {first second : Token}
    {rest others : List Token}
    (here : first :: rest <:+ tokens) (there : second :: others <:+ tokens)
    (same : first.span.start = second.span.start) : first :: rest = second :: others := by
  have apart : ∀ {first second : Token} {rest others : List Token}, second :: others <:+ tokens →
      first :: rest <:+ others → first.span.start ≠ second.span.start := by
    intro first second rest others there later same
    obtain ⟨_, inside⟩ := ordered.infix there.isInfix
    have next := inside.2.2.start_le first (later.subset List.mem_cons_self)
    have some_ := inside.2.1
    omega
  rcases List.suffix_or_suffix_of_suffix here there with within | within
  · rcases List.suffix_cons_iff.1 within with whole | later
    · exact whole
    · exact absurd same (apart there later)
  · rcases List.suffix_cons_iff.1 within with whole | later
    · exact whole.symm
    · exact absurd same.symm (apart here later)

end Lexer.Ordered

/-! ## Where operations and headers start -/

namespace Cursor

/-- The last token read behind a cursor is one of those that are left there. -/
theorem last_advance_mem {cursor : Cursor} {token : Token} {rest : List Token}
    (more : cursor.rest = token :: rest)
    (count : Nat) : ∃ last ∈ token :: rest, (cursor.advance (count + 1)).last = some last := by
  induction count generalizing cursor token rest with
  | zero => exact ⟨token, List.mem_cons_self, last_next more⟩
  | succ count ih =>
    have onward : cursor.next.rest = rest := rest_next_of_cons more
    cases rest with
    | nil =>
      refine ⟨token, List.mem_cons_self, ?_⟩
      rw [advance, advance_of_nil onward, last_next more]
    | cons second rest =>
      obtain ⟨last, member, same⟩ := ih onward
      exact ⟨last, List.mem_cons_of_mem _ member, same⟩

/-- What has been read starts where the tokens did that are left before it. -/
theorem start_spanBetween {cursor after : Cursor} {offset : Nat}
    (ordered : Lexer.Ordered offset cursor.rest)
    (reaches : cursor.Reaches after) (fewer : after.rest.length < cursor.rest.length) :
    (cursor.spanBetween after).start = cursor.peek.span.start := by
  have further := reaches.position_lt fewer
  obtain ⟨count | count, rfl⟩ := reaches
  · exact absurd fewer (Nat.lt_irrefl _)
  · cases more : cursor.rest with
    | nil =>
      rw [more] at fewer
      cases fewer
    | cons token rest =>
      obtain ⟨last, member, same⟩ := last_advance_mem more count
      rw [more] at ordered
      rw [spanBetween, same, peek_of_cons more]
      dsimp only
      rw [if_neg (Nat.not_le_of_lt further), Span.cover]
      exact Nat.min_eq_left (ordered.head?_start_le rfl last member)

end Cursor

namespace Parser

variable {region : RegionKind → Bool → Meaning (Region Operation)} {source : List Char}
    {tokens : List Token}
  {before after : Stage}

/-- An operation starts with the next token. -/
theorem OperationReads.start_eq {parser : RegionKind → Bool → Parser (Region Operation)}
    (means : Means.OfRegions parser region)
    (forward : ∀ kind implicitTerminator, Forward (parser kind implicitTerminator))
    (ordered : Lexer.Ordered 0 tokens) (within : before.rest <:+ tokens) {op : Operation}
    (reads : OperationReads region source before op after) :
    op.span.start = before.cursor.peek.span.start := by
  have reaches := (Means.operation means).reaches (forward_operation forward) reads
  have fewer := Means.progresses_operation means _ _ _ _ reads
  obtain ⟨_, inside⟩ := ordered.infix within.isInfix
  obtain ⟨_, _, _, _, _, _, _, _, rfl⟩ := reads
  exact Cursor.start_spanBetween inside reaches fewer

/-- The tokens of an argument of a block have their parentheses in pairs if those of its type do. -/
theorem pairs_blockArgument (ordered : Lexer.Ordered 0 tokens) {arg : BlockArgument}
    (reads : Grammar.blockArgument.Reads region source before arg after)
    (within : before.rest <:+ tokens)
    (pairs : pairsParens 0 (arg.type.span.tokens tokens) = true) :
    ∃ taken, before.rest = taken ++ after.rest ∧ pairsParens 0 taken = true := by
  obtain ⟨⟨defined, written⟩, ⟨name, middle, last, ⟨isName, passes⟩, reads, defines⟩, rfl⟩ := reads
  obtain ⟨next, ⟨colon, isColon, toNext⟩, reads⟩ :=
    Grammar.reads_before.1 (Grammar.reads_spaced_iff.1 reads)
  have reads : TypeReads source next written last := Grammar.reads_spaced_iff.1 reads
  obtain ⟨taken, rest, embedded⟩ := Stage.Embeds.embedded reads
  obtain ⟨first, final, starts, ends, place⟩ := embedded.ends
  have rest : before.rest = name :: colon :: taken ++ last.rest := by
    rw [passes.1, toNext.1, rest]
    rfl
  obtain ⟨front, whole⟩ := within
  have split : tokens = (front ++ [name, colon]) ++ taken ++ last.rest := by
    rw [← whole, rest]
    simp
  have inType : written.span.tokens tokens = taken := by
    rw [split] at ordered ⊢
    rw [place]
    exact ordered.tokens_cover starts ends
  have same : last.rest = after.rest := by
    obtain ⟨_, _, rfl⟩ := defines
    rfl
  rw [inType] at pairs
  exact ⟨name :: colon :: taken, same ▸ rest, pairsParens_argument isName isColon pairs⟩

/-- So have the tokens of all further arguments. -/
theorem pairs_furtherArguments (ordered : Lexer.Ordered 0 tokens)
    {args : List BlockArgument}
    (reads : TailReads (Grammar.blockArgument.Reads region) source before args after)
    (within : before.rest <:+ tokens)
    (pairs : ∀ arg ∈ args, pairsParens 0 (arg.type.span.tokens tokens) = true) :
    ∃ taken, before.rest = taken ++ after.rest ∧ pairsParens 0 taken = true := by
  induction reads with
  | nil => exact ⟨[], rfl, rfl⟩
  | cons comma first _ ih =>
    obtain ⟨pairsFirst, pairsOthers⟩ := List.forall_mem_cons.1 pairs
    obtain ⟨separator, isComma, passes⟩ := Stage.passes_of_atPunct comma
    have inside := passes.leads.suffix.trans within
    obtain ⟨taken, rest, paired⟩ := pairs_blockArgument ordered first inside pairsFirst
    obtain ⟨more, others, pairedOthers⟩ :=
      ih (List.IsSuffix.trans ⟨taken, rest.symm⟩ inside) pairsOthers
    refine ⟨separator :: (taken ++ more), by
      rw [passes.1, rest, others, List.cons_append, List.append_assoc], ?_⟩
    rw [pairsParens_cons fun mark member => ?_]
    · exact pairsParens_append paired pairedOthers
    · refine Reader.isPunct_of_ne isComma ?_
      rintro rfl
      simp at member

/-- Whatever comes behind it, a header is recognised if the types in it have no braces and their
parentheses in pairs. -/
theorem startsBlock_of_reads (ordered : Lexer.Ordered 0 tokens) {draft : BlockDraft}
    (reads : BlockHeaderReads region source before draft after) (within : before.rest <:+ tokens)
    (pairs : ∀ arg ∈ draft.args, pairsParens 0 (arg.type.span.tokens tokens) = true) :
    ∃ taken, before.rest = taken ++ after.rest ∧ ∀ tail, Cursor.startsBlock (taken ++ tail) =
      true := by
  obtain ⟨⟨defined, args⟩, reads, rfl⟩ := reads
  obtain ⟨behind, ⟨middle, ⟨label, start, ⟨isLabel, passes⟩, defines⟩, arguments⟩,
      last, isLast, ends⟩ :=
    Grammar.reads_followedBy.1 reads
  have toMiddle : before.rest = label :: middle.rest := by
    obtain ⟨_, _, rfl⟩ := defines
    exact passes.1
  obtain ⟨given, arguments, rfl⟩ := arguments
  unfold Grammar.Reads at arguments
  split at arguments
  · obtain ⟨⟨head, others⟩, arguments, rfl⟩ := arguments
    obtain ⟨pairsHead, pairsOthers⟩ := List.forall_mem_cons.1 pairs
    obtain ⟨inside, ⟨opening, isOpening, opens⟩, arguments⟩ := Grammar.reads_before.1 arguments
    obtain ⟨closed, ⟨next, first, further⟩, closing, isClosing, closes⟩ :=
      Grammar.reads_followedBy.1 arguments
    have toInside : before.rest = [label, opening] ++ inside.rest := by
      rw [toMiddle, opens.1]
      rfl
    have withinInside := List.IsSuffix.trans ⟨_, toInside.symm⟩ within
    obtain ⟨taken, rest, paired⟩ := pairs_blockArgument ordered first withinInside pairsHead
    obtain ⟨more, rests, pairedOthers⟩ :=
      pairs_furtherArguments ordered further (List.IsSuffix.trans ⟨taken, rest.symm⟩ withinInside)
      pairsOthers
    refine ⟨label :: opening :: (taken ++ more ++ [closing, last]), ?_, fun tail => ?_⟩
    · rw [toInside, rest, rests, closes.1, ends.1]
      simp
    · have starts :=
        startsBlock_of_pairs isLabel isOpening (pairsParens_append paired pairedOthers) isClosing
        isLast tail
      simpa using starts
  · obtain ⟨rfl, rfl⟩ := arguments
    refine ⟨[label, last], by rw [toMiddle, ends.1]; rfl, fun tail => ?_⟩
    change (label.kind == .label && (last.isPunct .colon || _)) = true
    rw [isLabel, isLast]
    rfl

end Parser

end CirText
