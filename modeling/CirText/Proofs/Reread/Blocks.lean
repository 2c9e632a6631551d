import CirText.Proofs.Reread.Regions

/-!
# Reading blocks again

The header of a block is told from a label when it is read again, since the parentheses behind the
label are closed in front of a colon as they were. So the blocks of a region are read again one by
one, and by induction on their depth regions are.
-/

namespace CirText

open CirText.Parser CirText.Cursor

variable {source : String} {printed : List Char}
  {region : RegionKind → Bool → Meaning (Region Operation)} {before after : Stage}
  {tokens beyond : List Token}

/-! ## Headers -/

namespace Grammar

/-- The arguments of a block behind the opening parenthesis, up to the colon. -/
def blockArgumentsEnd {R : Type} : Grammar R ((BlockArgument × List BlockArgument) × Unit) :=
  seq (followedBy (separated blockArgument) (punct .rightParen)) (punct .colon)

theorem blockArgumentsEnd_lawful {R : Type} : (blockArgumentsEnd (R := R)).Lawful :=
  ⟨⟨⟨trivial, trivial, trivial, trivial⟩, trivial⟩, trivial⟩

/-- The header of a block is a label with a colon, or with arguments in parentheses. -/
theorem reads_blockHeader {text : List Char} {header : Definition × List BlockArgument}
    (reads : blockHeader.Reads region text before header after) :
    ∃ label middle, header.1.kind = .label ∧ label.kind = .label ∧
      before.rest = label :: Stage.rest middle ∧
      (header.2 = [] ∨
        ∃ found opening inside, header.2 = found.1 :: found.2 ∧ opening.isPunct .leftParen = true ∧
          middle.rest = opening :: Stage.rest inside ∧
          blockArgumentsEnd.Reads region text inside (found, ()) after) := by
  obtain ⟨⟨⟨defined, args⟩, _⟩, ⟨behind, ⟨middle, defines, arguments⟩, colon⟩, rfl⟩ := reads
  obtain ⟨label, start, ⟨isLabel, passes⟩, defines⟩ := defines
  have kind : defined.kind = .label := by
    obtain ⟨_, rfl, _⟩ := defines
    rfl
  have rest : start.rest = middle.rest := by
    obtain ⟨_, _, rfl⟩ := defines
    rfl
  refine ⟨label, middle, kind, isLabel, rest ▸ passes.1, ?_⟩
  obtain ⟨given, arguments, rfl⟩ := arguments
  unfold Reads at arguments
  split at arguments
  · obtain ⟨found, arguments, rfl⟩ := arguments
    obtain ⟨inside, ⟨opening, isOpening, opens⟩, rest⟩ := reads_before.1 arguments
    exact .inr ⟨found, opening, inside, rfl, isOpening, opens.1, behind, rest, colon⟩
  · obtain ⟨rfl, rfl⟩ := arguments
    exact .inl rfl

/-- What is met as the header of a block is met as one where it is read again. -/
theorem startsBlock_again (clean : (tokenize source).errors = [])
    (regions : RegionsRecur source printed region) {header : Definition × List BlockArgument}
    (reads : blockHeader.Reads region source.toList before header after)
    (within : before.rest <:+ (tokenize source).tokens) (starts : startsBlock before.rest = true)
    (isSpelled : Spelled printed (fun inner => Spelled printed noRegion (Region.allLeaves inner))
      (blockHeader.pieces header) tokens)
    (kindred : Kindred after.rest beyond) : startsBlock (tokens ++ beyond) = true := by
  obtain ⟨label, middle, isLabel, _, rest, arguments⟩ := reads_blockHeader reads
  obtain ⟨defined, args⟩ := header
  rw [rest] at starts within
  rcases arguments with rfl | ⟨found, opening, inside, rfl, isOpening, opens, reads⟩
  · obtain ⟨_, _, rfl, ⟨twin, rfl, twinKind, _⟩, isSpelled⟩ := isSpelled
    obtain ⟨colon, _, rfl, isColon, rfl⟩ := Spelled.punct_cons isSpelled
    have twinLabel : twin.kind = .label := by
      rw [twinKind, isLabel]
      rfl
    simp [startsBlock, twinLabel, isColon]
  · obtain ⟨_, _, rfl, ⟨twin, rfl, twinKind, _⟩, isSpelled⟩ := isSpelled
    obtain ⟨twinOpening, later, rfl, isTwin, isSpelled⟩ := Spelled.punct_cons isSpelled
    have twinLabel : twin.kind = .label := by
      rw [twinKind, isLabel]
      rfl
    obtain ⟨ahead, _⟩ := (regions.recurring clean blockArgumentsEnd_lawful rfl rfl).again reads
      (List.IsSuffix.trans ⟨[label, opening], by rw [opens]; rfl⟩ within)
      (by simpa [blockArgumentsEnd] using isSpelled) kindred (List.forall_mem_nil _)
    have noColon : opening.isPunct .colon = false := by
      simp [Token.isPunct, beq_iff_eq.1 isOpening]
    rw [opens, startsBlock, noColon, isOpening] at starts
    simp only [Bool.false_or, Bool.true_and, Bool.and_eq_true] at starts
    have closes : closesBeforeColon 1 (later ++ beyond) = true := (ahead.closes 0).trans starts.2
    have split : [twin] ++ twinOpening :: later ++ beyond =
        twin :: twinOpening :: (later ++ beyond) := rfl
    rw [split, startsBlock, twinLabel, isTwin, closes]
    simp

end Grammar

namespace Parser

/-- The header of a block is read again. -/
theorem blockHeader_again (clean : (tokenize source).errors = [])
    (regions : RegionsRecur source printed region) {draft : BlockDraft}
    (reads : BlockHeaderReads region source.toList before draft after)
    (within : before.rest <:+ (tokenize source).tokens) (starts : startsBlock before.rest = true)
    (isSpelled : Spelled printed noRegion draft.close.allLeaves tokens)
    (kindred : Kindred after.rest beyond) :
    Kindred before.rest (tokens ++ beyond) ∧ startsBlock (tokens ++ beyond) = true ∧
      (BlockHeaderReads region).ReadsAgain printed BlockDraft.Matches before draft after tokens
        beyond := by
  obtain ⟨header, reads, rfl⟩ := reads
  have pieces := Grammar.leaves_blockHeader Region.allLeaves header
  rw [Grammar.leaves] at pieces
  simp only [Block.allLeaves, BlockDraft.close, Block.headerLeaves, List.reverse_nil,
    List.flatMap_nil, List.append_nil, ← pieces] at isSpelled
  have isSpelled := (Spelled.blank_cons_iff.1 isSpelled).flatten
  have again := Grammar.startsBlock_again clean regions reads within starts isSpelled kindred
  obtain ⟨ahead, readsAgain⟩ := (regions.recurring clean Grammar.blockHeader_lawful
    Grammar.blockHeader_steady Grammar.blockHeader_foreseen).again reads within isSpelled kindred
      (List.forall_mem_nil _)
  refine ⟨ahead, again, fun other rest similar => ?_⟩
  obtain ⟨twin, last, reads, lastRest, similar, same⟩ := readsAgain other rest similar
  have unplaced := Grammar.Erases.eq_of_same same
  refine ⟨_, last, ⟨twin, reads, rfl⟩, lastRest, similar, ?_, ?_, .nil⟩
  · exact congrArg (fun header => some header.1) unplaced
  · exact congrArg Prod.snd unplaced

/-! ## What comes next -/

theorem behindOperation_of_kind {cursor : Cursor}
    (known : cursor.peek.kind ∈ [TokenKind.value, .keyword, .label, .punct .rightBrace,
      .endOfInput]) : cursor.BehindOperation := by
  simp only [List.mem_cons, List.not_mem_nil, or_false] at known
  rcases known with same | same | same | same | same
  · exact ⟨.kind .value, by simp [Grammar.behindOperation], Guard.holds_of_class same⟩
  · exact ⟨.kind .keyword, by simp [Grammar.behindOperation], Guard.holds_of_class same⟩
  · exact ⟨.kind .label, by simp [Grammar.behindOperation], Guard.holds_of_class same⟩
  · exact ⟨.punct .rightBrace, by simp [Grammar.behindOperation], beq_iff_eq.2 same⟩
  · exact ⟨.kind .endOfInput, by simp [Grammar.behindOperation], Guard.holds_of_class same⟩

/-- The class of the next token is the same where parsing goes on alike. -/
theorem peek_kind_congr {cursor other : Cursor} (same : face other.rest = face cursor.rest) :
    other.peek.kind = cursor.peek.kind := by
  rw [← peek_face, ← peek_face] at same
  exact congrArg Prod.fst same

/-- An operation starts with the name of a result or with a keyword. -/
theorem OperationReads.starts {text : List Char} {op : Operation}
    (reads : OperationReads region text before op after) :
    before.cursor.peek.kind = .value ∨ before.cursor.peek.kind = .keyword := by
  obtain ⟨names, middle, named, _, _, ⟨keyword, _, _, _, ⟨isKeyword, passes⟩, _⟩, _⟩ := reads
  unfold ResultNamesRead at named
  split at named
  · rename_i isValue
    exact .inl (beq_iff_eq.1 isValue)
  · obtain ⟨_, rfl⟩ := named
    rw [Grammar.peek_of_passes passes]
    exact .inr isKeyword

theorem OperationReads.behindOperation {text : List Char} {op : Operation}
    (reads : OperationReads region text before op after) : before.cursor.BehindOperation := by
  apply behindOperation_of_kind
  rcases reads.starts with isValue | isKeyword
  · simp [isValue]
  · simp [isKeyword]

theorem startsBlock_kind {cursor : Cursor} (starts : startsBlock cursor.rest = true) :
    cursor.peek.kind = .label := by
  obtain ⟨_ | ⟨label, _ | ⟨next, rest⟩⟩, position, last, size⟩ := cursor
  · cases starts
  · cases starts
  · rw [startsBlock, Bool.and_eq_true] at starts
    exact beq_iff_eq.1 starts.1

theorem OperationReads.not_startsBlock {text : List Char} {op : Operation}
    (reads : OperationReads region text before op after) : startsBlock before.rest = false := by
  by_contra starts
  have isLabel := startsBlock_kind (Bool.eq_true_of_not_eq_false starts)
  rcases reads.starts with kind | kind <;> rw [isLabel] at kind <;> cases kind

/-- Where tokens are consumed, it is not the end of input. -/
theorem not_atEnd_of_shorter {stage last : Stage} (shorter : last.rest.length < stage.rest.length) :
    stage.cursor.atEnd = false := by
  rw [Cursor.atEnd]
  cases given : stage.cursor.rest with
  | nil =>
    have none : stage.rest.length = 0 := congrArg List.length given
    omega
  | cons token rest => rfl

/-! ## Blocks -/

/-- Whether the blocks of a region are read again, given what has been read so far: the tokens of
what is still to be read start in the same way, and the same is read of them. -/
def BlocksAgain (printed : List Char) (region : RegionKind → Bool → Meaning (Region Operation))
    (kind : RegionKind) (progress : Progress) (before : Stage)
    (found : List (Block Operation) × Span) (after : Stage) : Prop :=
  before.cursor.BehindOperation ∧ ∃ more,
    found.1.flatMap Block.allLeaves = progress.leaves ++ more ∧
      ∀ {tokens beyond}, Spelled printed noRegion (more ++ [.blank, .punct .rightBrace]) tokens →
        Kindred before.rest (tokens ++ beyond) ∧ ∀ again, progress.Matches again →
          Meaning.ReadsAgain (fun text => BlocksRead region kind text again) printed
            (fun a b => List.Forall₂ Block.Matches a.1 b.1) before found after tokens beyond

namespace BlocksAgain

variable {kind : RegionKind} {progress : Progress} {found : List (Block Operation) × Span}
  {middle : Stage}

theorem close (here : before.cursor.atPunct .rightBrace = true) :
    BlocksAgain printed region kind progress before (progress.blocks, before.cursor.peek.span)
      before.next := by
  have closing : before.cursor.peek.kind = .punct .rightBrace := beq_iff_eq.1 here
  refine ⟨behindOperation_of_kind (by simp [closing]), [], (List.append_nil _).symm, ?_⟩
  intro tokens beyond isSpelled
  obtain ⟨twin, _, rfl, isTwin, rfl⟩ := Spelled.punct_cons (Spelled.blank_cons_iff.1 isSpelled)
  refine ⟨.brace (.inr rfl) ((Stage.atPunct_eq _ _).symm.trans here) isTwin, ?_⟩
  intro again same other rest similar
  obtain ⟨_, next⟩ := Stage.passes_of_rest rest
  exact ⟨(again.blocks, other.cursor.peek.span), other.next,
    .close ((Stage.atPunct_of_rest rest).trans isTwin), next, similar.next, same.blocks⟩

theorem header (clean : (tokenize source).errors = [])
    (regions : RegionsRecur source printed region)
    (within : before.rest <:+ (tokenize source).tokens)
    (inside : before.cursor.atPunct .rightBrace = false) (starts : startsBlock before.rest = true)
    {draft : BlockDraft} (first : BlockHeaderReads region source.toList before draft middle)
    (rest : BlocksAgain printed region kind (progress.nextLabeled draft) middle found after) :
    BlocksAgain printed region kind progress before found after := by
  obtain ⟨parser, means⟩ := id regions.means
  obtain ⟨_, leaves, split, again⟩ := rest
  refine ⟨behindOperation_of_kind (by simp [startsBlock_kind starts]),
    draft.close.allLeaves ++ leaves, ?_, ?_⟩
  · rw [split, Progress.leaves_nextLabeled, List.append_assoc]
  · intro tokens beyond isSpelled
    rw [List.append_assoc] at isSpelled
    obtain ⟨here, later, rfl, isHeader, isRest⟩ := Spelled.append_iff.1 isSpelled
    obtain ⟨onward, restAgain⟩ := @again later beyond isRest
    obtain ⟨ahead, isBlock, headerAgain⟩ :=
      blockHeader_again clean regions first within starts isHeader onward
    rw [List.append_assoc]
    refine ⟨ahead, fun twin same other rest similar => ?_⟩
    rw [List.append_assoc] at rest
    have goesOn : Kindred before.rest other.rest := rest ▸ ahead
    obtain ⟨draftAgain, between, readsHeader, betweenRest, similar, started⟩ :=
      headerAgain other rest similar
    obtain ⟨foundAgain, last, readsRest, lastRest, similar, blocks⟩ :=
      restAgain _ (same.nextLabeled started) between betweenRest similar
    refine ⟨foundAgain, last, .header ?_ ?_ ?_ readsHeader readsRest, lastRest, similar, blocks⟩
    · exact (Guard.holds_congr (.punct .rightBrace) rfl goesOn.face).trans inside
    · exact not_atEnd_of_shorter (Means.progresses_blockHeader means _ _ _ _ readsHeader)
    · rw [rest]
      exact isBlock

theorem operation (clean : (tokenize source).errors = [])
    (regions : RegionsRecur source printed region)
    (within : before.rest <:+ (tokenize source).tokens)
    (inside : before.cursor.atPunct .rightBrace = false) {op : Operation}
    (first : OperationReads region source.toList before op middle)
    (admits : progress.Admits kind op)
    (rest : BlocksAgain printed region kind (progress.push op) middle found after) :
    BlocksAgain printed region kind progress before found after := by
  obtain ⟨parser, means⟩ := id regions.means
  obtain ⟨behind, leaves, split, again⟩ := rest
  refine ⟨first.behindOperation, .blank :: op.leaves ++ leaves, ?_, ?_⟩
  · rw [split, (progress.push_spec op).1, List.append_assoc]
  · intro tokens beyond isSpelled
    rw [List.append_assoc] at isSpelled
    obtain ⟨here, later, rfl, isOperation, isRest⟩ := Spelled.append_iff.1 isSpelled
    obtain ⟨onward, restAgain⟩ := @again later beyond isRest
    obtain ⟨ahead, operationAgain⟩ := operation_again clean regions first within
      (Spelled.blank_cons_iff.1 isOperation) onward behind
    rw [List.append_assoc]
    refine ⟨ahead, fun twin same other rest similar => ?_⟩
    rw [List.append_assoc] at rest
    have goesOn : Kindred before.rest other.rest := rest ▸ ahead
    obtain ⟨opAgain, between, readsOperation, betweenRest, similar, added⟩ :=
      operationAgain other rest similar
    obtain ⟨foundAgain, last, readsRest, lastRest, similar, blocks⟩ :=
      restAgain _ (same.push added) between betweenRest similar
    refine ⟨foundAgain, last, .operation ?_ ?_ ?_ readsOperation (same.admits added admits)
      readsRest, lastRest, similar, blocks⟩
    · exact (Guard.holds_congr (.punct .rightBrace) rfl goesOn.face).trans inside
    · exact not_atEnd_of_shorter (Means.progresses_operation means _ _ _ _ readsOperation)
    · exact readsOperation.not_startsBlock

end BlocksAgain

/-- The blocks of a region are read again, given what has been read so far. -/
theorem blocks_again (clean : (tokenize source).errors = [])
    (regions : RegionsRecur source printed region) {kind : RegionKind} {progress : Progress}
    {found : List (Block Operation) × Span}
    (reads : BlocksRead region kind source.toList progress before found after)
    (within : before.rest <:+ (tokenize source).tokens) :
    BlocksAgain printed region kind progress before found after := by
  obtain ⟨parser, means⟩ := id regions.means
  induction reads with
  | close here => exact .close here
  | header inside _ starts first _ ih =>
    obtain ⟨taken, toMiddle⟩ := (Means.blockHeader means).leads _ _ _ _ first
    exact .header clean regions within inside starts first
      (ih (List.IsSuffix.trans ⟨taken, toMiddle.symm⟩ within))
  | operation inside _ _ first admits _ ih =>
    obtain ⟨taken, toMiddle⟩ := (Means.operation means).leads _ _ _ _ first
    exact .operation clean regions within inside first admits
      (ih (List.IsSuffix.trans ⟨taken, toMiddle.symm⟩ within))

/-! ## Regions -/

/-- A region is read again if the regions inside it are. -/
theorem region_again (clean : (tokenize source).errors = [])
    (regions : RegionsRecur source printed region) (kind : RegionKind) (implicitTerminator : Bool) :
    Recurs source printed (RegionReads region kind implicitTerminator)
      (fun inner => Spelled printed noRegion inner.allLeaves) (fun a b => a.outline = b.outline)
      [] := by
  rintro before after _ tokens beyond ⟨opening, middle, ⟨isOpening, passes⟩, found, blocks,
    terminated, rfl⟩ within isSpelled _ _
  obtain ⟨_, more, leaves, again⟩ := blocks_again clean regions blocks
    (List.IsSuffix.trans ⟨[opening], passes.1.symm⟩ within)
  rw [Progress.leaves_eq, BlockDraft.allLeaves_of_isEmpty rfl] at leaves
  rw [Region.allLeaves_eq, leaves] at isSpelled
  obtain ⟨twin, later, rfl, isTwin, isInside⟩ := Spelled.punct_cons isSpelled
  obtain ⟨_, blocksAgain⟩ := @again later beyond isInside
  refine ⟨.brace (.inl rfl) ?_ isTwin, fun other rest similar => ?_⟩
  · rw [passes.1]
    exact isOpening
  · obtain ⟨passesTwin, next⟩ := Stage.passes_of_rest rest
    have similar : middle.Similar other.next := passes.2 ▸ similar.next
    obtain ⟨foundAgain, last, readsAgain, lastRest, similarLast, same⟩ := blocksAgain
      { current := .startingAt other.next.cursor.peek.span.start } ⟨.nil, .start _ _⟩
      other.next next
      similar
    refine ⟨_, last, ⟨twin, other.next, ⟨isTwin, passesTwin⟩, foundAgain, readsAgain,
      terminated.of_matches same, rfl⟩, lastRest, similarLast, Region.outline_eq rfl ?_ same⟩
    exact (congrArg Tracker.scope similar.tracker).symm

/-- Regions are read again, however deep regions nest in them. -/
theorem regionWithin_again (clean : (tokenize source).errors = []) (levels : Nat) :
    RegionsRecur source printed (RegionWithinReads levels) := by
  induction levels with
  | zero =>
    refine ⟨⟨_, Means.regionWithin 0⟩, ?_, ?_, ?_⟩
    · intro kind implicitTerminator text before after inner reads
      cases reads
    · intro kind implicitTerminator before after inner reads
      cases reads
    · intro kind implicitTerminator before after inner tokens beyond reads
      cases reads
  | succ levels ih =>
    refine ⟨⟨_, Means.regionWithin (levels + 1)⟩, ?_, ?_, fun kind implicitTerminator =>
      region_again clean ih kind implicitTerminator⟩
    · rintro kind implicitTerminator text before after inner
        ⟨opening, middle, ⟨isOpening, passes⟩, _⟩
      rw [Cursor.atPunct, Grammar.peek_of_passes passes]
      exact isOpening
    · intro kind implicitTerminator before after inner reads
      exact regionWithin_passage (levels + 1) kind implicitTerminator reads

end Parser

end CirText
