import CirText.Proofs.Grammar.Relocation
import CirText.Proofs.Operation.Boundaries
import CirText.Proofs.Operation.Silent

/-!
# Operations and regions elsewhere in another text

Where another text goes on in the same way, the same operations are read of it, and the same blocks
and regions, but for their places.
-/

namespace CirText

open CirText.Parser

/-! ## Places where parsing can go on -/

namespace Cursor

theorem startsResults_move (origin target : Nat) :
    ∀ tokens : List Token, startsResults (tokens.map (.move origin target)) = startsResults tokens
  | [] | [_] => rfl
  | name :: separator :: rest =>
    congrArg (fun further => name.kind == .value &&
      (separator.isPunct .equal || separator.isPunct .comma && further))
      (startsResults_move origin target rest)

theorem closesBeforeColon_move (origin target depth : Nat) (tokens : List Token) :
    closesBeforeColon depth (tokens.map (.move origin target)) =
      closesBeforeColon depth tokens := by
  induction tokens generalizing depth with
  | nil => rfl
  | cons token rest ih =>
    have next : (rest.map (Token.move origin target)).head?.any (·.isPunct .colon) =
        rest.head?.any (·.isPunct .colon) := by
      cases rest <;> rfl
    simp only [List.map_cons, closesBeforeColon, ih, next]
    rfl

theorem startsBlock_move (origin target : Nat) (tokens : List Token) :
    startsBlock (tokens.map (.move origin target)) = startsBlock tokens := by
  match tokens with
  | [] | [_] => rfl
  | label :: next :: rest =>
    simp only [List.map_cons, startsBlock, closesBeforeColon_move]
    rfl

theorem startsUnit_move (origin target : Nat) (tokens : List Token) :
    startsUnit (tokens.map (.move origin target)) = startsUnit tokens := by
  rw [startsUnit, startsResults_move, startsBlock_move, startsUnit]
  cases tokens <;> rfl

theorem fromBoundary_move (origin target depth : Nat) (tokens : List Token) :
    fromBoundary depth (tokens.map (.move origin target)) =
      (fromBoundary depth tokens).map (.move origin target) := by
  induction tokens generalizing depth with
  | nil => rfl
  | cons token rest ih =>
    have starts := startsUnit_move origin target (token :: rest)
    rw [List.map_cons] at starts
    simp only [List.map_cons, fromBoundary, starts, ih,
      apply_ite (List.map (Token.move origin target))]
    cases depth <;> rfl

/-- Where parsing goes on, it does so elsewhere as well. -/
theorem Resumes.move {tokens : List Token} (resumes : Resumes tokens) (origin target : Nat) :
    Resumes (tokens.map (.move origin target)) := by
  rw [Resumes, fromBoundary_move, resumes]

end Cursor

namespace Relocation

variable {texts : Relocation} {region : RegionKind → Bool → Meaning (Region Operation)}
    {before after twin : Stage}

namespace Follows

theorem peekAt_eq (follows : texts.Follows before twin) (count : Nat) :
    (twin.cursor.peekAt count).kind = (before.cursor.peekAt count).kind ∧
      (twin.cursor.peekAt count).text = (before.cursor.peekAt count).text := by
  rw [Cursor.peekAt, Cursor.peekAt, show twin.cursor.rest = _ from follows.rest,
    show before.cursor.rest = before.rest from rfl, List.getD_eq_getElem?_getD,
    List.getD_eq_getElem?_getD,
    List.getElem?_map]
  cases before.rest[count]? <;> exact ⟨rfl, rfl⟩

/-- The same form is chosen. -/
theorem choose_eq (follows : texts.Follows before twin) (opcode : Opcode) :
    Form.choose opcode twin.cursor = Form.choose opcode before.cursor := by
  have kind := follows.peek_eq.1
  have marks : ∀ mark, twin.cursor.peek.isPunct mark = before.cursor.peek.isPunct mark :=
    follows.atPunct_eq
  have words : ∀ text, twin.cursor.peek.isWord text = before.cursor.peek.isWord text :=
    follows.atWord_eq
  have isAlias : twin.cursor.peek.isAttributeAlias (twin.cursor.peekAt 1) =
      before.cursor.peek.isAttributeAlias (before.cursor.peekAt 1) := follows.atAttributeAlias_eq
  obtain ⟨kindBehind, textBehind⟩ := follows.peekAt_eq 1
  have marksBehind : ∀ mark, (twin.cursor.peekAt 1).isPunct mark =
      (before.cursor.peekAt 1).isPunct mark := by
    intro mark
    rw [Token.isPunct, Token.isPunct, kindBehind]
  have wordsBehind : ∀ text, (twin.cursor.peekAt 1).isWord text =
      (before.cursor.peekAt 1).isWord text := by
    intro text
    rw [Token.isWord, Token.isWord, kindBehind, textBehind]
  rw [Form.choose, Form.choose]
  cases Form.ruleOf opcode <;>
    simp only [Form.Rule.choose, kind, marks, words, isAlias, marksBehind, wordsBehind]

theorem startsBlock_eq (follows : texts.Follows before twin) :
    Cursor.startsBlock twin.rest = Cursor.startsBlock before.rest := by
  rw [follows.rest]
  exact Cursor.startsBlock_move texts.origin texts.target before.rest

/-- The same names are defined. -/
theorem definesAll (follows : texts.Follows before twin) {names twins : List Token}
    {results : List Definition}
    (defines : DefinesAll names before results after)
    (same : List.Forall₂ (fun name twin => twin.name = name.name) names twins) :
    ∃ others last, DefinesAll twins twin others last ∧ results.map Definition.unplaced =
      others.map Definition.unplaced ∧
      texts.Follows after last := by
  induction same generalizing before twin results with
  | nil =>
    obtain ⟨rfl, rfl⟩ := defines
    exact ⟨[], twin, ⟨rfl, rfl⟩, rfl, follows⟩
  | cons name _ ih =>
    obtain ⟨defined, middle, first, results, rest, rfl⟩ := defines
    obtain ⟨b, between, again, same, midway⟩ := follows.defines first name
    obtain ⟨others, last, restAgain, sameRest, done⟩ := ih midway rest
    refine ⟨b :: others, last, ⟨b, between, again, others, restAgain, rfl⟩, ?_, done⟩
    rw [List.map_cons, List.map_cons, same, sameRest]

end Follows

/-! ## Operations -/

/-- The same names are read in front of an equals sign. -/
theorem carries_resultNames :
    texts.Carries ResultNamesRead (List.Forall₂ fun name twin => twin.name = name.name) := by
  intro before after twin names reads follows
  have isValue : twin.cursor.atKind .value = before.cursor.atKind .value :=
    follows.holds_eq (.kind .value)
  unfold ResultNamesRead at reads ⊢
  rw [isValue]
  split at reads
  · rename_i here
    obtain ⟨found, middle, named, equal, ⟨isEqual, passes⟩, rfl⟩ := reads
    have name : texts.Carries (fun _ before name after => name.kind = .value ∧
        before.Passes name after)
        fun name twin => twin.name = name.name := by
      rintro before after twin found ⟨isValue, passes⟩ follows
      obtain ⟨again, done⟩ := follows.passes passes
      exact ⟨texts.moved found, _, ⟨isValue, again⟩, rfl, done⟩
    obtain ⟨twins, between, namedAgain, ⟨first, others⟩, midway⟩ :=
      Carries.separated name named follows
    obtain ⟨passesAgain, done⟩ := midway.passes passes
    simp only [if_pos here]
    exact ⟨_, _, ⟨twins, between, namedAgain, texts.moved equal, ⟨isEqual, passesAgain⟩, rfl⟩,
      .cons first others, done⟩
  · rename_i absent
    obtain ⟨rfl, rfl⟩ := reads
    simp only [if_neg absent]
    exact ⟨[], twin, ⟨rfl, rfl⟩, .nil, follows⟩

section Regions

variable (regions : ∀ kind implicitTerminator,
  texts.Carries (region kind implicitTerminator) fun a b => a.outline = b.outline)

include regions

theorem carries_fromKeyword : texts.Carries (FromKeywordReads region) SameFromKeyword := by
  rintro before after twin _ ⟨keyword, middle, opcode, form, ⟨isKeyword, passes⟩, known, chosen, b,
    reads, rfl⟩ follows
  obtain ⟨passesAgain, midway⟩ := follows.passes passes
  let numbered : Stage := { twin.next with nextId := twin.next.nextId + 1 }
  have inside : texts.Follows { middle with nextId := middle.nextId + 1 } numbered :=
    ⟨midway.rest, midway.within, midway.similar.tracker, congrArg (· + 1) midway.similar.nextId⟩
  obtain ⟨again, last, readsAgain, same, done⟩ :=
    carries_grammar regions (Grammar.body opcode form) (Grammar.body_stable opcode form)
    reads inside
  refine ⟨(twin.next.nextId, again.form form, again), last,
    ⟨texts.moved keyword, twin.next, opcode, form, ⟨isKeyword, passesAgain⟩, known,
    (midway.choose_eq opcode).trans chosen, again, readsAgain, rfl⟩,
    .of_same midway.similar.nextId.symm reads.builds same, done⟩

theorem carries_operation : texts.Carries (OperationReads region) Operation.Matches := by
  rintro before after twin _ ⟨names, start, named, found, middle, keyword, results,
    defines, rfl⟩ follows
  obtain ⟨twins, begun, namedAgain, sameNames, ahead⟩ := carries_resultNames named follows
  obtain ⟨again, between, keywordAgain, same, midway⟩ := carries_fromKeyword regions keyword ahead
  obtain ⟨others, last, definesAgain, sameResults, done⟩ := midway.definesAll defines sameNames
  exact ⟨_, last,
    ⟨twins, begun, namedAgain, again, between, keywordAgain, others, definesAgain, rfl⟩,
    same.matches keyword.builds keywordAgain.builds sameResults _ _, done⟩

/-! ## Regions -/

theorem carries_blockHeader : texts.Carries (BlockHeaderReads region) BlockDraft.Matches := by
  rintro before after twin _ ⟨header, reads, rfl⟩ follows
  obtain ⟨again, last, readsAgain, same, done⟩ :=
    carries_grammar regions Grammar.blockHeader Grammar.blockHeader_stable reads follows
  have unplaced := Grammar.Erases.eq_of_same same
  refine ⟨_, last, ⟨again, readsAgain, rfl⟩, ⟨?_, congrArg Prod.snd unplaced, .nil⟩, done⟩
  exact congrArg (fun header => some header.1) unplaced

/-- If the same has been read of a region so far but for its places, its blocks are the same but for
their places, and so are the operations that are read of them from here on. -/
theorem carries_blocks {kind : RegionKind} {progress again : Progress}
    {found : List (Block Operation) × Span}
    (reads : BlocksRead region kind texts.source progress before found after)
    (same : progress.Matches again)
    (follows : texts.Follows before twin) :
    ∃ result last, BlocksRead region kind texts.other again twin result last ∧
      List.Forall₂ Block.Matches found.1 result.1 ∧ texts.Follows after last ∧
        ∃ more others, List.Forall₂ Operation.Matches more others ∧
          found.1.flatMap (·.ops) = progressOps progress ++ more ∧
            result.1.flatMap (·.ops) = progressOps again ++ others := by
  induction reads generalizing again twin with
  | close here =>
    exact ⟨_, twin.next, .close ((follows.atPunct_eq .rightBrace).trans here), same.blocks,
      follows.next, [], [], .nil,
      (List.append_nil _).symm, (List.append_nil _).symm⟩
  | @header progress before middle after draft found inside more starts first _ ih =>
    obtain ⟨draftAgain, between, firstAgain, sameDraft, midway⟩ :=
      carries_blockHeader regions first follows
    obtain ⟨result, last, rest, blocks, done, further, others, sameOps, ops, opsAgain⟩ :=
      ih (same.nextLabeled sameDraft) midway
    refine ⟨result, last, .header ((follows.atPunct_eq .rightBrace).trans inside)
      (follows.atEnd_eq.trans more)
      (follows.startsBlock_eq.trans starts) firstAgain rest, blocks, done, further, others,
      sameOps, ?_, ?_⟩
    · rw [ops, progressOps_nextLabeled first.start_eq.1]
    · rw [opsAgain, progressOps_nextLabeled firstAgain.start_eq.1]
  | @operation progress before middle after op found inside more starts first admits _ ih =>
    obtain ⟨twinOp, between, firstAgain, sameOp, midway⟩ := carries_operation regions first follows
    obtain ⟨result, last, rest, blocks, done, further, others, sameOps, ops, opsAgain⟩ :=
      ih (same.push sameOp) midway
    refine ⟨result, last, .operation ((follows.atPunct_eq .rightBrace).trans inside)
      (follows.atEnd_eq.trans more)
      (follows.startsBlock_eq.trans starts) firstAgain (same.admits sameOp admits) rest, blocks,
      done, op :: further,
      twinOp :: others, .cons sameOp sameOps, ?_, ?_⟩
    · rw [ops, progressOps_push, List.append_assoc, List.singleton_append]
    · rw [opsAgain, progressOps_push, List.append_assoc, List.singleton_append]

theorem carries_region (kind : RegionKind) (implicitTerminator : Bool) :
    texts.Carries (RegionReads region kind implicitTerminator) fun a b => a.outline =
      b.outline := by
  rintro before after twin _ ⟨opening, middle, ⟨isOpening, passes⟩, found, reads,
    terminated, rfl⟩ follows
  obtain ⟨passesAgain, midway⟩ := follows.passes passes
  have start : Progress.Matches { current := .startingAt middle.cursor.peek.span.start }
      { current := .startingAt twin.next.cursor.peek.span.start } := ⟨.nil, .start _ _⟩
  obtain ⟨result, last, readsAgain, blocks, done, _⟩ := carries_blocks regions reads start midway
  refine ⟨_, last, ⟨texts.moved opening, twin.next, ⟨isOpening, passesAgain⟩, result, readsAgain,
    terminated.of_matches blocks, rfl⟩,
    Region.outline_eq rfl ?_ blocks, done⟩
  exact (congrArg Tracker.scope midway.similar.tracker).symm

end Regions

/-- Regions are read of the second text as well, however deep they nest. -/
theorem carries_regionWithin (levels : Nat) (kind : RegionKind) (implicitTerminator : Bool) :
    texts.Carries (RegionWithinReads levels kind implicitTerminator) fun a b => a.outline =
      b.outline := by
  induction levels generalizing kind implicitTerminator with
  | zero => rintro _ _ _ _ ⟨⟩
  | succ levels ih => exact carries_region ih kind implicitTerminator

end Relocation

/-! ## Deprecated forms -/

theorem Payload.deprecated?_unplaced {R S : Type} (f : R → S) (form : Form) (payload : Payload R) :
    (payload.unplaced f).deprecated? form = payload.deprecated? form := by
  cases payload with
  | instruction plain =>
    cases plain with
    | cast _ _ typing => cases typing with
      | bare result => cases form <;> cases result <;> rfl
      | _ => cases form <;> rfl
    | ptrStride _ _ typing => cases typing with
      | bare result => cases form <;> cases result <;> rfl
      | _ => cases form <;> rfl
    | copy _ _ result => cases form <;> cases result <;> rfl
    | _ => cases form <;> rfl
  | compound structured => cases form <;> rfl

namespace Operation

theorem deprecated?_unplaced (op : Operation) : op.unplaced.deprecated? = op.deprecated? := by
  rw [deprecated?, form_unplaced, deprecated?]
  obtain ⟨node⟩ := op
  rw [unplaced_of]
  exact Payload.deprecated?_unplaced _ _ _

theorem calm_unplaced {options : Options} {op : Operation} :
    op.unplaced.Calm options ↔ op.Calm options := by
  simp only [Calm, preorder_unplaced, List.forall_mem_map, deprecated?_unplaced]

theorem Matches.calm {options : Options} {op again : Operation} (same : op.Matches again)
    (calm : op.Calm options) :
    again.Calm options := by
  rw [← calm_unplaced, ← same.unplaced, calm_unplaced]
  exact calm

theorem Matches.forall_calm {options : Options} {ops others : List Operation}
    (same : List.Forall₂ Matches ops others)
    (calm : ∀ op ∈ ops, op.Calm options) : ∀ op ∈ others, op.Calm options := by
  induction same with
  | nil => exact calm
  | cons first _ ih =>
    obtain ⟨calmFirst, calmRest⟩ := List.forall_mem_cons.1 calm
    exact List.forall_mem_cons.2 ⟨first.calm calmFirst, ih calmRest⟩

end Operation

/-- If nothing in a region is written in a deprecated form, nothing is in one that is the same but
for its places. -/
theorem Region.calm_of_outline {options : Options} {region again : Region Operation}
    (same : region.outline = again.outline) (calm : region.Calm options) : again.Calm options := by
  have ops := congrArg (fun outline => Region.ops outline.1) same
  simp only [outline, ops_fullyUnplaced] at ops
  intro op member
  have listed : op.unplaced ∈ region.ops.map Operation.unplaced := by
    rw [ops]
    exact List.mem_map_of_mem member
  obtain ⟨twin, isTwin, unplaced⟩ := List.mem_map.1 listed
  rw [← Operation.calm_unplaced, ← unplaced, Operation.calm_unplaced]
  exact calm twin isTwin

end CirText
