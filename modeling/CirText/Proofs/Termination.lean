import CirText.Proofs.Assembly.Agreement
import CirText.Proofs.Parser.Readings
import Mathlib

/-!
# Parsing goes forward and comes to an end

Nothing moves the cursor back, each step of the loops through items and blocks moves it on, recovery
gets beyond the first token of what has failed, and no type or attribute is asked for twice. So no
loop needs a guard to come to an end, and caches of types and attributes are of no consequence.
-/

namespace CirText

namespace Parser

/-- Whether recovery gets beyond the first token at which a parser has failed, unless there is none
or parsing has come to an early end. -/
def RecoversBeyond {α : Type} (input : Input) (parser : Parser α) : Prop :=
  ∀ state : State, state.cursor.atEnd = false → (parser input state).1 = none →
    (parser input state).2.halted = false →
    state.cursor.position <
    (resynchronize state.cursor input (parser input state).2).2.cursor.position

theorem recoversBeyond {α : Type} {parser : Parser α} (forward : Forward parser) (input : Input) :
    RecoversBeyond input parser :=
  fun state more _ live => position_resynchronize more (forward input state) live

/-- What it means that parsing goes forward over some tokens, with regions that nest to a number of
levels. -/
structure GoesForward (input : Input) (lexed : Tokenized) (levels : Nat) : Prop where
  /-- Nothing moves the cursor back. -/
  forward : Forward (sourceUnit (regionWithin levels)) ∧ Forward (operation (regionWithin levels)) ∧
    ∀ kind implicitTerminator, Forward (regionWithin levels kind implicitTerminator)
  /-- A step through the items of a source unit moves the cursor on unless it leaves the loop. -/
  items (braced : Bool) (state : State) : state.leavesItems braced input = false →
    state.cursor.position < (itemStep (regionWithin levels) braced input state).2.cursor.position
  /-- The step that leaves the loop through the items gives none. -/
  itemsEnd (braced : Bool) (state : State) : state.leavesItems braced input = true →
    (itemStep (regionWithin levels) braced input state).1 = some (none, false)
  /-- A step through the blocks of a region moves the cursor on unless it leaves the loop. -/
  blocks (kind : RegionKind) (opening : Span) (progress : Progress) (state : State) :
    state.leavesBlocks = false →
    state.cursor.position <
    (blockStep (regionWithin levels) kind opening progress input state).2.cursor.position
  /-- The step that leaves the loop through the blocks fails or gives the result of the loop. -/
  blocksEnd (kind : RegionKind) (opening : Span) (progress : Progress) (state : State) :
    state.leavesBlocks = true →
    ∀ step ∈ (blockStep (regionWithin levels) kind opening progress input state).1, ¬step.GoesOn
  /-- Recovery gets beyond what has failed. -/
  recovery : RecoversBeyond input (declaration (regionWithin levels)) ∧
    RecoversBeyond input (blockHeader (regionWithin levels)) ∧
    RecoversBeyond input (operation (regionWithin levels))
  /-- What is asked for stands behind all that has been asked for before, whether that could be read
  or not. -/
  readings :
    ((sourceUnit (regionWithin levels) input (initial lexed)).2.readings.reverse.map
      (·.position)).Pairwise (· < ·)
  /-- The parser of source units is put together from parts that can be exchanged. -/
  assembled : Assembly.sourceUnit (m := Parser) (Assembly.regionWithin levels) =
    sourceUnit (regionWithin levels)
  /-- Put together in the same way from parts with caches and from loops without a guard, it comes
  to an end with the same outcome. -/
  cached : ∃ caches,
    Assembly.sourceUnit (m := Cached) (Assembly.regionWithin levels) input (initial lexed, {}) =
      Part.some ((sourceUnit (regionWithin levels) input (initial lexed)).1,
        (sourceUnit (regionWithin levels) input (initial lexed)).2, caches)

end Parser

open CirText.Parser in
/-- Parsing goes forward whatever the tokens are, so that it ends on all of them, and the outcome is
the same with caches as without. -/
theorem sourceUnit_goesForward (input : Input) (lexed : Tokenized) (levels : Nat) :
    GoesForward input lexed levels := by
  have regions := forward_regionWithin levels
  have itemSteps : ∀ {region : RegionKind → Bool → Parser (Region Operation)},
      (∀ kind implicitTerminator, Forward (region kind implicitTerminator)) →
      ∀ braced, Forward (itemStep region braced) :=
    inherited_forward.itemStep forward_warnDeprecated fun _ _ => forward_of_eq fun _ _ => rfl
  refine
    { forward := ⟨inherited_forward.sourceUnit forward_blockStep itemSteps levels,
      forward_operation regions,
        regions⟩
      items := fun braced state stays =>
        (nears_itemStep regions stays).position_lt (itemSteps regions braced input state)
      itemsEnd := fun _ _ leaves => (itemStep_leaves leaves).1
      blocks := fun kind opening progress state stays =>
        (nears_blockStep regions kind opening progress stays).position_lt
          (forward_blockStep regions kind opening progress input state)
      blocksEnd := fun kind opening progress _ leaves =>
        blockStep_leaves kind opening progress leaves
      recovery := ⟨recoversBeyond (forward_declaration regions) input,
        recoversBeyond inherited_forward.blockHeader input,
        recoversBeyond (forward_operation regions) input⟩
      readings := ?_
      assembled := ?_
      cached := ?_ }
  · rw [List.map_reverse, List.pairwise_reverse]
    exact readings_sourceUnit levels input lexed
  · rw [Assembly.regionWithin_eq, Assembly.sourceUnit_eq]
  · have empty : Caches.Behind {} (initial lexed).cursor.position :=
      ⟨by rintro _ ⟨⟩, by rintro _ ⟨⟩⟩
    obtain ⟨caches, _, run⟩ :=
      (Agrees.sourceUnit (Agrees.regionWithin levels)).runs input (initial lexed) empty
    exact ⟨caches, run⟩

/-- The attributes of this module cannot be read, but the type of its global is asked for behind
them. -/
theorem sourceUnit_goesForward_afterError :
    Parser.GoesForward ⟨"module attributes 5 cir.global @g : !s32i".toList, {}, .structural⟩
      (tokenize "module attributes 5 cir.global @g : !s32i") ({} : Options).maxDepth ∧
    (Parser.run "module attributes 5 cir.global @g : !s32i" {}).2.readings.reverse.map
      (·.position) = [2, 6] :=
  ⟨sourceUnit_goesForward _ _ _, by cbv⟩

end CirText
