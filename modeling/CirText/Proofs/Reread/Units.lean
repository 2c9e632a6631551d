import CirText.Proofs.Reread.Blocks

/-!
# Reading source units again

The functions and globals of a source unit are read again one by one, and so is the header of a
module with its name and its attributes.
-/

namespace CirText

open CirText.Parser CirText.Cursor CirText.Reader

/-- Tokens that stand for more pieces than others stand for these too, list by list. -/
theorem Spelled.flatMap_mono {R α : Type} {printed : List Char} {region : R → List Token → Prop}
    {f g : α → List (Piece R)}
    (each : ∀ a tokens, Spelled printed region (f a) tokens → Spelled printed region (g a) tokens)
    {items : List α} {tokens : List Token}
    (spelled : Spelled printed region (items.flatMap f) tokens) :
    Spelled printed region (items.flatMap g) tokens := by
  induction items generalizing tokens with
  | nil => exact spelled
  | cons a items ih =>
    rw [List.flatMap_cons] at spelled ⊢
    obtain ⟨here, later, rfl, first, rest⟩ := Spelled.append_iff.1 spelled
    exact Spelled.append_iff.2 ⟨here, later, rfl, each a here first, ih rest⟩

variable {source : String} {printed : List Char}
  {region : RegionKind → Bool → Meaning (Region Operation)} {before after : Stage}
  {tokens beyond : List Token}

namespace Parser

/-! ## Items -/

/-- The keyword that an operation starts with tells its operation code. -/
theorem OperationReads.startsDeclaration {text : List Char} {op : Operation}
    (reads : OperationReads region text before op after)
    (isKeyword : before.cursor.peek.kind = .keyword) :
    startsDeclaration before.cursor.peek = op.opcode.isDeclaration := by
  obtain ⟨names, middle, named, found, last, fromKeyword, results, _, rfl⟩ := reads
  have noValue : before.cursor.atKind .value = false := by
    rw [Cursor.atKind, isKeyword]
    rfl
  rw [ResultNamesRead, noValue, if_neg Bool.false_ne_true] at named
  obtain ⟨_, rfl⟩ := named
  obtain ⟨keyword, _, opcode, form, ⟨_, passes⟩, known, _, b, reads, rfl⟩ := fromKeyword
  have sameOpcode : b.payload.opcode = opcode :=
    (Grammar.body_describes opcode form).opcode b reads.builds
  rw [Parser.startsDeclaration, isKeyword, Grammar.peek_of_passes passes, known, ← sameOpcode]
  rfl

/-- The items of a source unit are read again. -/
theorem items_again (clean : (tokenize source).errors = [])
    (regions : RegionsRecur source printed region) {braced : Bool} {ops : List Operation}
    (reads : ItemsRead region braced source.toList before ops after)
    (within : before.rest <:+ (tokenize source).tokens)
    (isSpelled : Spelled printed noRegion (ops.flatMap Operation.leaves) tokens)
    (kindred : Kindred after.rest beyond) (ended : after.rest = [] → beyond = []) :
    before.cursor.BehindOperation ∧ Kindred before.rest (tokens ++ beyond) ∧
      Meaning.ReadsAgain (ItemsRead region braced) printed (List.Forall₂ Operation.Matches)
        before ops after tokens beyond := by
  obtain ⟨parser, means⟩ := id regions.means
  induction reads generalizing tokens with
  | @nil stage ends =>
    obtain rfl : tokens = [] := isSpelled
    refine ⟨?_, kindred, fun other rest similar => ⟨[], other, .nil ?_, rest, similar, .nil⟩⟩
    · rcases Bool.or_eq_true_iff.1 ends with atEnd | closes
      · have none : stage.cursor.rest = [] := List.isEmpty_iff.1 atEnd
        exact behindOperation_of_kind (by simp [Cursor.peek, none, Cursor.endToken, Token.endAt])
      · have isBrace := beq_iff_eq.1 (Bool.and_eq_true_iff.1 closes).2
        exact behindOperation_of_kind (by simp [isBrace])
    · rcases Bool.or_eq_true_iff.1 ends with atEnd | closes
      · have none : other.cursor.rest = [] := rest.trans (ended (List.isEmpty_iff.1 atEnd))
        rw [Cursor.atEnd, none]
        rfl
      · have goesOn : Kindred stage.rest other.rest := rest ▸ kindred
        have same : other.cursor.atPunct .rightBrace = stage.cursor.atPunct .rightBrace :=
          Guard.holds_congr (.punct .rightBrace) rfl goesOn.face
        rw [same, closes, Bool.or_true]
  | @cons before middle after op ops inside starts first rest ih =>
    obtain ⟨taken, toMiddle⟩ := (Means.operation means).leads _ _ _ _ first
    obtain ⟨here, later, rfl, isOperation, isRest⟩ := Spelled.append_iff.1 isSpelled
    obtain ⟨behind, onward, restAgain⟩ := ih (List.IsSuffix.trans ⟨taken, toMiddle.symm⟩ within)
      isRest kindred ended
    obtain ⟨ahead, operationAgain⟩ :=
      operation_again clean regions first within isOperation onward behind
    rw [List.append_assoc]
    refine ⟨first.behindOperation, ahead, fun other rest similar => ?_⟩
    rw [List.append_assoc] at rest
    have goesOn : Kindred before.rest other.rest := rest ▸ ahead
    obtain ⟨opAgain, between, readsOperation, betweenRest, similar, same⟩ :=
      operationAgain other rest similar
    obtain ⟨opsAgain, last, readsRest, lastRest, similar, others⟩ :=
      restAgain between betweenRest similar
    refine ⟨opAgain :: opsAgain, last, .cons ?_ ?_ readsOperation readsRest, lastRest, similar,
      .cons same others⟩
    · have brace : other.cursor.atPunct .rightBrace = before.cursor.atPunct .rightBrace :=
        Guard.holds_congr (.punct .rightBrace) rfl goesOn.face
      rw [not_atEnd_of_shorter (Means.progresses_operation means _ _ _ _ readsOperation), brace]
      exact (Bool.or_eq_false_iff.1 inside).2
    · have isKeyword : before.cursor.peek.kind = .keyword :=
        beq_iff_eq.1 (Bool.and_eq_true_iff.1 starts).1
      rw [readsOperation.startsDeclaration ((peek_kind_congr goesOn.face).trans isKeyword),
        ← same.opcode, ← first.startsDeclaration isKeyword]
      exact starts

/-! ## Headers -/

/-- The leaves of the optional name of a module. -/
def unitNameLeaves (name : Option Lexeme) : List Leaf :=
  name.toList.flatMap fun name => [.blank, .token .symbol name.text]

/-- The leaves of the optional attributes of a module. -/
def unitAttributesLeaves (attributes : Option AttributeText) : List Leaf :=
  attributes.toList.flatMap fun value => [.blank, .word "attributes", .blank, .attribute value]

/-- The optional name of a module is read again. -/
theorem unitName_again : Recurs source printed UnitNameReads
    (fun name => Spelled printed noRegion (unitNameLeaves name))
    (fun name again => name.map Lexeme.unplaced = again.map Lexeme.unplaced) [] := by
  intro before after name tokens beyond reads _ isSpelled kindred _
  unfold UnitNameReads at reads
  split at reads
  · rename_i isSymbol
    obtain ⟨rfl, rfl⟩ := reads
    obtain ⟨twin, _, rfl, ⟨twinKind, twinText⟩, rfl⟩ :=
      Spelled.token_cons_iff.1 (Spelled.blank_cons_iff.1 isSpelled)
    obtain ⟨kind, passes⟩ :=
      (Stage.passes_iff (·.kind == .symbol) fun _ => rfl).1 ⟨isSymbol, rfl, rfl⟩
    have ahead : Kindred before.rest (twin :: beyond) := by
      rw [passes.1]
      exact kindred.cons (face_of_content (twinKind.trans (beq_iff_eq.1 kind).symm) twinText)
    refine ⟨ahead, fun other rest similar => ?_⟩
    obtain ⟨passesTwin, next⟩ := Stage.passes_of_rest rest
    have here : other.cursor.peek = twin := Grammar.peek_of_passes passesTwin
    refine ⟨some ⟨twin.text, twin.span⟩, other.next, ?_, next, similar.next, ?_⟩
    · rw [UnitNameReads, Cursor.atKind, here, twinKind, if_pos (beq_self_eq_true _)]
      exact ⟨rfl, rfl⟩
    · exact congrArg (fun text => some (Lexeme.mk text .nowhere)) twinText.symm
  · rename_i noSymbol
    obtain ⟨rfl, rfl⟩ := reads
    obtain rfl : tokens = [] := isSpelled
    refine ⟨kindred, fun other rest similar => ⟨none, other, ?_, rest, similar, rfl⟩⟩
    have goesOn : Kindred after.rest other.rest := rest ▸ kindred
    have same : other.cursor.atKind .symbol = after.cursor.atKind .symbol :=
      Guard.holds_congr (.kind .symbol) rfl goesOn.face
    rw [UnitNameReads, same, if_neg noSymbol]
    exact ⟨rfl, rfl⟩

/-- The optional attributes of a module are read again. -/
theorem unitAttributes_again (clean : (tokenize source).errors = []) :
    Recurs source printed UnitAttributesRead
      (fun attributes => Spelled printed noRegion (unitAttributesLeaves attributes))
      (fun attributes again =>
        attributes.map AttributeText.unplaced = again.map AttributeText.unplaced) [] := by
  intro before after attributes tokens beyond reads within isSpelled kindred _
  unfold UnitAttributesRead at reads
  split at reads
  · rename_i isWord
    obtain ⟨value, reads, rfl⟩ := reads
    obtain ⟨twin, later, rfl, isTwin, isValue⟩ :=
      Spelled.word_cons (Spelled.blank_cons_iff.1 isSpelled)
    have isValue := Spelled.singleton_iff.1 (Spelled.blank_cons_iff.1 isValue)
    obtain ⟨isFound, passes⟩ :=
      (Stage.passes_iff (·.isWord "attributes") fun _ => rfl).1 ⟨isWord, rfl, rfl⟩
    obtain ⟨onward, valueAgain⟩ := Repeats.recurs (repeats_attributeOf clean .dictionary) reads
      (List.IsSuffix.trans ⟨[_], passes.1.symm⟩ within) isValue kindred (List.forall_mem_nil _)
    have content := content_of_words isFound isTwin
    have ahead : Kindred before.rest (twin :: (later ++ beyond)) := by
      rw [passes.1]
      exact onward.cons (face_of_content content.1 content.2)
    refine ⟨ahead, fun other rest similar => ?_⟩
    obtain ⟨passesTwin, next⟩ := Stage.passes_of_rest rest
    obtain ⟨again, last, readsAgain, lastRest, similar, same⟩ :=
      valueAgain other.next next similar.next
    refine ⟨some again, last, ?_, lastRest, similar, congrArg some same⟩
    rw [UnitAttributesRead, Cursor.atWord, Grammar.peek_of_passes passesTwin, if_pos isTwin]
    exact ⟨again, readsAgain, rfl⟩
  · rename_i noWord
    obtain ⟨rfl, rfl⟩ := reads
    obtain rfl : tokens = [] := isSpelled
    refine ⟨kindred, fun other rest similar => ⟨none, other, ?_, rest, similar, rfl⟩⟩
    have goesOn : Kindred after.rest other.rest := rest ▸ kindred
    have same : other.cursor.atWord "attributes" = after.cursor.atWord "attributes" :=
      Guard.holds_congr (.word "attributes") (by decide) goesOn.face
    rw [UnitAttributesRead, same, if_neg noWord]
    exact ⟨rfl, rfl⟩

/-! ## Source units -/

/-- Whether two source units are the same but for their places, and their items are printed in the
same way. -/
structure SameUnit (found again : Option ModuleHeader × List Operation) : Prop where
  header : found.1.map ModuleHeader.unplaced = again.1.map ModuleHeader.unplaced
  items : List.Forall₂ Operation.Matches found.2 again.2

theorem spelled_behind {ops : List Operation}
    (isSpelled : Spelled printed noRegion (ops.flatMap fun op => op.leaves ++ [.blank]) tokens) :
    Spelled printed noRegion (ops.flatMap Operation.leaves) tokens := by
  refine Spelled.flatMap_mono (fun op tokens isSpelled => ?_) isSpelled
  obtain ⟨here, _, rfl, first, rest⟩ := Spelled.append_iff.1 isSpelled
  obtain rfl : _ = [] := Spelled.singleton_iff.1 rest
  rwa [List.append_nil]

theorem spelled_before {ops : List Operation}
    (isSpelled : Spelled printed noRegion (ops.flatMap fun op => .blank :: op.leaves) tokens) :
    Spelled printed noRegion (ops.flatMap Operation.leaves) tokens :=
  Spelled.flatMap_mono (fun _ _ => Spelled.blank_cons_iff.1) isSpelled

/-- A source unit without a header is read again. -/
theorem bareUnit_again (clean : (tokenize source).errors = [])
    (regions : RegionsRecur source printed region) {ops : List Operation}
    (noModule : before.cursor.atWord "module" = false)
    (reads : ItemsRead region false source.toList before ops after)
    (within : before.rest <:+ (tokenize source).tokens)
    (isSpelled : Spelled printed noRegion (ops.flatMap fun op => op.leaves ++ [.blank]) tokens) :
    (SourceUnitReads region).ReadsAgain printed SameUnit before (none, ops) after tokens [] := by
  have ends : after.rest = [] := by
    have ends := reads.ends
    rw [Bool.false_and, Bool.or_false] at ends
    exact List.isEmpty_iff.1 ends
  have nothing : Kindred after.rest [] := by
    rw [ends]
    exact .nil
  obtain ⟨_, ahead, again⟩ := items_again clean regions reads within (spelled_behind isSpelled)
    nothing fun _ => rfl
  intro other rest similar
  have goesOn : Kindred before.rest other.rest := rest ▸ ahead
  obtain ⟨opsAgain, last, readsAgain, lastRest, similar, same⟩ := again other rest similar
  refine ⟨(none, opsAgain), last, ?_, lastRest, similar, rfl, same⟩
  have word : other.cursor.atWord "module" = before.cursor.atWord "module" :=
    Guard.holds_congr (.word "module") (by decide) goesOn.face
  rw [SourceUnitReads, word, noModule, if_neg Bool.false_ne_true]
  exact ⟨opsAgain, readsAgain, rfl⟩

/-- The items of a module between braces, up to the end of input. -/
def BracedItemsRead (region : RegionKind → Bool → Meaning (Region Operation)) :
    Meaning (List Operation) := fun source before ops after =>
  ∃ brace inside, (brace.isPunct .leftBrace = true ∧ before.Passes brace inside) ∧
    ∃ last, ItemsRead region true source inside ops last ∧ last.cursor.atPunct .rightBrace = true ∧
      after = last.next ∧ after.cursor.atEnd = true

/-- What is written of a module behind its header, up to the end of input. -/
def bracedLeaves (ops : List Operation) : List Leaf :=
  .blank :: .punct .leftBrace ::
    (ops.flatMap (fun op => .blank :: op.leaves) ++ [.blank, .punct .rightBrace, .blank])

/-- What is written of a module in braces. -/
def bracedUnitLeaves (header : ModuleHeader) (ops : List Operation) : List Leaf :=
  .word "module" :: (unitNameLeaves header.name ++
    (unitAttributesLeaves header.attributes ++ bracedLeaves ops))

theorem leaves_some {id : String} {header : ModuleHeader} {ops : List Operation}
    {symbols : SymbolTable} :
    Module.leaves ⟨id, some header, ops, symbols⟩ = bracedUnitLeaves header ops := by
  simp [Module.leaves, Module.headerLeaves, bracedUnitLeaves, bracedLeaves, unitNameLeaves,
    unitAttributesLeaves]

/-- The items between braces are read again. -/
theorem bracedItems_again (clean : (tokenize source).errors = [])
    (regions : RegionsRecur source printed region) {ops : List Operation}
    (reads : BracedItemsRead region source.toList before ops after)
    (within : before.rest <:+ (tokenize source).tokens)
    (isSpelled : Spelled printed noRegion (bracedLeaves ops) tokens) :
    Kindred before.rest (tokens ++ []) ∧
      (BracedItemsRead region).ReadsAgain printed (List.Forall₂ Operation.Matches) before ops after
        tokens [] := by
  obtain ⟨opening, inside, ⟨isOpening, passes⟩, last, reads, isClosing, rfl, _⟩ := reads
  obtain ⟨brace, later, rfl, isBrace, isSpelled⟩ :=
    Spelled.punct_cons (Spelled.blank_cons_iff.1 isSpelled)
  obtain ⟨items, ending, rfl, isItems, isEnding⟩ := Spelled.append_iff.1 isSpelled
  obtain ⟨closing, _, rfl, isTwin, isBlank⟩ :=
    Spelled.punct_cons (Spelled.blank_cons_iff.1 isEnding)
  obtain rfl := Spelled.singleton_iff.1 isBlank
  have closes : startsWith .rightBrace last.rest = true :=
    (Stage.atPunct_eq _ _).symm.trans isClosing
  have nonempty : last.rest ≠ [] := by
    intro none
    rw [none] at closes
    cases closes
  have twinCloses : startsWith .rightBrace [closing] = true := isTwin
  obtain ⟨_, onward, again⟩ := items_again clean regions reads
    (List.IsSuffix.trans ⟨[opening], passes.1.symm⟩ within) (spelled_before isItems)
    (Kindred.brace (.inr rfl) closes twinCloses) fun none => absurd none nonempty
  have opens : startsWith .leftBrace before.rest = true := by
    rw [passes.1]
    exact isOpening
  refine ⟨.brace (.inl rfl) opens isBrace, fun other rest similar => ?_⟩
  rw [List.append_nil] at rest
  obtain ⟨passesTwin, next⟩ := Stage.passes_of_rest rest
  obtain ⟨opsAgain, ended, readsAgain, endedRest, similar, same⟩ :=
    again other.next next (passes.2 ▸ similar.next)
  obtain ⟨_, afterRest⟩ := Stage.passes_of_rest endedRest
  refine ⟨opsAgain, ended.next,
    ⟨brace, other.next, ⟨isBrace, passesTwin⟩, ended, readsAgain, ?_, rfl,
    ?_⟩, afterRest, similar.next, same⟩
  · exact (Stage.atPunct_of_rest endedRest).trans isTwin
  · exact List.isEmpty_iff.2 afterRest

/-- A module in braces is read again. -/
theorem bracedUnit_again (clean : (tokenize source).errors = [])
    (regions : RegionsRecur source printed region) {header : ModuleHeader} {ops : List Operation}
    (isModule : before.cursor.atWord "module" = true)
    (reads : SourceUnitReads region source.toList before (some header, ops) after)
    (within : before.rest <:+ (tokenize source).tokens)
    (isSpelled : Spelled printed noRegion (bracedUnitLeaves header ops) tokens) :
    (SourceUnitReads region).ReadsAgain printed SameUnit before (some header, ops) after tokens
      [] := by
  rw [SourceUnitReads, if_pos isModule] at reads
  obtain ⟨_, named, ⟨name, unnamed, readsName, attributes, readsAttributes, rfl⟩, opening, inside,
    opens, _, last, reads, isClosing, rfl, atEnd, ⟨⟩⟩ := reads
  have items : BracedItemsRead region source.toList named ops last.next :=
    ⟨opening, inside, opens, last, reads, isClosing, rfl, atEnd⟩
  obtain ⟨isFound, passes⟩ :=
    (Stage.passes_iff (·.isWord "module") fun _ => rfl).1 ⟨isModule, rfl, rfl⟩
  obtain ⟨_, nameTaken, toUnnamed, _⟩ := readsName.tokens
  obtain ⟨_, attributesTaken, toNamed, _⟩ := readsAttributes.tokens
  have nameWithin : before.next.rest <:+ (tokenize source).tokens :=
    List.IsSuffix.trans ⟨[_], passes.1.symm⟩ within
  have attributesWithin := List.IsSuffix.trans ⟨nameTaken, toUnnamed.symm⟩ nameWithin
  have itemsWithin := List.IsSuffix.trans ⟨attributesTaken, toNamed.symm⟩ attributesWithin
  obtain ⟨twin, _, rfl, isTwin, isSpelled⟩ := Spelled.word_cons isSpelled
  obtain ⟨nameTokens, _, rfl, isName, isSpelled⟩ := Spelled.append_iff.1 isSpelled
  obtain ⟨attributeTokens, itemTokens, rfl, isAttributes, isItems⟩ := Spelled.append_iff.1 isSpelled
  obtain ⟨behind, itemsAgain⟩ := bracedItems_again clean regions items itemsWithin isItems
  obtain ⟨onward, attributesAgain⟩ :=
    unitAttributes_again clean readsAttributes attributesWithin isAttributes behind
      (List.forall_mem_nil _)
  obtain ⟨_, nameAgain⟩ := unitName_again readsName nameWithin isName onward (List.forall_mem_nil _)
  intro other rest similar
  simp only [List.cons_append, List.append_assoc] at rest
  obtain ⟨passesTwin, next⟩ := Stage.passes_of_rest rest
  obtain ⟨nameTwin, unnamedTwin, readsName, nameRest, similar, sameName⟩ :=
    nameAgain other.next next similar.next
  obtain ⟨attributesTwin, namedTwin, readsAttributes, attributesRest, similar, sameAttributes⟩ :=
    attributesAgain unnamedTwin nameRest similar
  obtain ⟨opsTwin, last, ⟨opening, inside, opens, ending, reads, closes, rfl, atEnd⟩,
      lastRest, similar, same⟩ := itemsAgain namedTwin attributesRest similar
  let headerTwin : ModuleHeader :=
    ⟨nameTwin, attributesTwin, other.cursor.spanBetween namedTwin.cursor⟩
  refine ⟨(some headerTwin, opsTwin), ending.next, ?_, lastRest, similar, ?_, same⟩
  · rw [SourceUnitReads, Cursor.atWord, Grammar.peek_of_passes passesTwin, if_pos isTwin]
    exact ⟨_, namedTwin, ⟨nameTwin, unnamedTwin, readsName, attributesTwin, readsAttributes, rfl⟩,
      opening, inside, opens, opsTwin, ending, reads, closes, rfl, atEnd, rfl⟩
  · simp only [Option.map_some, ModuleHeader.unplaced, sameName, sameAttributes, headerTwin]

/-- A source unit is read again. -/
theorem sourceUnit_again (clean : (tokenize source).errors = [])
    (regions : RegionsRecur source printed region) {unit : Module}
    (reads : SourceUnitReads region source.toList before (unit.header, unit.items) after)
    (within : before.rest <:+ (tokenize source).tokens)
    (isSpelled : Spelled printed noRegion unit.leaves tokens) :
    (SourceUnitReads region).ReadsAgain printed SameUnit before (unit.header, unit.items) after
      tokens [] := by
  obtain ⟨id, header, ops, symbols⟩ := unit
  cases isModule : before.cursor.atWord "module" with
  | false =>
    rw [SourceUnitReads, isModule, if_neg Bool.false_ne_true] at reads
    obtain ⟨_, reads, ⟨⟩⟩ := reads
    exact bareUnit_again clean regions isModule reads within isSpelled
  | true =>
    obtain ⟨header, rfl⟩ : ∃ found, header = some found := by
      rw [SourceUnitReads, if_pos isModule] at reads
      obtain ⟨header, _, _, _, _, _, _, _, _, _, _, _, ⟨⟩⟩ := reads
      exact ⟨header, rfl⟩
    rw [leaves_some] at isSpelled
    exact bracedUnit_again clean regions isModule reads within isSpelled

end Parser

end CirText
