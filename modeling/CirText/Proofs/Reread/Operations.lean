import CirText.Proofs.Forms
import CirText.Proofs.Parser.Conservation
import CirText.Proofs.Reread.Grammars
import CirText.Proofs.Reread.Printing

/-!
# Reading operations again

An operation is read again from the tokens of its leaves, with the same number and in the same form,
if its regions are and what comes behind it may come behind an operation. Without places it is the
same operation, and it is printed in the same way.
-/

namespace CirText

open CirText.Parser CirText.Cursor

/-! ## Forms -/

/-- Whether a rule looks at the next token only. -/
def Form.Rule.isShort : Form.Rule → Bool
  | copy | constant => false
  | _ => true

/-- A rule that looks at the next token only selects the same form where parsing goes on alike. -/
theorem Form.Rule.choose_congr {rule : Form.Rule} (short : rule.isShort = true)
    {cursor other : Cursor} (same : face other.rest = face cursor.rest) :
    rule.choose other = rule.choose cursor := by
  have kind : other.peek.kind = cursor.peek.kind := by
    rw [← peek_face, ← peek_face] at same
    exact congrArg Prod.fst same
  have marks : ∀ mark, other.peek.isPunct mark = cursor.peek.isPunct mark :=
    fun mark => Guard.holds_congr (.punct mark) rfl same
  have words : ∀ text ∈ ["exception", "ptr", "ref"],
      other.peek.isWord text = cursor.peek.isWord text := by
    intro text member
    refine Guard.holds_congr (.word text) ?_ same
    revert text
    decide
  simp only [List.forall_mem_cons] at words
  cases rule with
  | copy | constant => cases short
  | _ => simp only [choose, kind, marks, words]

namespace Grammar

variable {R α : Type} {region : RegionKind → Bool → Meaning R} {text : List Char}
  {stage other last : Stage}

theorem reads_before {first : Grammar R Unit} {rest : Grammar R α} {a : α} :
    (before first rest).Reads region text stage a last ↔
      ∃ middle, first.Reads region text stage () middle ∧ rest.Reads region text middle a last := by
  constructor
  · rintro ⟨⟨_, a⟩, ⟨middle, reads, rest⟩, rfl⟩
    exact ⟨middle, reads, rest⟩
  · rintro ⟨middle, reads, rest⟩
    exact ⟨((), a), ⟨middle, reads, rest⟩, rfl⟩

theorem reads_followedBy {inner : Grammar R α} {fixed : Grammar R Unit} {a : α} :
    (followedBy inner fixed).Reads region text stage a last ↔
      ∃ middle, inner.Reads region text stage a middle ∧
        fixed.Reads region text middle () last := by
  constructor
  · rintro ⟨⟨a, _⟩, ⟨middle, reads, fixed⟩, rfl⟩
    exact ⟨middle, reads, fixed⟩
  · rintro ⟨middle, reads, fixed⟩
    exact ⟨(a, ()), ⟨middle, reads, fixed⟩, rfl⟩

theorem reads_spaced_iff {rest : Grammar R α} {a : α} :
    (spaced rest).Reads region text stage a last ↔ rest.Reads region text stage a last := by
  rw [spaced, reads_before]
  constructor
  · rintro ⟨_, rfl, reads⟩
    exact reads
  · intro reads
    exact ⟨stage, rfl, reads⟩

/-- The token behind a value is the next one but one. -/
theorem peekAt_of_refers {kind : NameKind} {used : Reference} {middle : Stage}
    (refers : stage.Refers kind used middle) {token : Token} (passes : middle.Passes token last) :
    stage.cursor.peek.kind = nameToken kind ∧ stage.cursor.peekAt 1 = token := by
  obtain ⟨found, isName, rest, _, _⟩ := refers
  have tokens : stage.cursor.rest = found :: token :: last.rest := by
    rw [← passes.1]
    exact rest
  rw [Cursor.peek, Cursor.peekAt, tokens]
  exact ⟨isName, rfl⟩

/-- The form in which a copy is read is selected. -/
theorem choose_copy {form : Form} (listed : form ∈ Form.Rule.forms .copy) {b : Body R}
    (reads : (body .copy form).Reads region text stage b last) :
    Form.Rule.choose .copy stage.cursor = .ok form := by
  rcases List.mem_pair.1 listed with rfl | rfl
  · obtain ⟨_, ⟨middle, refers, _, second, _⟩, _⟩ := reads
    obtain ⟨_, ⟨found, isWord, passes⟩, _⟩ := reads_before.1 (reads_spaced_iff.1 second)
    obtain ⟨isValue, here⟩ := peekAt_of_refers (reads_spaced_iff.1 refers) passes
    simp [Form.Rule.choose, isValue, here, isWord, nameToken]
  · obtain ⟨_, ⟨middle, refers, _, second, _⟩, _⟩ := reads
    obtain ⟨_, ⟨found, isComma, passes⟩, _⟩ := reads_before.1 second
    obtain ⟨isValue, here⟩ := peekAt_of_refers (reads_spaced_iff.1 refers) passes
    have noWord : found.isWord "to" = false := by
      rw [Token.isWord, beq_iff_eq.1 isComma]
      rfl
    simp [Form.Rule.choose, isValue, here, isComma, noWord, nameToken]

/-- The form in which a constant is read is selected. -/
theorem choose_constant {form : Form} (listed : form ∈ Form.Rule.forms .constant) {b : Body R}
    (reads : (body .const form).Reads region text stage b last) :
    Form.Rule.choose .constant stage.cursor = .ok form := by
  simp only [Form.Rule.forms, List.mem_cons, List.not_mem_nil, or_false] at listed
  rcases listed with rfl | rfl | rfl
  · obtain ⟨_, ⟨_, first, _⟩, _⟩ := reads
    obtain ⟨_, ⟨found, isOpening, passes⟩, _⟩ := reads_before.1 (reads_spaced_iff.1 first)
    simp [Form.Rule.choose, peek_of_passes passes, isOpening]
  · obtain ⟨_, ⟨_, first, _⟩, _⟩ := reads
    obtain ⟨noAlias, isName⟩ := AttributeReads.isDialect (reads_spaced_iff.1 first)
    have noAlias : stage.cursor.peek.isAttributeAlias (stage.cursor.peekAt 1) = false := noAlias
    have kind : stage.cursor.peek.kind = .attributeName := beq_iff_eq.1 isName
    simp [Form.Rule.choose, noAlias, kind, Token.isPunct]
  · obtain ⟨_, ⟨_, first, _⟩, _⟩ := reads
    have isAlias := AttributeReads.isAlias (reads_spaced_iff.1 first)
    have isAlias : stage.cursor.peek.isAttributeAlias (stage.cursor.peekAt 1) = true := isAlias
    have kind : stage.cursor.peek.kind = .attributeName := by
      simp only [Token.isAttributeAlias, Bool.and_eq_true, beq_iff_eq] at isAlias
      exact isAlias.1.1
    simp [Form.Rule.choose, isAlias, kind, Token.isPunct]

/-- The form of an operation is selected again where its body is read again. -/
theorem choose_again {opcode : Opcode} {form : Form}
    (chosen : Form.choose opcode stage.cursor = .ok form) (same : face other.rest = face stage.rest)
    {b : Body R} (reads : (body opcode form).Reads region text other b last) :
    Form.choose opcode other.cursor = .ok form := by
  have listed := Form.Rule.choose_mem chosen
  cases short : (Form.ruleOf opcode).isShort with
  | true => exact (Form.Rule.choose_congr short same).trans chosen
  | false =>
    cases opcode with
    | copy => exact choose_copy listed reads
    | const => exact choose_constant listed reads
    | _ => cases short

end Grammar

namespace Parser

variable {source : String} {printed : List Char} {before after other : Stage}

/-! ## Results -/

/-- A token with the name of a value. -/
theorem recurs_valueName : Recurs source printed ValueNameReads
    (fun name tokens => ∃ twin, tokens = [twin] ∧ twin.kind = .value ∧ twin.name = name.name)
    (fun name twin => twin.name = name.name) [] := by
  have repeats : Repeats source printed ValueNameReads
      (fun name tokens => ∃ twin, tokens = [twin] ∧ twin.kind = .value ∧ twin.name = name.name)
      (fun name twin => twin.name = name.name) := by
    refine @Repeats.token _ _ _ _ _ _ (fun found => found.kind = .value) id
      (by simp [ValueNameReads]) ?_
    rintro found _ isValue ⟨twin, rfl, twinValue, name⟩
    have noWord : found.kind ≠ .identifier := by
      rw [isValue]
      rintro ⟨⟩
    exact ⟨twin, rfl, twinValue, face_of_kind (twinValue.trans isValue.symm) noWord, name⟩
  exact @Repeats.recurs _ _ _ _ _ _ repeats

/-- The names of results are read again. -/
theorem recurs_resultNames : Recurs source printed ResultNamesRead
    (fun names tokens => ∃ results, List.Forall₂ Binds names results ∧
      Spelled printed noRegion (resultLeaves results) tokens)
    (List.Forall₂ fun name twin => twin.name = name.name) [] := by
  rintro before after names tokens beyond reads within ⟨results, binds, isSpelled⟩ kindred barred
  unfold ResultNamesRead at reads
  split at reads
  · rename_i here
    obtain ⟨found, middle, named, equal, ⟨isEqual, passes⟩, rfl⟩ := reads
    have several : results.isEmpty = false := by
      cases binds
      rfl
    rw [resultLeaves, several, if_neg Bool.false_ne_true] at isSpelled
    obtain ⟨inside, _, rfl, isNames, isLast⟩ := Spelled.append_iff.1 isSpelled
    obtain ⟨twin, _, rfl, isTwin, isBlank⟩ := Spelled.punct_cons (Spelled.blank_cons_iff.1 isLast)
    obtain rfl := Spelled.singleton_iff.1 isBlank
    have namesSpelled : Spelled.Commaed (fun (name : Token) tokens =>
        ∃ twin, tokens = [twin] ∧ twin.kind = .value ∧ twin.name = name.name)
        (found.1 :: found.2) inside := (Spelled.commaed isNames).carry binds ?_
    · obtain ⟨ahead, again⟩ := recurs_separated
        (fun {_ _ _ _} reads => Stage.Passes.leads reads.2) recurs_valueName named
        within namesSpelled
        (passes.1 ▸ kindred_punct isEqual isTwin kindred.scans) (List.forall_mem_nil _)
      simp only [List.append_assoc, List.singleton_append]
      refine ⟨ahead, fun other rest similar => ?_⟩
      simp only [List.append_assoc, List.singleton_append] at rest
      obtain ⟨twins, between, namedAgain, betweenRest, similar, same⟩ := again other rest similar
      obtain ⟨passesTwin, lastRest⟩ := Stage.passes_of_rest betweenRest
      refine ⟨twins.1 :: twins.2, between.next, ?_, lastRest, passes.2 ▸ similar.next,
        .cons same.1 same.2⟩
      have goesOn : Kindred before.rest other.rest := rest ▸ ahead
      have value : other.cursor.atKind .value = true :=
        (Guard.holds_congr (.kind .value) rfl goesOn.face).trans here
      rw [ResultNamesRead, if_pos value]
      exact ⟨twins, between, namedAgain, twin, ⟨isTwin, passesTwin⟩, rfl⟩
    · rintro name defined tokens ⟨kind, bound, _⟩ isSpelled
      obtain ⟨twin, rfl, isValue, same⟩ := Spelled.singleton_iff.1 isSpelled
      rw [kind] at isValue
      exact ⟨twin, rfl, isValue, same.trans bound.symm⟩
  · rename_i absent
    obtain ⟨rfl, rfl⟩ := reads
    cases binds
    obtain rfl : tokens = [] := isSpelled
    refine ⟨kindred, fun other rest similar => ⟨[], other, ?_, rest, similar, .nil⟩⟩
    have goesOn : Kindred after.rest other.rest := rest ▸ kindred
    have noValue : other.cursor.atKind .value = after.cursor.atKind .value :=
      Guard.holds_congr (.kind .value) rfl goesOn.face
    rw [ResultNamesRead, noValue, if_neg absent]
    exact ⟨rfl, rfl⟩

/-- The results are defined again. -/
theorem DefinesAll.again {names twins : List Token} {results : List Definition}
    (defines : DefinesAll names before results after) (similar : before.Similar other)
    (same : List.Forall₂ (fun name twin => twin.name = name.name) names twins) :
    ∃ others last, DefinesAll twins other others last ∧ last.rest = other.rest ∧
      after.Similar last ∧ results.map Definition.unplaced = others.map Definition.unplaced := by
  induction same generalizing before other results with
  | nil =>
    obtain ⟨rfl, rfl⟩ := defines
    exact ⟨[], other, ⟨rfl, rfl⟩, rfl, similar, rfl⟩
  | cons name _ ih =>
    obtain ⟨defined, middle, first, results, rest, rfl⟩ := defines
    obtain ⟨twin, between, again, betweenRest, similar, sameFirst⟩ := first.again similar name
    obtain ⟨others, last, restAgain, lastRest, similar, sameRest⟩ := ih rest similar
    refine ⟨twin :: others, last, ⟨twin, between, again, others, restAgain, rfl⟩,
      lastRest.trans betweenRest, similar, ?_⟩
    rw [List.map_cons, List.map_cons, sameFirst, sameRest]

end Parser

/-! ## Bodies -/

theorem Payload.opcode_unplaced {R X : Type} (f : R → X) (payload : Payload R) :
    (payload.unplaced f).opcode = payload.opcode := by
  cases payload with
  | instruction plain => cases plain <;> rfl
  | compound structured => cases structured <;> rfl

theorem Body.form_unplaced {R X : Type} (f : R → X) (b : Body R) (selected : Form) :
    (b.unplaced f).form selected = b.form selected := by
  obtain ⟨payload, extra⟩ := b
  cases payload with
  | instruction plain =>
    cases plain with
    | load _ _ types | store _ _ _ types => cases types <;> rfl
    | _ => rfl
  | compound structured => rfl

/-- A region without places, and how it is printed in lines that are moved to the right. -/
def Region.outline (region : Region Operation) : Region Operation × (Nat → List Char) :=
  (region.fullyUnplaced, fun amount => (region.map Operation.layout).print.chars amount)

/-- Whether two operations are the same but for their places, and printed in the same way. -/
structure Operation.Matches (op again : Operation) : Prop where
  unplaced : op.unplaced = again.unplaced
  chars : ∀ amount, op.layout.chars amount = again.layout.chars amount

/-- Whether what comes next may come behind an operation. -/
def Cursor.BehindOperation (cursor : Cursor) : Prop :=
  ∃ guard ∈ Grammar.behindOperation, guard.holds cursor = true

namespace Parser

/-- Whether regions that are read of a source are read again from the printed tokens of their
leaves. -/
structure RegionsRecur (source : String) (printed : List Char)
    (region : RegionKind → Bool → Meaning (Region Operation)) : Prop where
  /-- There is a parser that reads them. -/
  means : ∃ parser, Means.OfRegions parser region
  /-- They start with a brace. -/
  braced : ∀ kind implicitTerminator {text : List Char} {before after : Stage}
    {inner : Region Operation}, region kind implicitTerminator text before inner after →
      before.cursor.atPunct .leftBrace = true
  /-- Their leaves account for them. -/
  passage : ∀ kind implicitTerminator {before after : Stage} {inner : Region Operation},
    region kind implicitTerminator source.toList before inner after →
      inner.Whole ∧ Passage source.toList before inner.allLeaves after
  /-- They are read again. -/
  recurs : ∀ kind implicitTerminator, Recurs source printed (region kind implicitTerminator)
    (fun inner => Spelled printed noRegion inner.allLeaves)
    (fun a b => a.outline = b.outline) []

/-- What is read by a grammar with such regions is read again. -/
theorem RegionsRecur.recurring {source : String} {printed : List Char}
    {region : RegionKind → Bool → Meaning (Region Operation)}
    (clean : (tokenize source).errors = []) (regions : RegionsRecur source printed region)
    {α : Type} {grammar : Grammar (Region Operation) α} (lawful : grammar.Lawful)
    (steady : grammar.steady = true) (foreseen : grammar.foreseen = true) :
    grammar.Recurring source printed region (fun inner => Spelled printed noRegion inner.allLeaves)
      Region.outline := by
  obtain ⟨parser, means⟩ := regions.means
  exact grammar.recurring clean means
    (fun kind implicitTerminator {_ _ _ _} => regions.braced kind implicitTerminator) regions.recurs
    lawful steady foreseen

/-- The leaves of an operation from its keyword on. -/
def fromKeywordLeaves (found : Nat × Form × Body (Region Operation)) : List Leaf :=
  .token .keyword found.2.2.payload.opcode.keyword ::
    (Grammar.body found.2.2.payload.opcode found.2.1).leaves Region.allLeaves found.2.2

/-- The characters of an operation from its keyword on. -/
def fromKeywordChars (amount : Nat) (found : Nat × Form × Body (Region Operation)) : List Char :=
  found.2.2.payload.opcode.keyword.toList ++
    ((Grammar.body found.2.2.payload.opcode found.2.1).pieces found.2.2).flatMap
      (Piece.chars fun region => region.outline.2 amount)

/-- Whether two operations are the same from the keyword on but for their places, and printed in the
same way. -/
structure SameFromKeyword (found again : Nat × Form × Body (Region Operation)) : Prop where
  id : found.1 = again.1
  form : found.2.1 = again.2.1
  body : found.2.2.unplaced Region.outline = again.2.2.unplaced Region.outline
  chars : ∀ amount, fromKeywordChars amount found = fromKeywordChars amount again

section

variable {source : String} {printed : List Char}
  {region : RegionKind → Bool → Meaning (Region Operation)} {before after : Stage}
  {tokens beyond : List Token}

/-- Values that are the same but for their places are built. -/
theorem builds_of_same {R X α : Type} {f : R → X} {grammar : Grammar R α} {a b : α}
    (same : grammar.Same f a b) : grammar.Builds b := by
  cases grammar with
  | view as inner =>
    obtain ⟨_, y, _, _, rfl⟩ := same
    exact ⟨y, rfl⟩
  | _ => exact trivial

/-- A body that is built, with its opcode and form. -/
theorem builds_fromKeyword {opcode : Opcode} {form : Form} {b : Body (Region Operation)}
    (built : (Grammar.body opcode form).Builds b) :
    (Grammar.body b.payload.opcode (b.form form)).Builds b := by
  rw [(Grammar.body_describes opcode form).opcode b built, Grammar.body_form built]
  exact built

/-- What is read from a keyword on can be built by the grammar of its form. -/
theorem FromKeywordReads.builds {text : List Char} {found : Nat × Form × Body (Region Operation)}
    (reads : FromKeywordReads region text before found after) :
    (Grammar.body found.2.2.payload.opcode found.2.1).Builds found.2.2 := by
  obtain ⟨_, _, opcode, form, _, _, _, b, reads, rfl⟩ := reads
  exact builds_fromKeyword reads.builds

/-- Bodies that are the same but for their places make operations that are the same from the keyword
on. -/
theorem SameFromKeyword.of_same {opcode : Opcode} {form : Form} {b again : Body (Region Operation)}
    {id other : Nat} (sameId : id = other) (built : (Grammar.body opcode form).Builds b)
    (same : (Grammar.body opcode form).Same Region.outline b again) :
    SameFromKeyword (id, b.form form, b) (other, again.form form, again) := by
  have builtAgain := builds_of_same same
  have unplaced := Grammar.unplaced_of_same same
  refine ⟨sameId, ?_, unplaced, fun amount => ?_⟩
  · change b.form form = again.form form
    rw [← Body.form_unplaced Region.outline, unplaced, Body.form_unplaced]
  · simp only [fromKeywordChars]
    rw [(Grammar.body_describes opcode form).opcode b built,
      (Grammar.body_describes opcode form).opcode again builtAgain, Grammar.body_form built,
      Grammar.body_form builtAgain,
      Grammar.chars_of_same (fun outline => congrFun (congrArg Prod.snd outline) amount) _
        (Grammar.body_stable opcode form) same]

/-- An operation is read again from its keyword on. -/
theorem fromKeyword_again (clean : (tokenize source).errors = [])
    (regions : RegionsRecur source printed region) {found : Nat × Form × Body (Region Operation)}
    (reads : FromKeywordReads region source.toList before found after)
    (within : before.rest <:+ (tokenize source).tokens)
    (isSpelled : Spelled printed noRegion (fromKeywordLeaves found) tokens)
    (kindred : Kindred after.rest beyond) (behind : after.cursor.BehindOperation) :
    Kindred before.rest (tokens ++ beyond) ∧
      (FromKeywordReads region).ReadsAgain printed SameFromKeyword before found after tokens
        beyond := by
  obtain ⟨keyword, middle, opcode, form, ⟨isKeyword, passes⟩, named, chosen, b, reads, rfl⟩ := reads
  have sameOpcode : b.payload.opcode = opcode :=
    (Grammar.body_describes opcode form).opcode b reads.builds
  have leaves : fromKeywordLeaves (middle.nextId, b.form form, b) =
      .token .keyword opcode.keyword ::
        ((Grammar.body opcode form).pieces b).flatMap (Piece.flatten Region.allLeaves) := by
    rw [fromKeywordLeaves, sameOpcode, Grammar.body_form reads.builds]
    rfl
  rw [leaves] at isSpelled
  obtain ⟨twin, later, rfl, ⟨twinKind, twinText⟩, isBody⟩ := Spelled.token_cons_iff.1 isSpelled
  have keywordText : keyword.text = opcode.keyword := by
    have found := named
    unfold Opcode.ofKeyword? at found
    have same := List.find?_some found
    exact (beq_iff_eq.1 same).symm
  have twinName : twin.text = keyword.text := twinText.trans keywordText.symm
  have bars : ∀ bar ∈ (Grammar.body (R := Region Operation) opcode form).bars,
      bar.holds after.cursor = false := by
    intro bar member
    obtain ⟨guard, isBehind, holds⟩ := behind
    have avoids := List.all_eq_true.1 (Grammar.body_bars opcode form) bar member
    exact Guard.holds_of_avoids (List.all_eq_true.1 avoids guard isBehind) holds
  have inside : middle.rest <:+ (tokenize source).tokens :=
    List.IsSuffix.trans ⟨[keyword], passes.1.symm⟩ within
  obtain ⟨ahead, again⟩ := (regions.recurring clean (Grammar.body_lawful opcode form)
    (Grammar.body_steady opcode form) (Grammar.body_foreseen opcode form)).again reads inside
      isBody.flatten kindred bars
  have ahead : Kindred middle.rest (later ++ beyond) := ahead
  refine ⟨?_, fun other rest similar => ?_⟩
  · rw [passes.1]
    exact ahead.cons (face_of_content (twinKind.trans isKeyword.symm) twinName)
  · obtain ⟨passesTwin, next⟩ := Stage.passes_of_rest rest
    have similar : middle.Similar other.next := passes.2 ▸ similar.next
    let start : Stage := { other.next with nextId := other.next.nextId + 1 }
    have startRest : start.rest = later ++ beyond := next
    obtain ⟨b', last, readsAgain, lastRest, lastSimilar, same⟩ :=
      again start startRest ⟨similar.tracker, congrArg (· + 1) similar.nextId⟩
    have face : face start.rest = face middle.rest := by
      rw [startRest]
      exact ahead.face
    have chosenAgain : Form.choose opcode start.cursor = .ok form :=
      Grammar.choose_again chosen face readsAgain
    refine ⟨(other.next.nextId, b'.form form, b'), last,
      ⟨twin, other.next, opcode, form, ⟨twinKind, passesTwin⟩, ?_, chosenAgain, b',
        readsAgain, rfl⟩,
      lastRest, lastSimilar, .of_same similar.nextId.symm reads.builds same⟩
    rw [twinName, named]

theorem printResults_congr {results others : List Definition}
    (same : results.map Definition.unplaced = others.map Definition.unplaced) :
    printResults results = printResults others := by
  have empty : results.isEmpty = others.isEmpty := by
    rw [← List.isEmpty_map (f := Definition.unplaced), same, List.isEmpty_map]
  have names : results.map Definition.spelling = others.map Definition.spelling := by
    have mapped := congrArg (List.map Definition.spelling) same
    rwa [List.map_map, List.map_map] at mapped
  rw [printResults, printResults, empty, names]

/-- An operation is printed as the names of its results, and from its keyword on. -/
theorem chars_layout_fromKeyword {found : Nat × Form × Body (Region Operation)}
    (built : (Grammar.body found.2.2.payload.opcode found.2.1).Builds found.2.2)
    (results : List Definition)
    (span : Span) (amount : Nat) :
    (Operation.of
        { id := found.1, results, payload := found.2.2.payload, form := found.2.1,
          extra := found.2.2.extra, span }).layout.chars amount =
      (printResults results).chars amount ++ fromKeywordChars amount found := by
  refine Operation.chars_layout ?_ amount
  exact built

/-- Operations with the same results that are the same from the keyword on are the same. -/
theorem SameFromKeyword.matches {found again : Nat × Form × Body (Region Operation)}
    (same : SameFromKeyword found again)
    (built : (Grammar.body found.2.2.payload.opcode found.2.1).Builds found.2.2)
    (builtAgain : (Grammar.body again.2.2.payload.opcode again.2.1).Builds again.2.2)
    {results others : List Definition}
    (sameResults : results.map Definition.unplaced = others.map Definition.unplaced)
    (span other : Span) :
    Operation.Matches
      (.of { id := found.1, results, payload := found.2.2.payload, form := found.2.1,
             extra := found.2.2.extra, span })
      (.of { id := again.1, results := others, payload := again.2.2.payload, form := again.2.1,
             extra := again.2.2.extra, span := other }) where
  unplaced := by
    have payload := congrArg (fun b => b.payload.mapMem fun inner _ => inner.1) same.body
    have extra := congrArg Body.extra same.body
    simp only [Body.unplaced, Payload.mapMem_unplaced] at payload extra
    rw [Operation.unplaced_of, Operation.unplaced_of]
    simp only [same.id, same.form, sameResults, extra]
    exact congrArg (fun payload => Operation.of ⟨_, _, payload, _, _, _⟩) payload
  chars amount := by
    rw [chars_layout_fromKeyword built, chars_layout_fromKeyword builtAgain,
      printResults_congr sameResults, same.chars]

/-- An operation is read again. -/
theorem operation_again (clean : (tokenize source).errors = [])
    (regions : RegionsRecur source printed region) {op : Operation}
    (reads : OperationReads region source.toList before op after)
    (within : before.rest <:+ (tokenize source).tokens)
    (isSpelled : Spelled printed noRegion op.leaves tokens)
    (kindred : Kindred after.rest beyond) (behind : after.cursor.BehindOperation) :
    Kindred before.rest (tokens ++ beyond) ∧
      (OperationReads region).ReadsAgain printed Operation.Matches before op after tokens
        beyond := by
  have built := (operation_passage (fun kind implicitTerminator {_ _ _} =>
    regions.passage kind implicitTerminator) reads).1.built
  rw [op.leaves_eq built] at isSpelled
  obtain ⟨names, middle, named, found, last, fromKeyword, results, defines, rfl⟩ := reads
  obtain ⟨binds, afterRest, _⟩ := defines.spec
  obtain ⟨here, later, rfl, isNames, isRest⟩ := Spelled.append_iff.1 isSpelled
  obtain ⟨taken, toMiddle⟩ := Means.resultNames.leads _ _ _ _ named
  obtain ⟨guard, member, holds⟩ := behind
  have behindLast : last.cursor.BehindOperation :=
    ⟨guard, member, (guard.holds_of_rest afterRest).symm.trans holds⟩
  rw [afterRest] at kindred
  obtain ⟨onward, keywordAgain⟩ := fromKeyword_again clean regions fromKeyword
    (List.IsSuffix.trans ⟨taken, toMiddle.symm⟩ within) isRest kindred behindLast
  obtain ⟨ahead, namesAgain⟩ := recurs_resultNames named within ⟨results, binds, isNames⟩ onward
    (List.forall_mem_nil _)
  rw [List.append_assoc]
  refine ⟨ahead, fun other rest similar => ?_⟩
  rw [List.append_assoc] at rest
  obtain ⟨twins, middle', namedAgain, middleRest, similar, sameNames⟩ :=
    namesAgain other rest similar
  obtain ⟨again, last', fromKeywordAgain, lastRest, similar, same⟩ :=
    keywordAgain middle' middleRest similar
  obtain ⟨others, after', definesAgain, rest', similar, sameResults⟩ :=
    defines.again similar sameNames
  exact ⟨_, after', ⟨twins, middle', namedAgain, again, last', fromKeywordAgain, others,
    definesAgain, rfl⟩, rest'.trans lastRest, similar,
    same.matches fromKeyword.builds fromKeywordAgain.builds sameResults _ _⟩

end

end Parser

end CirText
