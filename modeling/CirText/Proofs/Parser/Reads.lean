import CirText.Proofs.Grammar.Reads
import CirText.Proofs.Parser.Steps
import CirText.Proofs.Parser.Uses

/-!
# What operations, regions and source units are read from

The relations of grammars are carried on to operations, to the blocks of a region, to regions nested
in each other and to source units. `parse_reads` ties them to the parser: if a source unit is parsed
without errors, its header and its items are read in this way, from the start of a tracker with one
scope to the end of input.
-/

namespace CirText

namespace Parser

variable {region : RegionKind → Bool → Meaning (Region Operation)}

/-! ## Operations -/

/-- The names before an equals sign, if there are any. -/
def ResultNamesRead : Meaning (List Token) := fun source before names after =>
  if before.cursor.atKind .value then ∃ found middle,
    SeparatedReads (fun _ before name after => name.kind = .value ∧ before.Passes name after) source
        before found middle ∧ ∃ equal, (equal.isPunct .equal = true ∧ middle.Passes equal after) ∧
      names = found.1 :: found.2
  else names = [] ∧ after = before

/-- The values with the given names are defined one after the other. -/
def DefinesAll : List Token → Stage → List Definition → Stage → Prop
  | [], before, results, after => results = [] ∧ after = before
  | name :: names, before, results, after =>
    ∃ defined middle, before.Defines .value name defined middle ∧
      ∃ others, DefinesAll names middle others after ∧ results = defined :: others

/-- An operation from its keyword on. -/
def FromKeywordReads (region : RegionKind → Bool → Meaning (Region Operation)) :
    Meaning (Nat × Form × Body (Region Operation)) := fun source before found after =>
  ∃ keyword middle opcode form, (keyword.kind = .keyword ∧ before.Passes keyword middle) ∧
    Opcode.ofKeyword? keyword.text = some opcode ∧ Form.choose opcode middle.cursor = .ok form ∧
    ∃ body, (Grammar.body opcode form).Reads region source
        { middle with nextId := middle.nextId + 1 } body after ∧
      found = (middle.nextId, body.form form, body)

/-- An operation up to where its results are defined. -/
def OperationHeadReads (region : RegionKind → Bool → Meaning (Region Operation)) :
    Meaning (List Token × Nat × Form × Body (Region Operation)) := fun source before head after =>
  ∃ middle, ResultNamesRead source before head.1 middle ∧
    FromKeywordReads region source middle head.2 after

/-- An operation. -/
def OperationReads (region : RegionKind → Bool → Meaning (Region Operation)) : Meaning Operation :=
  fun source before op after => ∃ names middle, ResultNamesRead source before names middle ∧
    ∃ found last, FromKeywordReads region source middle found last ∧
    ∃ results, DefinesAll names last results after ∧
      op = .of
        { id := found.1, results, payload := found.2.2.payload, form := found.2.1,
          extra := found.2.2.extra, span := before.cursor.spanBetween after.cursor }

/-! ## Regions -/

/-- The header of a block. -/
def BlockHeaderReads (region : RegionKind → Bool → Meaning (Region Operation)) :
    Meaning BlockDraft := fun source before draft after => ∃ header,
  Grammar.blockHeader.Reads region source before header after ∧
    draft = { label := some header.1, args := header.2, start := before.cursor.peek.span.start
              headerStop := after.cursor.lastStop }

/-- Whether an operation may come next in a region. -/
def Progress.Admits (progress : Progress) (kind : RegionKind) (op : Operation) : Prop :=
  progress.current.isTerminated = false ∧ (op.isTerminator && !kind.accepts op) = false

/-- The blocks of a region up to its closing brace. -/
inductive BlocksRead (region : RegionKind → Bool → Meaning (Region Operation)) (kind : RegionKind)
    (source : List Char) : Progress → Stage → List (Block Operation) × Span → Stage → Prop where
  /-- The closing brace. -/
  | close {progress : Progress} {before : Stage} (here : before.cursor.atPunct .rightBrace = true) :
      BlocksRead region kind source progress before (progress.blocks, before.cursor.peek.span)
        before.next
  /-- The header of a block. -/
  | header {progress : Progress} {before middle after : Stage} {draft : BlockDraft}
      {found : List (Block Operation) × Span} (inside : before.cursor.atPunct .rightBrace = false)
      (more : before.cursor.atEnd = false) (starts : Cursor.startsBlock before.rest = true)
      (first : BlockHeaderReads region source before draft middle)
      (rest : BlocksRead region kind source (progress.nextLabeled draft) middle found after) :
      BlocksRead region kind source progress before found after
  /-- An operation. -/
  | operation {progress : Progress} {before middle after : Stage} {op : Operation}
      {found : List (Block Operation) × Span} (inside : before.cursor.atPunct .rightBrace = false)
      (more : before.cursor.atEnd = false) (starts : Cursor.startsBlock before.rest = false)
      (first : OperationReads region source before op middle) (admits : progress.Admits kind op)
      (rest : BlocksRead region kind source (progress.push op) middle found after) :
      BlocksRead region kind source progress before found after

/-- Whether every block ends with a terminator, or the only one is allowed not to. -/
def Terminated (implicitTerminator : Bool) (blocks : List (Block Operation)) : Prop :=
  (implicitTerminator && blocks.length == 1) = true ∨
    ∀ block ∈ blocks, block.terminator.isNone = false

/-- A region with its braces, given what is read for the regions inside it. -/
def RegionReads (inner : RegionKind → Bool → Meaning (Region Operation)) (kind : RegionKind)
    (implicitTerminator : Bool) : Meaning (Region Operation) := fun source before region after =>
  ∃ opening middle, (opening.isPunct .leftBrace = true ∧ before.Passes opening middle) ∧
    ∃ found, BlocksRead inner kind source { current := .startingAt middle.cursor.peek.span.start }
        middle found after ∧ Terminated implicitTerminator found.1 ∧
      region = { kind, blocks := found.1, scope := middle.tracker.scope,
                 span := opening.span.cover found.2 }

/-- A region in which regions nest to the given number of levels, itself included. -/
def RegionWithinReads : Nat → RegionKind → Bool → Meaning (Region Operation)
  | 0 => fun _ _ _ _ _ _ => False
  | levels + 1 => RegionReads (RegionWithinReads levels)

/-! ## Source units -/

/-- The functions and globals of a source unit. -/
inductive ItemsRead (region : RegionKind → Bool → Meaning (Region Operation)) (braced : Bool)
    (source : List Char) : Stage → List Operation → Stage → Prop where
  /-- The end of input or of the module. -/
  | nil {stage : Stage}
      (ends : (stage.cursor.atEnd || braced && stage.cursor.atPunct .rightBrace) = true) :
      ItemsRead region braced source stage [] stage
  /-- Another item. -/
  | cons {before middle after : Stage} {op : Operation} {ops : List Operation}
      (inside : (before.cursor.atEnd || braced && before.cursor.atPunct .rightBrace) = false)
      (starts : startsDeclaration before.cursor.peek = true)
      (first : OperationReads region source before op middle)
      (rest : ItemsRead region braced source middle ops after) :
      ItemsRead region braced source before (op :: ops) after

/-- The optional name of a module. -/
def UnitNameReads : Meaning (Option Lexeme) := fun _ before name after =>
  if before.cursor.atKind .symbol then
    name = some ⟨before.cursor.peek.text, before.cursor.peek.span⟩ ∧ after = before.next
  else name = none ∧ after = before

/-- The optional attributes of a module. -/
def UnitAttributesRead : Meaning (Option AttributeText) := fun source before attributes after =>
  if before.cursor.atWord "attributes" then ∃ value,
    AttributeReads .dictionary source before.next value after ∧ attributes = some value
  else attributes = none ∧ after = before

/-- The name and the attributes after the word that starts a module. -/
def UnitHeaderReads (start : Cursor) : Meaning ModuleHeader := fun source before header after =>
  ∃ name middle, UnitNameReads source before name middle ∧
    ∃ attributes, UnitAttributesRead source middle attributes after ∧
      header = { name, attributes, span := start.spanBetween after.cursor }

/-- A source unit. -/
def SourceUnitReads (region : RegionKind → Bool → Meaning (Region Operation)) :
    Meaning (Option ModuleHeader × List Operation) := fun source before found after =>
  if before.cursor.atWord "module" then ∃ header middle,
    UnitHeaderReads before.cursor source before.next header middle ∧
    ∃ brace inside, (brace.isPunct .leftBrace = true ∧ middle.Passes brace inside) ∧
    ∃ ops last, ItemsRead region true source inside ops last ∧
      last.cursor.atPunct .rightBrace = true ∧ after = last.next ∧ after.cursor.atEnd = true ∧
      found = (some header, ops)
  else ∃ ops, ItemsRead region false source before ops after ∧ found = (none, ops)

namespace Means

variable {parser : RegionKind → Bool → Parser (Region Operation)}

/-! ## Parsing operations -/

theorem resultNames : Means Parser.resultNames ResultNamesRead := by
  refine (cursor fun here => ite (fun _ => (separated (token _ (by rintro ⟨⟩))).bind fun found =>
    (punct .equal).bind fun _ => pure (found.1 :: found.2)) fun _ => pure []).congr
      fun source before names after => ?_
  unfold ResultNamesRead
  split
  · refine exists_congr fun found => exists_congr fun middle => and_congr .rfl <|
      exists_congr fun equal => ?_
    constructor
    · rintro ⟨_, passes, rfl, rfl⟩
      exact ⟨passes, rfl⟩
    · rintro ⟨passes, rfl⟩
      exact ⟨after, passes, rfl, rfl⟩
  · exact .rfl

theorem mapM_define (names : List Token) :
    Means (names.mapM (Parser.define .value)) fun _ => DefinesAll names := by
  have loop : ∀ done, Means (List.mapM.loop (Parser.define .value) names done)
      fun _ before results after => ∃ others, DefinesAll names before others after ∧
        results = done.reverse ++ others := by
    induction names with
    | nil =>
      intro done
      refine (pure done.reverse).congr fun source before results after => ?_
      constructor
      · rintro ⟨rfl, rfl⟩
        exact ⟨[], ⟨rfl, rfl⟩, (List.append_nil _).symm⟩
      · rintro ⟨_, ⟨rfl, rfl⟩, rfl⟩
        exact ⟨List.append_nil _, rfl⟩
    | cons name names ih =>
      intro done
      refine ((define .value name).bind fun defined => ih (defined :: done)).congr
        fun source before results after => ?_
      constructor
      · rintro ⟨defined, middle, defines, others, rest, rfl⟩
        refine ⟨defined :: others, ⟨defined, middle, defines, others, rest, rfl⟩, ?_⟩
        rw [List.reverse_cons, List.append_assoc, List.singleton_append]
      · rintro ⟨_, ⟨defined, middle, defines, others, rest, rfl⟩, rfl⟩
        refine ⟨defined, middle, defines, others, rest, ?_⟩
        rw [List.reverse_cons, List.append_assoc, List.singleton_append]
  refine (loop []).congr fun source before results after => ?_
  constructor
  · rintro ⟨others, defines, rfl⟩
    exact defines
  · intro defines
    exact ⟨results, defines, rfl⟩

theorem takeId : Means Parser.takeId fun _ before id after =>
    id = before.nextId ∧ after = { before with nextId := before.nextId + 1 } where
  sound _ _ _ clean := ⟨clean, fun live => ⟨live, _, rfl, rfl, rfl⟩⟩
  complete := by
    rintro _ state _ _ _ clean live _ ⟨rfl, rfl⟩
    exact ⟨_, rfl, rfl, clean, live⟩
  leads := by
    rintro _ before _ _ ⟨_, rfl⟩
    exact ⟨[], rfl⟩

theorem chooseForm (opcode : Opcode) : Means (Parser.chooseForm opcode) fun _ before form after =>
    Form.choose opcode before.cursor = .ok form ∧ after = before := by
  let chosen : Cursor → Meaning Form := fun here _ before form after =>
    Form.choose opcode here = .ok form ∧ after = before
  refine cursor (m := chosen) fun here => ?_
  simp only [chosen]
  cases Form.choose opcode here with
  | ok form =>
    refine (pure form).congr fun source before other after => ?_
    rw [Except.ok.injEq, eq_comm]
  | error what =>
    refine (wrong fun input state clean => ?_).congr fun source before other after => ?_
    · exact not_clean_error rfl clean
    · exact ⟨False.elim, by rintro ⟨⟨⟩, _⟩⟩

/-- A relation describes what a parser of regions reads. -/
def OfRegions (parser : RegionKind → Bool → Parser (Region Operation))
    (region : RegionKind → Bool → Meaning (Region Operation)) : Prop :=
  ∀ kind implicitTerminator, Means (parser kind implicitTerminator) (region kind implicitTerminator)

theorem fromKeyword (regions : OfRegions parser region) :
    Means (Parser.fromKeyword parser) (FromKeywordReads region) := by
  let body : Opcode → Meaning (Nat × Form × Body (Region Operation)) :=
    fun opcode source before found after => ∃ form, Form.choose opcode before.next.cursor =
    .ok form ∧ ∃ body, (Grammar.body opcode form).Reads region source
          { before.next with nextId := before.nextId + 1 } body after ∧
        found = (before.nextId, body.form form, body)
  let withKeyword : Cursor → Meaning (Nat × Form × Body (Region Operation)) :=
    fun start source before found after => start.peek.kind = .keyword ∧
      ∃ opcode, Opcode.ofKeyword? start.peek.text = some opcode ∧
      body opcode source before found after
  refine (cursor (fun start => ?_ : ∀ start, Means _ (withKeyword start))).congr
    fun source before found after => ?_
  · simp only [withKeyword]
    let known : Meaning (Nat × Form × Body (Region Operation)) := fun source before found after =>
      ∃ opcode, Opcode.ofKeyword? start.peek.text = some opcode ∧
        body opcode source before found after
    refine (ite (fun _ => (?_ : Means _ known)) fun _ => expected _).congr
      fun source before found after => ?_
    · simp only [known]
      cases Opcode.ofKeyword? start.peek.text with
      | none =>
        refine (wrong fun input state clean => ?_).congr fun source before found after => ?_
        · exact not_clean_error rfl clean
        · exact ⟨False.elim, by rintro ⟨_, ⟨⟩, _⟩⟩
      | some opcode =>
        refine (skip.bind fun _ => takeId.bind fun id => naming <| (chooseForm opcode).bind
          fun form => (Grammar.parse_means start regions _ (Grammar.body_steady opcode form)).1.bind
            fun body => pure (id, body.form form, body)).congr fun source before found after => ?_
        constructor
        · rintro ⟨_, _, rfl, id, _, ⟨rfl, rfl⟩, form, _, ⟨chosen, rfl⟩, inner, _, reads, rfl, rfl⟩
          exact ⟨opcode, rfl, form, chosen, inner, reads, rfl⟩
        · rintro ⟨_, ⟨⟩, form, chosen, inner, reads, rfl⟩
          exact ⟨(), _, rfl, before.nextId, _, ⟨rfl, rfl⟩, form, _, ⟨chosen, rfl⟩, inner, after,
            reads, rfl, rfl⟩
    · split
      · rename_i isKeyword
        exact ⟨fun related => ⟨beq_iff_eq.1 isKeyword, related⟩, fun related => related.2⟩
      · rename_i other
        exact ⟨False.elim, fun related => other (beq_iff_eq.2 related.1)⟩
  · have keyword : ∀ {found middle}, (before.cursor.peek.kind == .keyword) = true ∧
        found = before.cursor.peek ∧ middle = before.next ↔
          (found.kind == .keyword) = true ∧ before.Passes found middle :=
      Stage.passes_iff (·.kind == .keyword) fun _ => rfl
    simp only [withKeyword, body]
    constructor
    · rintro ⟨isKeyword, opcode, named, form, chosen, inner, reads, rfl⟩
      have passes := (keyword.1 ⟨beq_iff_eq.2 isKeyword, rfl, rfl⟩).2
      exact ⟨_, _, opcode, form, ⟨isKeyword, passes⟩, named, chosen, inner, reads, rfl⟩
    · rintro ⟨found, middle, opcode, form, ⟨isKeyword, passes⟩, named, chosen, inner, reads, rfl⟩
      obtain ⟨_, rfl, rfl⟩ := keyword.2 ⟨beq_iff_eq.2 isKeyword, passes⟩
      exact ⟨isKeyword, opcode, named, form, chosen, inner, reads, rfl⟩

theorem operationHead (regions : OfRegions parser region) :
    Means (Parser.operationHead parser) (OperationHeadReads region) := by
  refine (resultNames.bind fun names => (fromKeyword regions).bind fun read =>
    pure (names, read)).congr
    fun source before head after => ?_
  constructor
  · rintro ⟨names, middle, named, read, _, reads, rfl, rfl⟩
    exact ⟨middle, named, reads⟩
  · rintro ⟨middle, named, reads⟩
    exact ⟨head.1, middle, named, head.2, after, reads, rfl, rfl⟩

theorem operation (regions : OfRegions parser region) :
    Means (Parser.operation parser) (OperationReads region) := by
  let startingAt : Cursor → Meaning Operation := fun start source before op after =>
    ∃ names middle, ResultNamesRead source before names middle ∧
      ∃ found last, FromKeywordReads region source middle found last ∧
        ∃ results, DefinesAll names last results after ∧
          op = .of
            { id := found.1, results, payload := found.2.2.payload, form := found.2.1,
              extra := found.2.2.extra, span := start.spanBetween after.cursor }
  refine cursor (m := startingAt) fun start => resultNames.bind fun names => ?_
  refine (attempt_bind (fromKeyword regions) (fun found => (mapM_define names).bind fun results =>
    cursor fun now => pure _) ?_).congr fun source before op after => ?_
  · exact clean_of_traced ((Traced.mapM_define names).andThen fun _ _ => Traced.fail)
  · refine exists_congr fun found => exists_congr fun last => and_congr .rfl <|
      exists_congr fun results => ?_
    constructor
    · rintro ⟨_, defines, rfl, rfl⟩
      exact ⟨defines, rfl⟩
    · rintro ⟨defines, rfl⟩
      exact ⟨after, defines, rfl, rfl⟩

/-! ## Parsing regions -/

theorem blockHeader (regions : OfRegions parser region) :
    Means (Parser.blockHeader parser) (BlockHeaderReads region) := by
  let startingAt : Cursor → Meaning BlockDraft := fun start source before draft after => ∃ header,
    Grammar.blockHeader.Reads region source before header after ∧
      draft = { label := some header.1, args := header.2, start := start.peek.span.start
                headerStop := after.cursor.lastStop }
  refine cursor (m := startingAt) fun start => ?_
  refine ((Grammar.parse_means start regions _ Grammar.blockHeader_steady).1.bind fun header =>
    cursor fun now => pure _).congr fun source before draft after => ?_
  constructor
  · rintro ⟨header, _, reads, rfl, rfl⟩
    exact ⟨header, reads, rfl⟩
  · rintro ⟨header, reads, rfl⟩
    exact ⟨header, after, reads, rfl, rfl⟩

theorem place (kind : RegionKind) (progress : Progress) (op : Operation) :
    Means (Parser.place kind progress op) fun _ before placed after =>
      progress.Admits kind op ∧ placed = progress.push op ∧ after = before := by
  have wrongPlace : ∀ {next : Unit → Parser Progress},
      (∀ a, Traced (next a) fun _ _ => True) →
        Means (Parser.reportAfterTerminator kind op >>= next) fun _ _ _ _ => False :=
    fun keeps => wrong_bind (fun _ _ => not_clean_error rfl) fun a => clean_of_traced (keeps a)
  have wrongEnd : ∀ {next : Unit → Parser Progress},
      (∀ a, Traced (next a) fun _ _ => True) →
        Means (Parser.reportTerminator kind op >>= next) fun _ _ _ _ => False :=
    fun keeps => wrong_bind (fun _ _ => not_clean_error rfl) fun a => clean_of_traced (keeps a)
  have done : ∀ {Q : List Reference → Progress → Prop}, (∀ uses a, Q uses a) →
      Traced (Pure.pure (progress.push op)) Q := fun all => .pure (all _ _)
  unfold Parser.place Progress.Admits
  cases terminated : progress.current.isTerminated with
  | true =>
    refine (wrongPlace fun _ => ?_).congr fun source before placed after => ?_
    · refine .ite (fun _ => ?_) fun _ => done fun _ _ => trivial
      exact (Traced.reportTerminator kind op).andThen fun _ _ => done fun _ _ => trivial
    · exact ⟨False.elim, by rintro ⟨⟨⟨⟩, _⟩, _⟩⟩
  | false =>
    cases misplaced : op.isTerminator && !kind.accepts op with
    | true =>
      refine (wrongEnd fun _ => done fun _ _ => trivial).congr fun source before placed after => ?_
      exact ⟨False.elim, by rintro ⟨⟨_, ⟨⟩⟩, _⟩⟩
    | false =>
      refine (pure _).congr fun source before placed after => ?_
      exact ⟨fun related => ⟨⟨rfl, rfl⟩, related⟩, fun related => related.2⟩

theorem reportUnterminated (kind : RegionKind) (implicitTerminator : Bool)
    (blocks : List (Block Operation)) (closing : Span) :
    Means (Parser.reportUnterminated kind implicitTerminator blocks closing)
      fun _ before _ after => Terminated implicitTerminator blocks ∧ after = before := by
  have all : ∀ {diagnostics : Diagnostics}, (diagnostics.append <|
        (blocks.filter (·.terminator.isNone)).map (unterminatedBlock kind closing)).Clean ↔
      diagnostics.Clean ∧ ∀ block ∈ blocks, block.terminator.isNone = false := by
    intro diagnostics
    rw [Diagnostics.clean_append]
    refine and_congr .rfl ⟨fun clean block member => ?_, fun terminated diagnostic member => ?_⟩
    · by_contra unterminated
      have found : block ∈ blocks.filter (·.terminator.isNone) :=
        List.mem_filter.2 ⟨member, by simpa using unterminated⟩
      cases clean _ (List.mem_map_of_mem found)
    · obtain ⟨block, found, rfl⟩ := List.mem_map.1 member
      obtain ⟨inBlocks, unterminated⟩ := List.mem_filter.1 found
      rw [terminated block inBlocks] at unterminated
      cases unterminated
  unfold Parser.reportUnterminated Terminated
  cases implicitTerminator && blocks.length == 1 with
  | true =>
    refine (pure ()).congr fun source before _ after => ?_
    exact ⟨fun related => ⟨.inl rfl, related.2⟩, fun related => ⟨rfl, related.2⟩⟩
  | false =>
    constructor
    · intro input state _ clean
      obtain ⟨before, terminated⟩ := all.1 clean
      exact ⟨before, fun live => ⟨live, (), rfl, .inr terminated, rfl⟩⟩
    · rintro input state _ _ _ clean live _ ⟨⟨⟨⟩⟩ | terminated, rfl⟩
      exact ⟨_, rfl, rfl, all.2 ⟨clean, terminated⟩, live⟩
    · rintro _ _ _ after ⟨_, rfl⟩
      exact .refl after

/-- The next step through the blocks of a region. -/
def BlockStepReads (region : RegionKind → Bool → Meaning (Region Operation)) (kind : RegionKind)
    (progress : Progress) : Meaning (Step Progress (List (Block Operation) × Span)) :=
  fun source before outcome after =>
    if before.cursor.atPunct .rightBrace then
      outcome = .done (progress.blocks, before.cursor.peek.span) ∧ after = before.next
    else before.cursor.atEnd = false ∧
      if Cursor.startsBlock before.rest then ∃ draft,
        BlockHeaderReads region source before draft after ∧
          outcome = .again (progress.nextLabeled draft)
      else ∃ op, OperationReads region source before op after ∧ progress.Admits kind op ∧
        outcome = .again (progress.push op)

theorem blockStep (regions : OfRegions parser region) (kind : RegionKind)
    (opening : Span) (progress : Progress) :
    Means (Parser.blockStep parser kind opening progress)
      (BlockStepReads region kind progress) := by
  let stepAt : Cursor → Meaning (Step Progress (List (Block Operation) × Span)) :=
    fun start source before outcome after =>
      if start.atPunct .rightBrace then
        outcome = .done (progress.blocks, start.peek.span) ∧ after = before.next
      else start.atEnd = false ∧
        if Cursor.startsBlock start.rest then ∃ draft,
          BlockHeaderReads region source before draft after ∧
            outcome = .again (progress.nextLabeled draft)
        else ∃ op, OperationReads region source before op after ∧ progress.Admits kind op ∧
          outcome = .again (progress.push op)
  refine cursor (m := stepAt) fun start => halted ?_ fun _ _ clean => clean
  simp only [Bool.false_eq_true, if_false, stepAt]
  have resume : ∀ {start : Cursor}, Traced (skipUnit start progress) fun _ _ => True :=
    (Traced.resynchronize _).andThen fun _ _ => .pure trivial
  have header : Means (Parser.attempt (Parser.blockHeader parser) >>= afterHeader start progress)
      fun source before outcome after => ∃ draft middle,
        BlockHeaderReads region source before draft middle ∧
          outcome = .again (progress.nextLabeled draft) ∧ after = middle :=
    attempt_bind (blockHeader regions) (fun draft => pure _) (clean_of_traced resume)
  have next : Means (Parser.attempt (Parser.operation parser) >>=
      afterOperation kind start progress)
      fun source before outcome after => ∃ op middle,
        OperationReads region source before op middle ∧ ∃ placed,
          (progress.Admits kind op ∧ placed = progress.push op ∧ after = middle) ∧
            outcome = .again placed :=
    attempt_bind (operation regions) (fun op => (place kind progress op).map)
      (clean_of_traced resume)
  have unclosed : Means (do
      Parser.reportUnclosed kind opening
      (fail : Parser (Step Progress (List (Block Operation) × Span)))) fun _ _ _ _ => False :=
    wrong_bind (fun input state clean => not_clean_error rfl clean)
      fun _ => clean_of_traced Traced.fail
  refine (ite (fun _ => skip.bind fun _ => pure _) fun _ => ite (fun _ => unclosed) fun _ =>
    ite (fun _ => header) fun _ => next).congr fun source before outcome after => ?_
  split
  · constructor
    · rintro ⟨_, _, rfl, same, rfl⟩
      exact ⟨same, rfl⟩
    · rintro ⟨same, rfl⟩
      exact ⟨(), _, rfl, same, rfl⟩
  · split
    · rename_i ends
      rw [ends]
      exact ⟨False.elim, by rintro ⟨⟨⟩, _⟩⟩
    · rename_i more
      rw [Bool.eq_false_iff.2 more, eq_self, true_and]
      split
      · constructor
        · rintro ⟨draft, _, reads, rfl, rfl⟩
          exact ⟨draft, reads, rfl⟩
        · rintro ⟨draft, reads, rfl⟩
          exact ⟨draft, after, reads, rfl, rfl⟩
      · constructor
        · rintro ⟨op, _, reads, _, ⟨admits, rfl, rfl⟩, rfl⟩
          exact ⟨op, reads, admits, rfl⟩
        · rintro ⟨op, reads, admits, rfl⟩
          exact ⟨op, after, reads, _, ⟨admits, rfl, rfl⟩, rfl⟩

theorem progresses_blockHeader (regions : OfRegions parser region) :
    (BlockHeaderReads region).Progresses := by
  rintro source before draft after ⟨header, reads, _⟩
  exact (Grammar.parse_means before.cursor regions _ Grammar.blockHeader_steady).2 rfl _ _ _ _ reads

theorem leads_resultNames {source : List Char} {before after : Stage} {names : List Token}
    (reads : ResultNamesRead source before names after) : before.Leads after :=
  resultNames.leads _ _ _ _ reads

theorem progresses_operationHead (regions : OfRegions parser region) :
    (OperationHeadReads region).Progresses := by
  rintro source before head after ⟨middle, named, reads⟩
  obtain ⟨keyword, inner, opcode, form, ⟨_, passes⟩, _, _, body, reads, _⟩ := reads
  have bodyLeads := (Grammar.parse_means before.cursor regions _
    (Grammar.body_steady opcode form)).1.leads _ _ _ _ reads
  have shorter : inner.rest.length < middle.rest.length := Grammar.progresses_passes passes
  have body_le : after.rest.length ≤ inner.rest.length := bodyLeads.length_le
  have start_le := (leads_resultNames named).length_le
  omega

theorem progresses_operation (regions : OfRegions parser region) :
    (OperationReads region).Progresses := by
  rintro source before op after ⟨names, middle, named, found, last, reads, results, defines, _⟩
  have head := progresses_operationHead regions source before (names, found) last
    ⟨middle, named, reads⟩
  have end_le := ((mapM_define names).leads source _ _ _ defines).length_le
  omega

/-- A step through the blocks of a region after which there is another one consumes tokens. -/
theorem progresses_blockStep (regions : OfRegions parser region) {kind : RegionKind}
    {progress next : Progress}
    {source : List Char} {before after : Stage}
    (step : BlockStepReads region kind progress source before (.again next) after) :
    after.rest.length < before.rest.length := by
  unfold BlockStepReads at step
  split at step
  · cases step.1
  · obtain ⟨_, step⟩ := step
    split at step
    · obtain ⟨draft, reads, _⟩ := step
      exact progresses_blockHeader regions _ _ _ _ reads
    · obtain ⟨op, reads, _⟩ := step
      exact progresses_operation regions _ _ _ _ reads

/-- The steps through the blocks of a region lead to its closing brace. -/
theorem loop_blocksRead {kind : RegionKind} {source : List Char} {progress : Progress}
    {before after : Stage} {found : List (Block Operation) × Span} :
    Loop (BlockStepReads region kind) source progress before found after ↔
      BlocksRead region kind source progress before found after := by
  constructor
  · intro runs
    induction runs with
    | done last =>
      unfold BlockStepReads at last
      split at last
      · rename_i here
        obtain ⟨⟨⟩, rfl⟩ := last
        exact .close here
      · obtain ⟨_, last⟩ := last
        split at last
        · obtain ⟨_, _, ⟨⟩⟩ := last
        · obtain ⟨_, _, _, ⟨⟩⟩ := last
    | again first rest ih =>
      unfold BlockStepReads at first
      split at first
      · cases first.1
      · rename_i inside
        obtain ⟨more, first⟩ := first
        split at first
        · rename_i starts
          obtain ⟨draft, reads, ⟨⟩⟩ := first
          exact .header (Bool.eq_false_iff.2 inside) more starts reads ih
        · rename_i starts
          obtain ⟨op, reads, admits, ⟨⟩⟩ := first
          exact .operation (Bool.eq_false_iff.2 inside) more (Bool.eq_false_iff.2 starts) reads
            admits ih
  · intro reads
    induction reads with
    | @close progress before here =>
      apply Loop.done
      simp only [BlockStepReads, here, if_true, and_self]
    | @header progress before middle after draft found inside more starts first rest ih =>
      refine .again ?_ ih
      simp only [BlockStepReads, inside, more, starts, Bool.false_eq_true, if_false,
        if_true, true_and]
      exact ⟨draft, first, rfl⟩
    | @operation progress before middle after op found inside more starts first admits rest ih =>
      refine .again ?_ ih
      simp only [BlockStepReads, inside, more, starts, Bool.false_eq_true, if_false, true_and]
      exact ⟨op, first, admits, rfl⟩

theorem blocks (regions : OfRegions parser region) (kind : RegionKind)
    (implicitTerminator : Bool) (opening : Span) :
    Means (Parser.blocks parser kind implicitTerminator opening) fun source before inside after =>
      ∃ found, BlocksRead region kind source
        { current := .startingAt before.cursor.peek.span.start }
          before found after ∧ Terminated implicitTerminator found.1 ∧
        inside = { kind, blocks := found.1, scope := before.tracker.scope,
                   span := opening.cover found.2 } := by
  let fromScope : ScopeId → Token → Meaning (Region Operation) :=
    fun scope first source before inside after => ∃ found,
      BlocksRead region kind source { current := .startingAt first.span.start } before found after ∧
        Terminated implicitTerminator found.1 ∧
          inside = { kind, blocks := found.1, scope, span := opening.cover found.2 }
  refine scope (m := fun id source before => fromScope id before.cursor.peek source before)
    fun id => peek (m := fromScope id) fun first => ?_
  refine ((iterate (blockStep regions kind opening) (progresses_blockStep regions) _).bind
    fun found =>
    (reportUnterminated kind implicitTerminator found.1 found.2).bind fun _ => pure _).congr
      fun source before inside after => ?_
  constructor
  · rintro ⟨found, middle, runs, _, _, ⟨terminated, rfl⟩, rfl, rfl⟩
    exact ⟨found, loop_blocksRead.1 runs, terminated, rfl⟩
  · rintro ⟨found, reads, terminated, rfl⟩
    exact ⟨found, after, loop_blocksRead.2 reads, (), after, ⟨terminated, rfl⟩, rfl, rfl⟩

theorem regionWithin (levels : Nat) :
    OfRegions (Parser.regionWithin levels) (RegionWithinReads levels) := by
  induction levels with
  | zero =>
    intro kind implicitTerminator
    exact checkHalted (wrong fun _ _ => not_clean_error rfl) (clean_of_traced Traced.fail)
  | succ levels ih =>
    intro kind implicitTerminator
    refine checkHalted (((punct .leftBrace).bind fun opening =>
      blocks ih kind implicitTerminator opening.span).congr
        fun source before inside after => ?_) (clean_of_traced Traced.fail)
    exact .rfl

/-! ## Parsing source units -/

theorem declaration (regions : OfRegions parser region) :
    Means (Parser.declaration parser) fun source before op after =>
      startsDeclaration before.cursor.peek = true ∧
        OperationReads region source before op after := by
  let fromToken : Token → Meaning Operation := fun first source before op after =>
    startsDeclaration first = true ∧ OperationReads region source before op after
  refine peek (m := fromToken) fun first => ?_
  refine (ite (fun _ => operation regions) fun _ => expected _).congr
    fun source before op after => ?_
  split
  · rename_i starts
    exact ⟨fun reads => ⟨starts, reads⟩, fun reads => reads.2⟩
  · rename_i other
    exact ⟨False.elim, fun reads => other reads.1⟩

theorem items (regions : OfRegions parser region) (braced : Bool) :
    Means (Parser.items parser braced) (ItemsRead region braced) := by
  let stepAt : Cursor → Meaning (Option Operation × Bool) :=
    fun start source before outcome after =>
    if start.atEnd || braced && start.atPunct .rightBrace then
      outcome = (none, false) ∧ after = before
    else ∃ op middle, (startsDeclaration before.cursor.peek = true ∧
      OperationReads region source before op middle) ∧ outcome = (some op, true) ∧ after = middle
  let step : Meaning (Option Operation × Bool) := fun source before =>
    stepAt before.cursor source before
  have resume : ∀ {start : Cursor}, Traced (afterItem start none) fun _ _ => True :=
    (Traced.resynchronize _).andThen fun _ _ => .look fun _ => .pure trivial
  have item : ∀ start : Cursor,
      Means (Parser.attempt (Parser.declaration parser) >>= afterItem start)
      fun source before outcome after =>
        ∃ op middle, (startsDeclaration before.cursor.peek = true ∧
          OperationReads region source before op middle) ∧ outcome = (some op, true) ∧
            after = middle :=
    fun start => attempt_bind (declaration regions) (fun op => pure _) (clean_of_traced resume)
  have steps : Means (itemStep parser braced) step := by
    refine checkHalted (cursor (m := stepAt) fun start => ?_) fun _ _ clean => clean
    refine (ite (fun _ => pure (none, false)) fun _ => item start).congr
      fun source before outcome after => ?_
    simp only [stepAt, Bool.false_or]
    split <;> exact .rfl
  have progress : ∀ {source before found after}, step source before (found, true) after →
      after.rest.length < before.rest.length := by
    intro source before found after related
    simp only [step, stepAt] at related
    split at related
    · cases related.1
    · obtain ⟨op, middle, ⟨_, reads⟩, _, rfl⟩ := related
      exact progresses_operation regions _ _ _ _ reads
  refine (collect steps progress).congr fun source before ops after => ?_
  constructor
  · intro runs
    induction runs with
    | done last =>
      simp only [step, stepAt] at last
      split at last
      · rename_i ends
        obtain ⟨⟨⟩, rfl⟩ := last
        exact .nil ends
      · obtain ⟨_, _, _, ⟨⟩, _⟩ := last
    | again first rest ih =>
      simp only [step, stepAt] at first
      split at first
      · cases first.1
      · rename_i inside
        obtain ⟨op, middle, ⟨starts, reads⟩, ⟨⟩, rfl⟩ := first
        exact .cons (Bool.eq_false_iff.2 inside) starts reads ih
  · intro reads
    induction reads with
    | @nil stage ends =>
      have last : step source stage (none, false) stage := by
        simp only [step, stepAt, ends, if_true, and_self]
      exact .done last
    | @cons before middle after op ops inside starts first rest ih =>
      have first : step source before (some op, true) middle := by
        simp only [step, stepAt, inside, Bool.false_eq_true, if_false]
        exact ⟨op, middle, ⟨starts, first⟩, rfl, rfl⟩
      exact .again first ih

theorem unitHeader (start : Cursor) : Means (Parser.unitHeader start) (UnitHeaderReads start) := by
  let ending : Option Lexeme → Option AttributeText → Meaning ModuleHeader :=
    fun name attributes _ before header after =>
      header = { name, attributes, span := start.spanBetween before.cursor } ∧ after = before
  have last : ∀ name attributes, Means (do
      Pure.pure (ModuleHeader.mk name attributes (start.spanBetween (← Parser.cursor))))
        (ending name attributes) := by
    intro name attributes
    let now : Cursor → Meaning ModuleHeader := fun here _ before header after =>
      header = { name, attributes, span := start.spanBetween here } ∧ after = before
    exact cursor (m := now) fun here => pure _
  have named : ∀ name : Option Lexeme, Means (do
      let attributes ←
        if (← Parser.cursor).atWord "attributes" then do
          Parser.skip
          Parser.attempt (Parser.attributeOf .dictionary)
        else
          Pure.pure none
      Pure.pure (ModuleHeader.mk name attributes (start.spanBetween (← Parser.cursor))))
        fun source before header after => ∃ attributes,
          UnitAttributesRead source before attributes after ∧
            header = { name, attributes, span := start.spanBetween after.cursor } := by
    intro name
    refine (cursor fun here => ite (fun _ => skip.bind fun _ =>
      (attributeReads .dictionary).attempt.bind fun attributes => last name attributes)
        fun _ => (pure none).bind fun attributes => last name attributes).congr
          fun source before header after => ?_
    simp only [UnitAttributesRead, ending]
    split
    · constructor
      · rintro ⟨_, _, rfl, _, _, ⟨value, rfl, reads⟩, rfl, rfl⟩
        exact ⟨_, ⟨value, reads, rfl⟩, rfl⟩
      · rintro ⟨_, ⟨value, reads, rfl⟩, rfl⟩
        exact ⟨(), _, rfl, _, after, ⟨value, rfl, reads⟩, rfl, rfl⟩
    · constructor
      · rintro ⟨_, _, ⟨rfl, rfl⟩, rfl, rfl⟩
        exact ⟨none, ⟨rfl, rfl⟩, rfl⟩
      · rintro ⟨_, ⟨rfl, rfl⟩, rfl⟩
        exact ⟨none, _, ⟨rfl, rfl⟩, rfl, rfl⟩
  let startingAt : Cursor → Meaning ModuleHeader := fun here source before header after =>
    ∃ name middle, (if here.atKind .symbol then
        name = some ⟨here.peek.text, here.peek.span⟩ ∧ middle = before.next
      else name = none ∧ middle = before) ∧
      ∃ attributes, UnitAttributesRead source middle attributes after ∧
        header = { name, attributes, span := start.spanBetween after.cursor }
  refine cursor (m := startingAt) fun here => ?_
  refine (ite (fun _ => skip.bind fun _ =>
    (pure (some ⟨here.peek.text, here.peek.span⟩)).bind named)
    fun _ => (pure none).bind named).congr fun source before header after => ?_
  simp only [startingAt]
  split
  · constructor
    · rintro ⟨_, _, rfl, name, middle, ⟨rfl, rfl⟩, rest⟩
      exact ⟨_, _, ⟨rfl, rfl⟩, rest⟩
    · rintro ⟨_, _, ⟨rfl, rfl⟩, rest⟩
      exact ⟨(), _, rfl, _, _, ⟨rfl, rfl⟩, rest⟩
  · exact .rfl

theorem moduleEnd (opening : Token) : Means (Parser.moduleEnd opening) fun _ before _ after =>
    before.cursor.atPunct .rightBrace = true ∧ after = before.next ∧ after.cursor.atEnd = true := by
  let ending : Cursor → Meaning Unit :=
    fun here _ before _ after => here.atPunct .rightBrace = true ∧
    after = before.next ∧ after.cursor.atEnd = true
  let last : Cursor → Meaning Unit := fun here _ before _ after =>
    here.atEnd = true ∧ after = before
  refine cursor (m := ending) fun here => ?_
  refine (ite (fun _ => skip.bind fun _ => cursor (m := last) fun now =>
    (ite (fun _ => reportExpected _) fun _ => pure ()).congr fun source before _ after => ?_)
      fun _ => report rfl).congr fun source before _ after => ?_
  · simp only [last]
    split
    · rename_i more
      refine ⟨False.elim, ?_⟩
      rintro ⟨ends, _⟩
      rw [ends] at more
      cases more
    · rename_i ends
      have atEnd : now.atEnd = true := by simpa using ends
      exact ⟨fun related => ⟨atEnd, related.2⟩, fun related => ⟨trivial, related.2⟩⟩
  · simp only [ending, last]
    split
    · rename_i here
      constructor
      · rintro ⟨_, _, rfl, atEnd, rfl⟩
        exact ⟨here, rfl, atEnd⟩
      · rintro ⟨_, rfl, atEnd⟩
        exact ⟨(), _, rfl, atEnd, rfl⟩
    · rename_i absent
      exact ⟨False.elim, fun related => absent related.1⟩

theorem sourceUnit (regions : OfRegions parser region) (traced : Traced.Regions parser) :
    Means (Parser.sourceUnit parser) (SourceUnitReads region) := by
  let startingAt : Cursor → Meaning (Option ModuleHeader × List Operation) :=
    fun start source before found after =>
      if start.atWord "module" then ∃ header middle,
        UnitHeaderReads start source before.next header middle ∧
        ∃ brace inside, (brace.isPunct .leftBrace = true ∧ middle.Passes brace inside) ∧
        ∃ ops last, ItemsRead region true source inside ops last ∧
          last.cursor.atPunct .rightBrace = true ∧ after = last.next ∧ after.cursor.atEnd = true ∧
          found = (some header, ops)
      else ∃ ops, ItemsRead region false source before ops after ∧ found = (none, ops)
  refine cursor (m := startingAt) fun start => ?_
  refine (ite (fun _ => skip.bind fun _ => (unitHeader start).bind fun header =>
    attempt_bind (punct .leftBrace) (fun brace => (items regions true).bind fun ops => halted
      ((moduleEnd brace).bind fun _ => pure (some header, ops)) fun _ _ clean => clean)
        (clean_of_traced ?_)) fun _ => (items regions false).bind fun ops => pure (none, ops)).congr
          fun source before found after => ?_
  · exact (Traced.items traced false).weaken.andThen fun _ _ => .pure trivial
  · simp only [startingAt]
    split
    · constructor
      · rintro ⟨_, _, rfl, header, middle, named, brace, inside, passes, ops, last, reads, _, _,
          ⟨here, rfl, ends⟩, rfl, rfl⟩
        exact ⟨header, middle, named, brace, inside, passes, ops, last, reads, here, rfl, ends, rfl⟩
      · rintro ⟨header, middle, named, brace, inside, passes, ops, last, reads,
          here, rfl, ends, rfl⟩
        exact ⟨(), _, rfl, header, middle, named, brace, inside, passes, ops, last, reads, (), _,
          ⟨here, rfl, ends⟩, rfl, rfl⟩
    · constructor
      · rintro ⟨ops, _, reads, rfl, rfl⟩
        exact ⟨ops, reads, rfl⟩
      · rintro ⟨ops, reads, rfl⟩
        exact ⟨ops, after, reads, rfl, rfl⟩

end Means

/-! ## Parsing source texts -/

/-- The stage at which a source text starts. -/
def Stage.atStart (source : String) : Stage :=
  ⟨.ofTokenized (tokenize source) 0, .start, 0⟩

/-- Whether a source text is read as a header and items, after which the tracker gives a table in
which all names are resolved. -/
def SourceReads (maxDepth : Nat) (source : String) (header : Option ModuleHeader)
    (items : List Operation) (symbols : SymbolTable) : Prop :=
  (tokenize source).errors = [] ∧ ∃ after, SourceUnitReads (RegionWithinReads maxDepth)
    source.toList (Stage.atStart source) (header, items) after ∧ after.tracker.finish =
    (symbols, [])

/-- The diagnostics at the start are the errors of the lexer. -/
theorem clean_initial (source : String) :
    (initial (tokenize source)).diagnostics.Clean ↔ (tokenize source).errors = [] := by
  rw [initial, Diagnostics.clean_append, List.forall_mem_map]
  constructor
  · rintro ⟨_, none⟩
    apply List.eq_nil_iff_forall_not_mem.2
    intro error member
    cases none error member
  · intro empty
    rw [empty]
    exact ⟨by rintro _ ⟨⟨⟩⟩, by rintro _ ⟨⟩⟩

end Parser

open CirText.Parser

theorem Parsed.hasErrors_eq_false {parsed : Parsed} :
    parsed.hasErrors = false ↔ ∀ diagnostic ∈ parsed.diagnostics, diagnostic.isError = false := by
  rw [hasErrors, List.any_eq_false]
  simp only [Bool.not_eq_true]

theorem parse_hasErrors (source : String) (options : Options) (adapters : Adapters) :
    (parse source options adapters).hasErrors = false ↔
      (Parser.run source options adapters).2.diagnostics.Clean ∧
        (Parser.run source options adapters).2.tracker.finish.2 = [] := by
  let final := (Parser.run source options adapters).2
  have diagnostics : (parse source options adapters).diagnostics =
      (final.diagnostics.append (final.tracker.finish.2.map .ofUnresolved)).sorted := rfl
  have sorted : ∀ {all : Diagnostics},
      (∀ diagnostic ∈ all.sorted, diagnostic.isError = false) ↔ all.Clean := by
    intro all
    simp only [Diagnostics.sorted, List.mem_mergeSort, Diagnostics.Clean]
  rw [Parsed.hasErrors_eq_false, diagnostics, sorted, Diagnostics.clean_append, List.forall_mem_map]
  refine and_congr .rfl ⟨fun none => ?_, fun empty => ?_⟩
  · apply List.eq_nil_iff_forall_not_mem.2
    intro verdict member
    cases none verdict member
  · rw [empty]
    rintro _ ⟨⟩

theorem run_means (options : Options) :
    Means (sourceUnit (regionWithin options.maxDepth))
      (SourceUnitReads (RegionWithinReads options.maxDepth)) :=
  Means.sourceUnit (Means.regionWithin options.maxDepth) (Traced.regionWithin options.maxDepth)

/-- What is parsed without errors is read. -/
theorem parse_reads {source : String} {options : Options}
    (clean : (parse source options).hasErrors = false) :
    SourceReads options.maxDepth source (parse source options).unit.header
      (parse source options).unit.items (parse source options).unit.symbols := by
  obtain ⟨clean, resolved⟩ := (parse_hasErrors source options .structural).1 clean
  obtain ⟨initially, given⟩ := (run_means options).sound _ _ rfl clean
  obtain ⟨_, found, outcome, reads⟩ := given rfl
  have header : (parse source options).unit.header = found.1 := by
    change ((Parser.run source options).1.getD (none, [])).1 = _
    rw [Parser.run, outcome, Option.getD_some]
  have items : (parse source options).unit.items = found.2 := by
    change ((Parser.run source options).1.getD (none, [])).2 = _
    rw [Parser.run, outcome, Option.getD_some]
  rw [header, items]
  exact ⟨(clean_initial source).1 initially, _, reads, Prod.ext rfl resolved⟩

/-- What is read is parsed without errors, unless parsing is cancelled. -/
theorem parse_of_reads {source : String} {options : Options} {header : Option ModuleHeader}
    {items : List Operation} {symbols : SymbolTable}
    (never : ∀ types attributes, options.cancellation.isSet types attributes = false)
    (reads : SourceReads options.maxDepth source header items symbols) :
    (parse source options).hasErrors = false ∧
      (parse source options).unit = ⟨options.sourceId, header, items, symbols⟩ := by
  obtain ⟨noErrors, after, reads, finished⟩ := reads
  obtain ⟨final, run, rfl, clean, _⟩ := (run_means options).complete
    ⟨source.toList, options, .structural⟩ (initial (tokenize source)) (header, items) after
      rfl ((clean_initial source).2 noErrors) rfl never reads
  have ran : Parser.run source options = (some (header, items), final) := run
  rw [stage_tracker] at finished
  rw [parse_hasErrors, parse, ran]
  dsimp only
  rw [finished]
  exact ⟨⟨clean, rfl⟩, rfl⟩

end CirText
