import CirText.Proofs.Grammar.Mentions
import CirText.Proofs.Grammar.Parting
import CirText.Proofs.Parser.Headway

/-!
# Operations and regions of texts that part

What is read of an operation, of a block or of a region before two source texts part is read in both
of them. Where they part right behind an operation, it must not matter whether a value comes next.
-/

namespace CirText

open CirText.Parser

/-- Whether the operation reserves a stack slot with nothing but the types. -/
def Operation.isBareSlot (op : Operation) : Bool :=
  Body.isBareSlot ⟨op.payload, op.extra⟩

/-- The keyword of an operation that does not end its block is not one that always does. -/
theorem Operation.isTerminator_opcode {node : Node (Region Operation)}
    (goesOn : (Operation.of node).isTerminator = false) :
    node.payload.opcode.isTerminator = false := by
  simp only [Operation.isTerminator, Node.isTerminator] at goesOn
  split at goesOn
  · cases goesOn
  · exact goesOn

namespace Fork

variable {fork : Fork} {parser : RegionKind → Bool → Parser (Region Operation)}
  {region : RegionKind → Bool → Meaning (Region Operation)} {before after stage twin : Stage}
  {taken left : List Token}

/-! ## Forms -/

/-- Where an operation is written in one of several forms, something follows its keyword. -/
theorem only_or_consumes {R : Type} (opcode : Opcode) (form : Form) :
    Form.ruleOf opcode = .only ∨ (Grammar.body (R := R) opcode form).consumes = true := by
  cases opcode <;> first | exact .inl rfl | exact .inr (by cases form <;> rfl)

/-- The form of an operation is the same in both texts. -/
theorem choose_eq (abreast : fork.Abreast taken stage twin) (opcode : Opcode)
    (decided : Form.ruleOf opcode = .only ∨ taken ≠ []) :
    Form.choose opcode twin.cursor = Form.choose opcode stage.cursor := by
  unfold Form.choose
  rcases decided with only | shared
  · rw [only]
    rfl
  · cases taken with
    | nil => exact absurd rfl shared
    | cons token taken =>
      obtain ⟨here, there⟩ := abreast.peek_eq
      have second : ∀ cursor : Cursor, ∀ rest, cursor.rest = token :: rest →
          cursor.peekAt 1 = cursor.next.peek := by
        intro cursor rest more
        rw [Cursor.peekAt, Cursor.peek, Cursor.next, more]
        cases rest <;> rfl
      have marks : ∀ mark, mark ≠ .rightBrace →
          (twin.cursor.peekAt 1).isPunct mark = (stage.cursor.peekAt 1).isPunct mark := by
        intro mark other
        rw [second _ _ abreast.rest_eq.1, second _ _ abreast.rest_eq.2]
        exact abreast.next.atPunct_eq mark other
      have words : ∀ text, (twin.cursor.peekAt 1).isWord text =
          (stage.cursor.peekAt 1).isWord text := by
        intro text
        rw [second _ _ abreast.rest_eq.1, second _ _ abreast.rest_eq.2]
        exact abreast.next.atWord_eq text
      unfold Form.Rule.choose
      simp only [here, there, marks .comma (by decide), marks .less (by decide), words,
        Token.isAttributeAlias]

/-! ## Operations -/

theorem definesAll (abreast : fork.Abreast taken before twin) {names : List Token}
    {results : List Definition} (defines : DefinesAll names before results after)
    (rest : after.rest = left ++ fork.behind) :
    ∃ last, DefinesAll names twin results last ∧ fork.Abreast left after last := by
  induction names generalizing before twin taken results with
  | nil =>
    obtain ⟨rfl, rfl⟩ := defines
    obtain rfl := abreast.left_unique rest
    exact ⟨twin, ⟨rfl, rfl⟩, abreast⟩
  | cons name names ih =>
    obtain ⟨defined, middle, first, others, defines, rfl⟩ := defines
    have toAfter : middle.Leads after := (Means.mapM_define names).leads fork.source _ _ _ defines
    obtain ⟨more, restMiddle, _⟩ := left_of_leads toAfter rest
    obtain ⟨between, again, midway⟩ := abreast.defines first restMiddle
    obtain ⟨last, othersAgain, done⟩ := ih midway defines
    exact ⟨last, ⟨defined, between, again, others, othersAgain, rfl⟩, done⟩

/-- The names before an operation are the same in both texts. -/
theorem resultNames (abreast : fork.Abreast taken before twin) {names : List Token}
    (reads : ResultNamesRead fork.source before names after)
    (rest : after.rest = left ++ fork.behind) (shared : left ≠ []) :
    ∃ last, ResultNamesRead fork.other twin names last ∧ fork.Abreast left after last := by
  obtain ⟨more, restBefore, parts⟩ := left_of_leads (Means.resultNames.leads _ _ _ _ reads) rest
  obtain rfl := abreast.left_unique restBefore
  have same := abreast.holds_eq (.kind .value) fun parted => absurd (parts parted) shared
  have same : twin.cursor.atKind .value = before.cursor.atKind .value := same
  unfold ResultNamesRead at reads ⊢
  simp only [same]
  split at reads
  · rename_i here
    simp only [if_pos here]
    obtain ⟨found, middle, readsNames, equal, ⟨isEqual, passes⟩, rfl⟩ := reads
    have restMiddle : middle.rest = (equal :: left) ++ fork.behind := by
      rw [passes.1, rest, List.cons_append]
    have name : Means (Parser.token .value "a result name") fun _ before name after =>
        name.kind = .value ∧ before.Passes name after := Means.token _ (by rintro ⟨⟩)
    have persists : fork.Persists (fun _ before name after =>
        name.kind = .value ∧ before.Passes name after) True := by
      rintro before after twin name taken left ⟨isValue, passes⟩ abreast rest _
      obtain ⟨last, again, done⟩ := abreast.passes passes rest
      exact ⟨last, ⟨isValue, again⟩, done⟩
    obtain ⟨between, again, midway⟩ :=
      Persists.separated name persists readsNames abreast restMiddle fun _ => trivial
    obtain ⟨last, passesAgain, done⟩ := midway.passes passes rest
    exact ⟨last, ⟨found, between, again, equal, ⟨isEqual, passesAgain⟩, rfl⟩, done⟩
  · rename_i absent
    simp only [if_neg absent]
    obtain ⟨rfl, rfl⟩ := reads
    obtain rfl := abreast.left_unique rest
    exact ⟨twin, ⟨rfl, rfl⟩, abreast⟩

/-- Where a value comes, the texts part behind an operation. -/
theorem follows_of_meetsValue (meets : fork.MeetsValue) : FollowsOperation fork.behind := by
  cases fork.turns with
  | operation here _ => exact here
  | brace _ there =>
    unfold MeetsValue at meets
    match rest : fork.beyond, meets, there with
    | token :: _, meets, there =>
      have kind : token.kind = .value := Option.some.inj meets
      rw [Reader.startsWith, Token.isPunct, kind] at there
      cases there

variable (regions : Means.OfRegions parser region)
  (inner : ∀ kind implicitTerminator, fork.Persists (region kind implicitTerminator) True)

include regions inner

/-- What follows the keyword of an operation is the same in both texts. -/
theorem body {opcode : Opcode} {form : Form} {b : Body (Region Operation)}
    (reads : (Grammar.body opcode form).Reads region fork.source before b after)
    (abreast : fork.Abreast taken before twin) (rest : after.rest = left ++ fork.behind)
    (goesOn : left = [] → fork.MeetsValue → opcode.isTerminator = false)
    (noBare : left = [] → fork.MeetsValue → b.isBareSlot = false) :
    ∃ last, (Grammar.body opcode form).Reads region fork.other twin b last ∧
      fork.Abreast left after last := by
  have steady := Grammar.body_steady (R := Region Operation) opcode form
  have anchored := Grammar.body_anchored (R := Region Operation) opcode form
  by_cases meets : fork.MeetsValue
  · by_cases isSlot : opcode = .alloca
    · subst isSlot
      exact alloca_persists regions inner reads abreast rest (follows_of_meetsValue meets)
        fun parted => noBare parted meets
    · refine reads_persists regions inner (fun _ => rfl) _ steady anchored reads abreast rest
        fun parted => .inr (Grammar.body_tame opcode form ?_)
      have goesOn := goesOn parted meets
      intro member
      simp only [List.mem_cons, List.not_mem_nil, or_false] at member
      rcases member with rfl | rfl | rfl | rfl
      · exact isSlot rfl
      all_goals cases goesOn
  · exact reads_persists regions inner (fun value => absurd value meets) _ steady anchored
      reads abreast rest fun _ => .inr (Grammar.body_tame_values opcode form)

/-- Up to where its results are defined, an operation is the same in both texts. If the name of a
value comes right behind that in the second one, it must not end its block, and it must not be a
bare stack slot. -/
theorem operationHead {head : List Token × Nat × Form × Body (Region Operation)}
    (reads : OperationHeadReads region fork.source before head after)
    (abreast : fork.Abreast taken before twin) (rest : after.rest = left ++ fork.behind)
    (goesOn : left = [] → fork.MeetsValue → head.2.2.2.payload.opcode.isTerminator = false)
    (noBare : left = [] → fork.MeetsValue → head.2.2.2.isBareSlot = false) :
    ∃ last, OperationHeadReads region fork.other twin head last ∧ fork.Abreast left after last := by
  obtain ⟨names, id, found, b⟩ := head
  obtain ⟨start, named, readsKeyword⟩ := reads
  obtain ⟨token, middle, opcode, form, ⟨isKeyword, passes⟩, isNamed, chosen, b, readsBody, same⟩ :=
    readsKeyword
  obtain ⟨rfl, rfl, rfl⟩ : id = middle.nextId ∧ found = b.form form ∧ _ = b := by simpa using same
  have opcode_eq : b.payload.opcode = opcode :=
    (Grammar.body_describes opcode form).opcode _ readsBody.builds
  have toAfter : Stage.Leads { middle with nextId := middle.nextId + 1 } after :=
    (Grammar.parse_means ⟨[], 0, none, 0⟩ regions _ (Grammar.body_steady opcode form)).1.leads
    _ _ _ _ readsBody
  obtain ⟨more, restMiddle, _⟩ := left_of_leads toAfter rest
  have restMiddle : middle.rest = more ++ fork.behind := restMiddle
  have restStart : start.rest = (token :: more) ++ fork.behind := by
    rw [passes.1, restMiddle, List.cons_append]
  obtain ⟨one, namedAgain, begun⟩ := resultNames abreast named restStart (List.cons_ne_nil _ _)
  obtain ⟨two, passesAgain, past⟩ := begun.passes passes restMiddle
  have counted : fork.Abreast more { middle with nextId := middle.nextId + 1 }
      { two with nextId := two.nextId + 1 } :=
    { past with nextId := congrArg (· + 1) past.nextId }
  have decided : Form.ruleOf opcode = .only ∨ more ≠ [] := by
    rcases only_or_consumes (R := Region Operation) opcode form with only | consumes
    · exact .inl only
    · have progresses := (Grammar.parse_means ⟨[], 0, none, 0⟩ regions _
        (Grammar.body_steady opcode form)).2 consumes _ _ _ _ readsBody
      exact .inr (counted.ne_nil rest progresses)
  have isOpen : left = [] → fork.MeetsValue → opcode.isTerminator = false := by
    intro parted meets
    rw [← opcode_eq]
    exact goesOn parted meets
  obtain ⟨last, bodyAgain, done⟩ := body regions inner readsBody counted rest isOpen noBare
  refine ⟨last, ⟨one, namedAgain, token, two, opcode, form, ⟨isKeyword, passesAgain⟩, isNamed, ?_,
    b, bodyAgain, ?_⟩, done⟩
  · rw [choose_eq past opcode decided, chosen]
  · rw [past.nextId]

/-- An operation is the same in both texts. If the name of a value comes behind it in the second
one, it must not end its block, and it must not be a bare stack slot. -/
theorem operation {op : Operation} (reads : OperationReads region fork.source before op after)
    (abreast : fork.Abreast taken before twin) (rest : after.rest = left ++ fork.behind)
    (goesOn : left = [] → fork.MeetsValue → op.isTerminator = false)
    (noBare : left = [] → fork.MeetsValue → op.isBareSlot = false) :
    ∃ last, OperationReads region fork.other twin op last ∧ fork.Abreast left after last := by
  have shared : taken ≠ [] := abreast.ne_nil rest (Means.progresses_operation regions _ _ _ _ reads)
  obtain ⟨names, start, named, read, inside, readsKeyword, results, defines, rfl⟩ := reads
  have toAfter : inside.Leads after := (Means.mapM_define names).leads fork.source _ _ _ defines
  obtain ⟨later, restInside, parts⟩ := left_of_leads toAfter rest
  have head : OperationHeadReads region fork.source before (names, read) inside :=
    ⟨start, named, readsKeyword⟩
  obtain ⟨middle, ⟨one, namedAgain, keywordAgain⟩, outside⟩ :=
    operationHead regions inner head abreast restInside
      (fun parted meets => Operation.isTerminator_opcode (goesOn (parts parted) meets))
      fun parted => noBare (parts parted)
  obtain ⟨last, definesAgain, done⟩ := definesAll outside defines rest
  refine ⟨last, ⟨names, one, namedAgain, read, middle, keywordAgain, results, definesAgain, ?_⟩,
    done⟩
  rw [abreast.spanBetween_eq shared done]

/-! ## Regions -/

omit regions inner in
/-- Whether parentheses are closed in front of a colon is decided before a brace. -/
theorem closesBeforeColon_append {tokens : List Token} (tail other : List Token)
    (braces : ∃ brace ∈ tokens, (brace.isPunct .leftBrace || brace.isPunct .rightBrace) = true)
    (depth : Nat) :
    Cursor.closesBeforeColon depth (tokens ++ other) =
      Cursor.closesBeforeColon depth (tokens ++ tail) := by
  induction tokens generalizing depth with
  | nil =>
    obtain ⟨_, ⟨⟩, _⟩ := braces
  | cons token tokens ih =>
    by_cases isBrace : (token.isPunct .leftBrace || token.isPunct .rightBrace) = true
    · rw [List.cons_append, List.cons_append, closesBeforeColon_brace isBrace,
        closesBeforeColon_brace isBrace]
    · have braces : ∃ brace ∈ tokens, (brace.isPunct .leftBrace || brace.isPunct .rightBrace) =
          true := by
        obtain ⟨brace, member, opensOrCloses⟩ := braces
        rcases List.mem_cons.1 member with rfl | member
        · exact absurd opensOrCloses isBrace
        · exact ⟨brace, member, opensOrCloses⟩
      have next : (tokens ++ other).head? = (tokens ++ tail).head? := by
        cases tokens with
        | nil => obtain ⟨_, ⟨⟩, _⟩ := braces
        | cons second tokens => rfl
      rw [List.cons_append, List.cons_append, Cursor.closesBeforeColon, Cursor.closesBeforeColon,
        ih braces, ih braces, ih braces, next]

omit regions inner in
/-- Whether a block starts is decided before a brace. -/
theorem startsBlock_append {tokens : List Token} (tail other : List Token)
    (braces : ∃ brace ∈ tokens, (brace.isPunct .leftBrace || brace.isPunct .rightBrace) = true) :
    Cursor.startsBlock (tokens ++ other) = Cursor.startsBlock (tokens ++ tail) := by
  have unlabeled : ∀ {brace : Token}, (brace.isPunct .leftBrace || brace.isPunct .rightBrace) =
      true → (brace.kind == .label) = false ∧ brace.isPunct .leftParen = false := by
    intro brace isBrace
    rcases Bool.or_eq_true_iff.1 isBrace with same | same <;>
      simp [Token.isPunct, show brace.kind = _ from beq_iff_eq.1 same]
  obtain ⟨brace, member, isBrace⟩ := braces
  match tokens with
  | [only] =>
    obtain rfl := List.mem_singleton.1 member
    have absent : ∀ rest, Cursor.startsBlock (brace :: rest) = false := by
      intro rest
      cases rest with
      | nil => rfl
      | cons second rest => rw [Cursor.startsBlock, (unlabeled isBrace).1, Bool.false_and]
    rw [List.singleton_append, List.singleton_append, absent, absent]
  | label :: next :: rest =>
    rw [List.cons_append, List.cons_append, List.cons_append, List.cons_append, Cursor.startsBlock,
      Cursor.startsBlock]
    by_cases opens : next.isPunct .leftParen = true
    · have isLabelOrInside : brace ∈ rest ∨ brace = label := by
        rcases List.mem_cons.1 member with rfl | member
        · exact .inr rfl
        · rcases List.mem_cons.1 member with rfl | member
          · rw [(unlabeled isBrace).2] at opens
            cases opens
          · exact .inl member
      rcases isLabelOrInside with inside | rfl
      · rw [closesBeforeColon_append tail other ⟨brace, inside, isBrace⟩]
      · rw [(unlabeled isBrace).1, Bool.false_and, Bool.false_and]
    · rw [Bool.eq_false_iff.2 opens, Bool.false_and, Bool.false_and]

omit inner in
/-- The blocks of a region end with a closing brace. -/
theorem closing_of_blocksRead {kind : RegionKind} {source : List Char} {progress : Progress}
    {found : List (Block Operation) × Span}
    (reads : BlocksRead region kind source progress before found after) :
    ∃ took brace, brace.isPunct .rightBrace = true ∧ before.rest = took ++ brace :: after.rest ∧
      found.2 = brace.span := by
  induction reads with
  | close here =>
    obtain ⟨brace, isBrace, passes⟩ := Stage.passes_of_atPunct here
    exact ⟨[], brace, isBrace, passes.1, congrArg Token.span (Cursor.peek_of_cons passes.1)⟩
  | header _ _ _ first _ ih =>
    obtain ⟨took, brace, isBrace, same, ends⟩ := ih
    obtain ⟨more, leads⟩ := (Means.blockHeader regions).leads _ _ _ _ first
    exact ⟨more ++ took, brace, isBrace, by rw [leads, same, List.append_assoc], ends⟩
  | operation _ _ _ first _ _ ih =>
    obtain ⟨took, brace, isBrace, same, ends⟩ := ih
    obtain ⟨more, leads⟩ := (Means.operation regions).leads _ _ _ _ first
    exact ⟨more ++ took, brace, isBrace, by rw [leads, same, List.append_assoc], ends⟩

theorem blockHeader {draft : BlockDraft}
    (reads : BlockHeaderReads region fork.source before draft after)
    (abreast : fork.Abreast taken before twin) (rest : after.rest = left ++ fork.behind) :
    ∃ last, BlockHeaderReads region fork.other twin draft last ∧ fork.Abreast left after last := by
  have fewer := Means.progresses_blockHeader regions _ _ _ _ reads
  have shared : taken ≠ [] := abreast.ne_nil rest fewer
  have further : before.cursor.position < after.cursor.position :=
    ((Means.blockHeader regions).reaches inherited_forward.blockHeader reads).position_lt fewer
  obtain ⟨header, reads, rfl⟩ := reads
  obtain ⟨last, again, done⟩ :=
    reads_persists regions inner (fun _ => rfl : fork.MeetsValue → true = true) _
    Grammar.blockHeader_steady rfl reads abreast rest fun _ => .inr rfl
  refine ⟨last, ⟨header, again, ?_⟩, done⟩
  cases taken with
  | nil => exact absurd rfl shared
  | cons token taken =>
    obtain ⟨here, there⟩ := abreast.peek_eq
    rw [here, there, Cursor.lastStop, Cursor.lastStop,
      done.last (Nat.lt_of_le_of_lt abreast.reached further)]

omit regions inner in
/-- A block starts in both texts or in none, as long as a closing brace is shared. -/
theorem startsBlock_eq (abreast : fork.Abreast taken before twin) {brace : Token}
    {took : List Token} (isBrace : brace.isPunct .rightBrace = true)
    (closes : before.rest = took ++ brace :: after.rest)
    (rest : after.rest = left ++ fork.behind) :
    Cursor.startsBlock twin.rest = Cursor.startsBlock before.rest := by
  have closed : before.rest = (took ++ brace :: left) ++ fork.behind := by
    rw [closes, rest, List.append_assoc, List.cons_append]
  obtain rfl := abreast.left_unique closed
  rw [abreast.here, abreast.there]
  refine startsBlock_append _ _ ⟨brace, List.mem_append_right _ List.mem_cons_self, ?_⟩
  rw [isBrace, Bool.or_true]

/-- The blocks of a region are the same in both texts. -/
theorem blocks {kind : RegionKind} {progress : Progress} {found : List (Block Operation) × Span}
    (reads : BlocksRead region kind fork.source progress before found after)
    (abreast : fork.Abreast taken before twin) (rest : after.rest = left ++ fork.behind) :
    ∃ last, BlocksRead region kind fork.other progress twin found last ∧
      fork.Abreast left after last := by
  obtain ⟨took, brace, isBrace, closes, -⟩ := closing_of_blocksRead regions reads
  have sameStart := startsBlock_eq abreast isBrace closes rest
  -- The closing brace is shared, so the texts do not part in front of it.
  have shares : ∀ {stage twin : Stage} {taken took : List Token} {brace : Token},
      fork.Abreast taken stage twin → stage.rest = took ++ brace :: after.rest → taken ≠ [] := by
    intro stage twin taken took brace abreast closes
    refine abreast.ne_nil rest ?_
    rw [closes, List.length_append, List.length_cons]
    omega
  have closing : ∀ {stage twin : Stage} {taken took : List Token} {brace : Token},
      fork.Abreast taken stage twin → stage.rest = took ++ brace :: after.rest →
        twin.cursor.atPunct .rightBrace = stage.cursor.atPunct .rightBrace := fun abreast closes =>
    abreast.holds_eq (.punct .rightBrace) fun parted => absurd parted (shares abreast closes)
  induction reads generalizing twin taken took brace with
  | @close progress before here =>
    obtain ⟨brace, isBrace, passes⟩ := Stage.passes_of_atPunct here
    obtain ⟨_, ⟨next, rfl⟩, done⟩ := abreast.passes passes rest
    have same : twin.cursor.peek = before.cursor.peek := by
      rw [Cursor.peek, Cursor.peek, show twin.cursor.rest = _ from next,
        show before.cursor.rest = _ from passes.1]
      rfl
    refine ⟨twin.next, ?_, done⟩
    rw [← same]
    exact .close ((closing abreast closes).trans here)
  | @header progress before middle after draft found inside more starts first others ih =>
    obtain ⟨laterTook, laterBrace, laterIs, laterCloses, -⟩ := closing_of_blocksRead regions others
    have restMiddle : middle.rest = (laterTook ++ laterBrace :: left) ++ fork.behind := by
      rw [laterCloses, rest, List.append_assoc, List.cons_append]
    obtain ⟨between, again, midway⟩ := blockHeader regions inner first abreast restMiddle
    obtain ⟨last, othersAgain, done⟩ := ih midway rest laterTook laterBrace laterIs laterCloses
      (startsBlock_eq midway laterIs laterCloses rest) shares closing
    exact ⟨last, .header ((closing abreast closes).trans inside)
      (abreast.atEnd_eq_false (shares abreast closes))
      (sameStart.trans starts) again othersAgain, done⟩
  | @operation progress before middle after op found inside more starts first admits others ih =>
    obtain ⟨laterTook, laterBrace, laterIs, laterCloses, -⟩ := closing_of_blocksRead regions others
    have restMiddle : middle.rest = (laterTook ++ laterBrace :: left) ++ fork.behind := by
      rw [laterCloses, rest, List.append_assoc, List.cons_append]
    have shared : laterTook ++ laterBrace :: left = [] → False := by simp
    obtain ⟨between, again, midway⟩ := operation regions inner first abreast restMiddle
      (fun parted => (shared parted).elim) fun parted => (shared parted).elim
    obtain ⟨last, othersAgain, done⟩ := ih midway rest laterTook laterBrace laterIs laterCloses
      (startsBlock_eq midway laterIs laterCloses rest) shares closing
    exact ⟨last, .operation ((closing abreast closes).trans inside)
      (abreast.atEnd_eq_false (shares abreast closes)) (sameStart.trans starts) again admits
      othersAgain, done⟩

/-- A region is the same in both texts. -/
theorem region_persists (kind : RegionKind) (implicitTerminator : Bool) :
    fork.Persists (RegionReads region kind implicitTerminator) True := by
  rintro before after twin _ taken left
    ⟨opening, middle, ⟨isOpening, passes⟩, found, reads, terminated, rfl⟩ abreast rest _
  obtain ⟨took, brace, isBrace, closes, -⟩ := closing_of_blocksRead regions reads
  have restMiddle : middle.rest = (took ++ brace :: left) ++ fork.behind := by
    rw [closes, rest, List.append_assoc, List.cons_append]
  obtain ⟨next, passesAgain, inside⟩ := abreast.passes passes restMiddle
  have first : next.cursor.peek = middle.cursor.peek := by
    cases took with
    | nil => exact inside.peek_eq.2.trans inside.peek_eq.1.symm
    | cons token took => exact inside.peek_eq.2.trans inside.peek_eq.1.symm
  obtain ⟨last, again, done⟩ := blocks regions inner reads inside rest
  refine ⟨last, ⟨opening, next, ⟨isOpening, passesAgain⟩, found, ?_, terminated, ?_⟩, done⟩
  · rw [first]
    exact again
  · rw [inside.tracker]

omit regions inner in
/-- Regions that nest to some depth are the same in both texts. -/
theorem regionWithin_persists (levels : Nat) (kind : RegionKind) (implicitTerminator : Bool) :
    fork.Persists (RegionWithinReads levels kind implicitTerminator) True := by
  induction levels generalizing kind implicitTerminator with
  | zero => rintro _ _ _ _ _ _ ⟨⟩
  | succ levels ih => exact region_persists (Means.regionWithin levels) ih kind implicitTerminator

end Fork

end CirText
