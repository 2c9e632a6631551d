import CirText.Proofs.Acceptance
import CirText.Proofs.Grammar.Reads
import CirText.Proofs.Grammar.Written
import CirText.Proofs.Parser.Reports

/-!
# Reading runs of modifiers

A complete modifier is read whole and without a remark, since its keyword tells its rule and the
rule tells what comes behind the keyword. A run of them is read up to what is behind it. The parser
keeps those that fill a free slot and reports each of the others once.
-/

namespace CirText

namespace Parser

variable {α β : Type} {input : Input} {state : State} {taken behind : List Token}

/-! ## Moving past tokens -/

/-- Whether a state is reached by moving past tokens without a remark, in the same scope and inside
of the same construct. -/
structure State.MovesPast (before : State) (taken : List Token) (after : State) : Prop where
  cursor : after.cursor = before.cursor.advance taken.length
  diagnostics : after.diagnostics = before.diagnostics
  construct : after.construct = before.construct
  scope : after.tracker.scope = before.tracker.scope

namespace State.MovesPast

variable {before middle after : State} {first second : List Token}

theorem trans (left : before.MovesPast first middle) (right : middle.MovesPast second after) :
    before.MovesPast (first ++ second) after where
  cursor := by rw [right.cursor, left.cursor, Cursor.advance_add, List.length_append]
  diagnostics := right.diagnostics.trans left.diagnostics
  construct := right.construct.trans left.construct
  scope := right.scope.trans left.scope

/-- What is behind the tokens is left. -/
theorem rest (moves : before.MovesPast first after) (here : before.cursor.rest = first ++ behind) :
    after.cursor.rest = behind := by
  rw [moves.cursor, Cursor.rest_advance, here, List.drop_left]

end State.MovesPast

theorem satisfying_moves {condition : Token → Bool} {token : Token}
    (here : state.cursor.rest = token :: behind)
    (holds : condition token = true) (what : String) :
    ∃ after, satisfying condition what input state = (some token, after) ∧
      state.MovesPast [token] after := by
  have next : state.cursor.peek = token := Cursor.peek_of_cons here
  refine ⟨{ state with cursor := state.cursor.next }, ?_, rfl, rfl, rfl, rfl⟩
  rw [satisfying_run, next, holds]
  rfl

theorem token_moves {kind : TokenKind} {token : Token} (here : state.cursor.rest = token :: behind)
    (isKind : token.kind = kind) (what : String) :
    ∃ after, Parser.token kind what input state = (some token, after) ∧
      state.MovesPast [token] after :=
  @satisfying_moves _ _ _ (·.kind == kind) _ here (beq_iff_eq.2 isKind) what

theorem punct_moves {mark : Punct} {token : Token} (here : state.cursor.rest = token :: behind)
    (isMark : token.isPunct mark = true) :
    ∃ after, punct mark input state = (some token, after) ∧ state.MovesPast [token] after :=
  @satisfying_moves _ _ _ (·.isPunct mark) _ here isMark _

/-! ## Arguments -/

/-- What derives an attribute with a name is not continued by a bracket that closes. -/
theorem derives_beforeClosing {form : AttributeForm} {closing : Token}
    (named : form = .aliasName ∨ form = .dialect)
    (derives : Reader.Derives (.attributeOf form) taken [closing]) (behind : List Token) :
    Reader.Derives (.attributeOf form) taken (closing :: behind) := by
  rcases named with rfl | rfl
  · cases derives with
    | aliasName isName plain absent => exact .aliasName isName plain absent
  · cases derives with
    | dialect isName qualified rest =>
      refine .dialect isName qualified ?_
      cases rest with
      | noGroup absent => exact .noGroup absent
      | someGroup isGroup => exact .someGroup isGroup

theorem attributeOf_moves {form : AttributeForm} {text : String} {span : Span}
    (structural : input.adapters = .structural)
    (here : state.cursor.rest = taken ++ behind)
    (derives : Reader.Derives (.attributeOf form) taken behind)
    (embedded : Embedded input.source taken text span) :
    ∃ after, attributeOf form input state = (some ⟨text, form, span⟩, after) ∧
      state.MovesPast taken after := by
  have exactly := Cursor.readsExactly_attribute input.source form state.cursor
  obtain ⟨found, cursor, outcome⟩ := exactly.accepts.2 ⟨taken, behind, here, derives⟩
  obtain ⟨⟨others, otherText, otherSpan, split, _, moved, embeddedAgain, rfl⟩, only, _, _⟩ :=
    exactly.took found cursor outcome
  have same : others = taken := by
    have rest := only taken behind here derives
    rw [← rest] at split
    exact List.append_cancel_right (split.symm.trans here)
  subst same
  have sameSpan : otherSpan = span := by
    obtain ⟨first, last, isFirst, isLast, rfl⟩ := embedded.ends
    obtain ⟨_, _, isFirstAgain, isLastAgain, rfl⟩ := embeddedAgain.ends
    rw [isFirst] at isFirstAgain
    rw [isLast] at isLastAgain
    cases isFirstAgain
    cases isLastAgain
    rfl
  subst sameSpan
  have sameText : otherText = text := embeddedAgain.text.trans embedded.text.symm
  subst sameText
  refine ⟨{ state with
    cursor := cursor
    readings := ⟨.attribute, state.cursor.position⟩ :: state.readings }, ?_, moved, rfl, rfl, rfl⟩
  rw [attributeOf, embed, structural, Adapters.read_structural_attributes, outcome]

theorem namedAttribute_moves {form : AttributeForm} {closing : Token} {text : String} {span : Span}
    (structural : input.adapters = .structural)
    (here : state.cursor.rest = taken ++ closing :: behind)
    (named : form = .aliasName ∨ form = .dialect)
    (derives : Reader.Derives (.attributeOf form) taken [closing])
    (embedded : Embedded input.source taken text span) :
    ∃ after, namedAttribute input state = (some ⟨text, form, span⟩, after) ∧
      state.MovesPast taken after := by
  have read := attributeOf_moves structural here (derives_beforeClosing named derives behind)
    embedded
  have run : namedAttribute input state =
      (if state.cursor.atAttributeAlias then attributeOf .aliasName
      else if state.cursor.atKind .attributeName then attributeOf .dialect
      else expected "an attribute" : Parser AttributeText) input state := rfl
  rw [run]
  rcases named with rfl | rfl
  · cases derives with
    | @aliasName name _ isName plain absent =>
      have isAlias : state.cursor.atAttributeAlias = true := by
        rw [Cursor.atAttributeAlias, Cursor.peek, Cursor.peekAt, here]
        change name.isAttributeAlias closing = true
        change closing.isPunct .less = false at absent
        rw [Token.isAttributeAlias, isName, plain, absent]
        rfl
      rw [if_pos isAlias]
      exact read
  · cases derives with
    | @dialect name group _ isName qualified rest =>
      have first : state.cursor.peek = name := Cursor.peek_of_cons here
      have noAlias : state.cursor.atAttributeAlias = false := by
        rw [Cursor.atAttributeAlias, Token.isAttributeAlias, first]
        rcases qualified with dotted | grouped
        · rw [dotted]
          simp
        · cases rest with
          | noGroup absent => exact absurd rfl grouped
          | someGroup isGroup =>
            cases group with
            | nil => exact absurd rfl grouped
            | cons opening group =>
              have opens : opening.isPunct .less = true := isGroup.starts
              rw [Cursor.peekAt, here]
              simp [opens]
      have isAttribute : state.cursor.atKind .attributeName = true := by
        rw [Cursor.atKind, first, isName]
        rfl
      rw [noAlias, isAttribute]
      exact read

/-- A complete argument is read. -/
theorem argumentOf_moves {kind : ArgumentKind} {closing : Token} {argument : Argument}
    (structural : input.adapters = .structural)
    (here : state.cursor.rest = taken ++ closing :: behind)
    (writes : kind.Writes input.source state.tracker.scope closing taken argument) :
    ∃ after, argumentOf kind input state = (some argument, after) ∧
      state.MovesPast taken after := by
  cases writes with
  | word isWord =>
    obtain ⟨after, run, moves⟩ := token_moves here isWord "an identifier"
    refine ⟨after, ?_, moves⟩
    rw [argumentOf, bind_run, run]
    rfl
  | integer isInteger =>
    obtain ⟨after, run, moves⟩ := token_moves here isInteger "an integer"
    refine ⟨after, ?_, moves⟩
    rw [argumentOf, bind_run, run]
    rfl
  | @symbol token isSymbol =>
    have next : state.cursor.peek = token := Cursor.peek_of_cons here
    refine ⟨{ state with
      cursor := state.cursor.next
      tracker := (state.tracker.refer .symbol token.name token.span).2 }, ?_, rfl, rfl, rfl, rfl⟩
    rw [argumentOf, map_run, refer_run, next]
    dsimp only
    rw [if_pos (show token.kind = nameToken .symbol from isSymbol)]
    rfl
  | @«attribute» form taken text span named derives embedded =>
    obtain ⟨after, run, moves⟩ := namedAttribute_moves structural here named derives embedded
    refine ⟨after, ?_, moves⟩
    rw [argumentOf, map_run, run]
    rfl

/-! ## Modifiers -/

theorem modifierArgument_moves {form : ArgumentSyntax} {opening closing : Token}
    {argument : Argument} (structural : input.adapters = .structural)
    (here : state.cursor.rest = opening :: (taken ++ closing :: behind))
    (opens : opening.isPunct form.opening = true) (closes : closing.isPunct form.closing = true)
    (writes : form.kind.Writes input.source state.tracker.scope closing taken argument) :
    ∃ after, modifierArgument (some form) input state = (some (some argument), after) ∧
      state.MovesPast (opening :: (taken ++ [closing])) after := by
  have atOpening : state.cursor.atPunct form.opening = true := by
    rw [Cursor.atPunct, Cursor.peek, here]
    exact opens
  obtain ⟨first, openingRead, toFirst⟩ := punct_moves here opens
  have behindOpening : first.cursor.rest = taken ++ closing :: behind := toFirst.rest here
  obtain ⟨second, argumentRead, toSecond⟩ :=
    argumentOf_moves structural behindOpening (toFirst.scope.symm ▸ writes)
  obtain ⟨after, closingRead, toEnd⟩ := punct_moves (toSecond.rest behindOpening) closes
  refine ⟨after, ?_, toFirst.trans (toSecond.trans toEnd)⟩
  have run : modifierArgument (some form) input state =
      (if form.optional && !state.cursor.atPunct form.opening then Pure.pure none
      else punct form.opening >>= fun _ => argumentOf form.kind >>= fun argument =>
        punct form.closing >>= fun _ => Pure.pure (some argument) :
        Parser (Option Argument)) input state := rfl
  rw [run, atOpening, if_neg (by simp), bind_run, openingRead]
  dsimp only
  rw [bind_run, argumentRead]
  dsimp only
  rw [bind_run, closingRead]
  rfl

/-- A rule that does not take an argument, or leaves it out in front of what is no bracket. -/
theorem modifierArgument_leftOut {argument : Option ArgumentSyntax}
    (leftOut : ∀ form ∈ argument, form.optional = true)
    (noOpening : ∀ form ∈ argument, state.cursor.atPunct form.opening = false) :
    modifierArgument argument input state = (some none, state) := by
  cases argument with
  | none => rfl
  | some form =>
    have run : modifierArgument (some form) input state =
        (if form.optional && !state.cursor.atPunct form.opening then Pure.pure none else _ :
          Parser (Option Argument)) input state := rfl
    rw [run, leftOut form rfl, noOpening form rfl]
    rfl

/-- What rules have to be for their modifiers to be told from what comes behind: no two have the
same keyword, and an argument that may be left out stands in parentheses. -/
structure Plain (rules : List ModifierRule) : Prop where
  keywords : (rules.map (·.keyword)).Nodup
  parentheses : ∀ rule ∈ rules, ∀ form ∈ rule.argument, form.optional = true →
    form.opening = .leftParen

/-- Whether neither a modifier nor the argument of one can start with the tokens. -/
def Closed (rules : List ModifierRule) (tokens : List Token) : Prop :=
  ∀ token ∈ tokens.head?, token.isPunct .leftParen = false ∧
    ∀ rule ∈ rules, token.isWord rule.keyword = false

variable {rules : List ModifierRule}

/-- The keyword of a rule tells the rule. -/
theorem find?_keyword (plain : Plain rules) {rule : ModifierRule} (known : rule ∈ rules)
    (atKeyword : state.cursor.atWord rule.keyword = true) :
    rules.find? (fun rule => state.cursor.atWord rule.keyword) = some rule := by
  cases found : rules.find? (fun rule => state.cursor.atWord rule.keyword) with
  | none => exact absurd atKeyword (List.find?_eq_none.1 found rule known)
  | some other =>
    have atOther := List.find?_some found
    rw [Cursor.atWord, Token.isWord, Bool.and_eq_true] at atKeyword atOther
    have same : other.keyword = rule.keyword :=
      (beq_iff_eq.1 atOther.2).symm.trans (beq_iff_eq.1 atKeyword.2)
    exact congrArg some
      (List.inj_on_of_nodup_map plain.keywords (List.mem_of_find?_eq_some found) known same)

/-- A complete modifier is read, unless what is behind it continues it. -/
theorem modifier_moves (structural : input.adapters = .structural) (plain : Plain rules)
    {written : WrittenModifier}
    (complete : written.Complete rules input.source state.tracker.scope)
    (here : state.cursor.rest = written.tokens ++ behind)
    (noParen : ∀ token ∈ behind.head?, token.isPunct .leftParen = false) :
    state.cursor.atWord written.modifier.rule.keyword = true ∧
      ∃ after, (skip >>= fun _ => modifierArgument written.modifier.rule.argument) input state =
          (some written.modifier.argument, after) ∧ state.MovesPast written.tokens after := by
  cases complete with
  | @bare word rule known isWord leftOut =>
    have next : state.cursor.peek = word := Cursor.peek_of_cons here
    have behindWord : state.cursor.next.rest = behind := Cursor.rest_next_of_cons here
    refine ⟨?_, { state with cursor := state.cursor.next }, ?_, rfl, rfl, rfl, rfl⟩
    · rw [Cursor.atWord, next]
      exact isWord
    · refine modifierArgument_leftOut leftOut fun form given => ?_
      rw [plain.parentheses rule known form given (leftOut form given), Cursor.atPunct,
        Cursor.peek, behindWord]
      cases behind with
      | nil => rfl
      | cons token rest => exact noParen token rfl
  | @bracketed word opening closing taken rule form argument known isWord takes
      opens closes writes =>
    have next : state.cursor.peek = word := Cursor.peek_of_cons here
    have behindWord : state.cursor.next.rest = opening :: (taken ++ closing :: behind) := by
      rw [Cursor.rest_next, here]
      simp
    obtain ⟨after, read, moves⟩ :=
      @modifierArgument_moves input { state with cursor := state.cursor.next } _ _ _ _ _
      _ structural behindWord opens closes writes
    have first : state.MovesPast [word] { state with cursor := state.cursor.next } :=
      ⟨rfl, rfl, rfl, rfl⟩
    refine ⟨?_, after, ?_, first.trans moves⟩
    · rw [Cursor.atWord, next]
      exact isWord
    · rw [takes]
      exact read

/-! ## Runs -/

/-- The error about a modifier whose slot has been filled by an earlier one. -/
def repetition (construct : String) (rule earlier : ModifierRule) (span : Span) : Diagnostic :=
  .errorWithFix
    (.malformed (construct ++ " modifiers")
      (if rule.slot = rule.keyword then "`" ++ rule.keyword ++ "` at most once"
      else "a single " ++ rule.slot ++ " modifier (already `" ++ earlier.keyword ++ "`)")
      ("`" ++ rule.keyword ++ "`"))
    span span

/-- A step through a run of modifiers. -/
def modifierStep (rules : List ModifierRule) (modifiers : List Modifier) :
    Parser (Step (List Modifier) (List Modifier)) := do
  let start ← cursor
  match rules.find? fun rule => start.atWord rule.keyword with
  | none => pure (.done modifiers)
  | some rule =>
    let argument ← skip >>= fun _ => modifierArgument rule.argument
    Means.fitModifier modifiers rule argument start

theorem modifierRun_eq (rules : List ModifierRule) :
    modifierRun rules = iterate (modifierStep rules) [] :=
  rfl

/-- The place of a written modifier is that of its tokens. -/
theorem spanBetween_written {written : WrittenModifier} {rules : List ModifierRule}
    {source : List Char} {scope : ScopeId} (complete : written.Complete rules source scope)
    {cursor : Cursor} (here : cursor.rest = written.tokens ++ behind) :
    cursor.spanBetween (cursor.advance written.tokens.length) = written.span := by
  obtain ⟨first, last, isFirst, isLast, span⟩ :=
    (@Cursor.embedded_spanBetween [] cursor _ _ complete.tokens_ne_nil here _ rfl).ends
  rw [span, WrittenModifier.span, isFirst, isLast]

/-- The errors about the modifiers of a run that repeat a slot. -/
def repetitions (construct : String) (repeated : List (WrittenModifier × WrittenModifier)) :
    List Diagnostic :=
  repeated.map fun (first, again) =>
    repetition construct again.modifier.rule first.modifier.rule again.span

/-- What is left by reading a run of modifiers: its tokens have been passed, and its repetitions
have been reported. -/
structure State.MovesPastRun (before : State) (earlier run : List WrittenModifier) (after : State) :
    Prop where
  cursor : after.cursor = before.cursor.advance (run.flatMap (·.tokens)).length
  diagnostics : after.diagnostics =
    before.diagnostics.append
    (repetitions before.construct (WrittenModifier.repeatsAfter earlier run))
  construct : after.construct = before.construct
  scope : after.tracker.scope = before.tracker.scope

theorem State.MovesPastRun.trans {before middle after : State}
    {earlier first second : List WrittenModifier}
    (left : before.MovesPastRun earlier first middle)
    (right : middle.MovesPastRun (earlier ++ first) second after) :
    before.MovesPastRun earlier (first ++ second) after where
  cursor := by rw [right.cursor, left.cursor, Cursor.advance_add, List.flatMap_append,
    List.length_append]
  diagnostics := by
    rw [right.diagnostics, left.diagnostics, left.construct, Diagnostics.append_append,
      WrittenModifier.repeatsAfter_append, repetitions, repetitions, repetitions, List.map_append]
  construct := right.construct.trans left.construct
  scope := right.scope.trans left.scope

/-- Whether modifiers are the ones that count in a run. -/
def Fills (modifiers : List Modifier) (earlier : List WrittenModifier) : Prop :=
  ∀ slot, ModifierTable.filling? modifiers slot = (earlier.find? (·.slot == slot)).map (·.modifier)

/-- One more modifier counts if it is the first one in its slot. -/
theorem Fills.concat {modifiers : List Modifier} {earlier : List WrittenModifier}
    (fills : Fills modifiers earlier)
    (written : WrittenModifier) :
    Fills (modifiers ++ (WrittenModifier.firstsAfter earlier [written]).map (·.modifier))
      (earlier ++ [written]) := by
  intro slot
  rw [ModifierTable.filling?, List.find?_append, List.find?_append, ← ModifierTable.filling?,
    fills slot, List.find?_map, Option.map_or]
  have new := WrittenModifier.find?_firstsAfter earlier [written] slot
  rw [WrittenModifier.any_slot_eq_isSome_find?] at new
  refine (congrArg (Option.or _ <| Option.map (·.modifier) ·) new).trans ?_
  cases earlier.find? (·.slot == slot) <;> rfl

/-- Behind a modifier of a run there is no parenthesis. -/
theorem noParen_flatMap {run : List WrittenModifier} {source : List Char} {scope : ScopeId}
    (complete : ∀ written ∈ run, written.Complete rules source scope)
    (closed : Closed rules behind) :
    ∀ token ∈ (run.flatMap (·.tokens) ++ behind).head?, token.isPunct .leftParen = false := by
  cases run with
  | nil => exact fun token isFirst => (closed token isFirst).1
  | cons written run =>
    have word : ∀ {token : Token} {keyword : String}, token.isWord keyword = true →
        token.isPunct .leftParen = false := by
      intro token keyword isWord
      rw [Token.isWord, Bool.and_eq_true] at isWord
      rw [Token.isPunct, beq_iff_eq.1 isWord.1]
      rfl
    cases complete written List.mem_cons_self with
    | bare known isWord leftOut =>
      rintro token ⟨⟩
      exact word isWord
    | bracketed known isWord takes opens closes writes =>
      rintro token ⟨⟩
      exact word isWord

/-- A step at a complete modifier keeps it if its slot is free, and reports it otherwise. -/
theorem modifierStep_run (structural : input.adapters = .structural) (plain : Plain rules)
    {earlier : List WrittenModifier} {written : WrittenModifier}
    {modifiers : List Modifier} (fills : Fills modifiers earlier)
    (complete : written.Complete rules input.source state.tracker.scope)
    (here : state.cursor.rest = written.tokens ++ behind)
    (noParen : ∀ token ∈ behind.head?, token.isPunct .leftParen = false) :
    ∃ after, state.MovesPastRun earlier [written] after ∧ modifierStep rules modifiers input state =
      (some (.again (modifiers ++ (WrittenModifier.firstsAfter earlier [written]).map
        (·.modifier))), after) := by
  obtain ⟨atKeyword, after, read, moves⟩ := modifier_moves structural plain complete here noParen
  have found := find?_keyword plain complete.fits.1 atKeyword
  have span : state.cursor.spanBetween after.cursor = written.span := by
    rw [moves.cursor]
    exact spanBetween_written complete here
  have run : modifierStep rules modifiers input state =
      Means.fitModifier modifiers written.modifier.rule written.modifier.argument state.cursor
      input after := by
    have known : modifierStep rules modifiers input state =
        ((skip >>= fun _ => modifierArgument written.modifier.rule.argument) >>= fun argument =>
          Means.fitModifier modifiers written.modifier.rule argument state.cursor) input state := by
      rw [modifierStep, bind_run]
      simp only [cursor, look, found]
    rw [known, bind_run, read]
  have past : after.cursor = state.cursor.advance ([written].flatMap (·.tokens)).length := by
    rw [List.flatMap_singleton]
    exact moves.cursor
  have filled := fills written.slot
  rw [run, Means.fitModifier, WrittenModifier.firstsAfter, WrittenModifier.any_slot_eq_isSome_find?]
  cases inSlot : earlier.find? (·.slot == written.slot) with
  | none =>
    rw [inSlot] at filled
    refine ⟨after, ⟨past, ?_, moves.construct, moves.scope⟩, ?_⟩
    · rw [moves.diagnostics, WrittenModifier.repeatsAfter, inSlot]
      exact congrArg Diagnostics.mk Array.append_empty.symm
    · rw [show ModifierTable.filling? modifiers written.modifier.rule.slot = none from filled]
      rfl
  | some first =>
    rw [inSlot] at filled
    refine ⟨{ after with
      diagnostics := after.diagnostics.push
        (repetition state.construct written.modifier.rule first.modifier.rule written.span) },
      ⟨past, ?_, moves.construct, moves.scope⟩, ?_⟩
    · rw [moves.diagnostics, WrittenModifier.repeatsAfter, inSlot]
      rfl
    · rw [show ModifierTable.filling? modifiers written.modifier.rule.slot =
        some first.modifier from filled,
        ← span, ← moves.construct]
      exact congrArg (fun kept => (some (Step.again kept), _)) (List.append_nil modifiers).symm

/-- A step in front of what is no modifier ends the run. -/
theorem modifierStep_run_of_closed (here : state.cursor.rest = behind)
    (closed : Closed rules behind)
    (modifiers : List Modifier) :
    modifierStep rules modifiers input state = (some (.done modifiers), state) := by
  have noKeyword : rules.find? (fun rule => state.cursor.atWord rule.keyword) = none := by
    rw [List.find?_eq_none]
    intro rule known
    rw [Cursor.atWord, Cursor.peek, here]
    cases behind with
    | nil => exact Bool.false_ne_true
    | cons token rest => simpa using (closed token rfl).2 rule known
  rw [modifierStep, bind_run]
  simp only [cursor, look, noKeyword]
  rfl

/-- The loop keeps what counts in a run of complete modifiers, and ends behind it. -/
theorem iterate_modifierStep (structural : input.adapters = .structural) (plain : Plain rules)
    {earlier run : List WrittenModifier}
    {modifiers : List Modifier}
    (complete : ∀ written ∈ run, written.Complete rules input.source state.tracker.scope)
    (here : state.cursor.rest = run.flatMap (·.tokens) ++ behind) (closed : Closed rules behind)
    (fills : Fills modifiers earlier) :
    ∃ after, state.MovesPastRun earlier run after ∧
      iterate (modifierStep rules) modifiers input state =
        (some (modifiers ++ (WrittenModifier.firstsAfter earlier run).map (·.modifier)),
          after) := by
  induction run generalizing state modifiers earlier with
  | nil =>
    refine ⟨state, ⟨rfl, congrArg Diagnostics.mk Array.append_empty.symm, rfl, rfl⟩, ?_⟩
    rw [iterate_run, modifierStep_run_of_closed here closed, WrittenModifier.firstsAfter,
      List.map_nil, List.append_nil]
  | cons written run ih =>
    have completeFirst := complete written List.mem_cons_self
    have completeRest := fun other member => complete other (List.mem_cons_of_mem written member)
    rw [List.flatMap_cons, List.append_assoc] at here
    obtain ⟨middle, moves, step⟩ :=
      modifierStep_run structural plain fills completeFirst here
      (noParen_flatMap completeRest closed)
    have left : middle.cursor.rest = run.flatMap (·.tokens) ++ behind := by
      rw [moves.cursor, Cursor.rest_advance, here, List.flatMap_singleton, List.drop_left]
    have fewer : middle.cursor.rest.length < state.cursor.rest.length := by
      have some := List.length_pos_of_ne_nil completeFirst.tokens_ne_nil
      simp only [left, here, List.length_append]
      omega
    rw [← moves.scope] at completeRest
    obtain ⟨after, movesOn, rest⟩ := ih completeRest left (fills.concat written)
    refine ⟨after, moves.trans movesOn, ?_⟩
    rw [iterate_run, step]
    simp only [fewer, if_true, rest]
    rw [List.append_assoc, ← List.map_append, ← WrittenModifier.firstsAfter_append]
    rfl

end Parser

end CirText
