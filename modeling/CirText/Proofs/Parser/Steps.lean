import CirText.Parser.Module
import CirText.Proofs.Parser.Trail

/-!
# The steps of parsing a source unit

Operations, the blocks of a region and the items of a source unit go on after a part that may fail.
What is done after such a part is a parser of its own here, and the run of what is around it is
written out with it.
-/

namespace CirText.Parser

variable {α β : Type} {region : RegionKind → Bool → Parser (Region Operation)}

theorem attempt_bind_run (parser : Parser α) (next : Option α → Parser β) (input : Input)
    (state : State) :
    (attempt parser >>= next) input state =
      next (parser input state).1 input (parser input state).2 :=
  rfl

/-! ## Operations -/

/-- An operation after its keyword. -/
def afterKeyword (region : RegionKind → Bool → Parser (Region Operation)) (start : Cursor)
    (opcode : Opcode) : Parser (Nat × Form × Body (Region Operation)) := do
  let id ← takeId
  naming opcode.keyword do
    let form ← chooseForm opcode
    let body ← (Grammar.body opcode form).parse start region
    pure (id, body.form form, body)

/-- The end of an operation that has been tried from its keyword on. -/
def endOperation (start : Cursor) (results : List Definition) :
    Option (Nat × Form × Body (Region Operation)) → Parser Operation
  | none => fail
  | some (id, form, body) => do
    pure <| .of
      { id, results, payload := body.payload, form, extra := body.extra,
        span := start.spanBetween (← cursor) }

theorem operation_eq :
    operation region = (do
      let start ← cursor
      let names ← resultNames
      let read ← attempt (fromKeyword region)
      let results ← names.mapM (define .value)
      endOperation start results read) :=
  rfl

/-- What is read of an operation before its results are defined: their names and what follows
them. -/
def operationHead (region : RegionKind → Bool → Parser (Region Operation)) :
    Parser (List Token × Nat × Form × Body (Region Operation)) := do
  let names ← resultNames
  let read ← fromKeyword region
  pure (names, read)

theorem operation_run_of_head {input : Input} {state middle : State} {names : List Token}
    {read : Nat × Form × Body (Region Operation)}
    (ran : operationHead region input state = (some (names, read), middle)) :
    operation region input state =
      (names.mapM (define .value) >>= fun results => endOperation state.cursor results (some read))
        input middle := by
  simp only [operationHead, bind_run] at ran
  rw [operation_eq]
  simp only [bind_run, cursor, look, attempt]
  cases named : resultNames input state with
  | mk outcome between =>
    rw [named] at ran
    cases outcome with
    | none => cases ran
    | some found =>
      dsimp only at ran ⊢
      cases keyword : fromKeyword region input between with
      | mk outcome last =>
        rw [keyword] at ran
        cases outcome with
        | none => cases ran
        | some given =>
          cases ran
          rfl

/-- An operation at which no result name comes first has no results. -/
theorem operation_run_of_noResults {state : State} (noNames : state.cursor.atKind .value = false)
    (input : Input) : operation region input state =
      (attempt (fromKeyword region) >>= endOperation state.cursor []) input state := by
  have names : resultNames input state = (some [], state) := by
    change (if state.cursor.atKind .value then _ else Pure.pure [] : Parser (List Token))
      input state = _
    rw [noNames]
    rfl
  change (resultNames >>= fun names => attempt (fromKeyword region) >>= fun read =>
    names.mapM (define .value) >>= fun results =>
      endOperation state.cursor results read) input state = _
  rw [bind_run, names]
  rfl

theorem fromKeyword_run_of_known {state : State} {opcode : Opcode}
    (isKeyword : state.cursor.peek.kind = .keyword)
    (known : Opcode.ofKeyword? state.cursor.peek.text = some opcode) (input : Input) :
    fromKeyword region input state =
      (skip >>= fun _ => afterKeyword region state.cursor opcode :
        Parser (Nat × Form × Body (Region Operation))) input state := by
  simp only [fromKeyword, bind_run, look, cursor, isKeyword, known]
  rfl

/-! ## Blocks -/

/-- A step through the blocks of a region in which nothing could be read. -/
def skipUnit (start : Cursor) (progress : Progress) :
    Parser (Step Progress (List (Block Operation) × Span)) := do
  resynchronize start
  pure (.again progress)

/-- A step through the blocks of a region after the header of a block has been tried. -/
def afterHeader (start : Cursor) (progress : Progress) :
    Option BlockDraft → Parser (Step Progress (List (Block Operation) × Span))
  | some block => pure (.again (progress.nextLabeled block))
  | none => skipUnit start progress

/-- A step through the blocks of a region after an operation has been tried. -/
def afterOperation (kind : RegionKind) (start : Cursor) (progress : Progress) :
    Option Operation → Parser (Step Progress (List (Block Operation) × Span))
  | some op => .again <$> place kind progress op
  | none => skipUnit start progress

theorem blockStep_eq (kind : RegionKind) (opening : Span) (progress : Progress) :
    blockStep region kind opening progress = (do
      let start ← cursor
      let halted ← look (·.halted)
      if halted then
        fail
      else if start.atPunct .rightBrace then do
        skip
        pure (.done (progress.blocks, start.peek.span))
      else if start.atEnd then do
        reportUnclosed kind opening
        fail
      else if Cursor.startsBlock start.rest then
        attempt (blockHeader region) >>= afterHeader start progress
      else
        attempt (operation region) >>= afterOperation kind start progress) :=
  rfl

/-! ## Items -/

/-- A step through the items of a source unit after an item has been tried. -/
def afterItem (start : Cursor) : Option Operation → Parser (Option Operation × Bool)
  | some op => pure (some op, true)
  | none => do
    resynchronize start
    pure (none, !(← look (·.halted)))

/-- What a step through the items of a source unit does unless parsing has come to an early end. -/
def nextItem (region : RegionKind → Bool → Parser (Region Operation)) (braced halted : Bool) :
    Parser (Option Operation × Bool) := do
  let start ← cursor
  if halted || start.atEnd || braced && start.atPunct .rightBrace then
    pure (none, false)
  else
    attempt (declaration region) >>= afterItem start

/-- A step through the items of a source unit: another item or none, and whether to go on. -/
def itemStep (region : RegionKind → Bool → Parser (Region Operation)) (braced : Bool) :
    Parser (Option Operation × Bool) :=
  checkHalted >>= nextItem region braced

/-- A step of the loop that collects the items. -/
def collectItem (region : RegionKind → Bool → Parser (Region Operation)) (braced : Bool)
    (items : List Operation) : Parser (Step (List Operation) (List Operation)) :=
  (fun found => if found.2 then .again (found.1.toList ++ items) else .done
    (found.1.toList ++ items)) <$>
    itemStep region braced

theorem items_eq (braced : Bool) :
    items region braced = List.reverse <$> iterate (collectItem region braced) [] :=
  rfl

theorem items_eq_collect (braced : Bool) :
    items region braced = collect (itemStep region braced) :=
  rfl

/-! ## Modules with braces -/

/-- The header of a module after its name. -/
def restOfHeader (start : Cursor) (name : Option Lexeme) : Parser ModuleHeader := do
  let attributes ←
    if (← cursor).atWord "attributes" then do
      skip
      attempt (attributeOf .dictionary)
    else
      pure none
  pure { name, attributes, span := start.spanBetween (← cursor) }

theorem unitHeader_eq (start : Cursor) :
    unitHeader start = (do
      let here ← cursor
      if here.atKind .symbol then do
        skip
        restOfHeader start (some ⟨here.peek.text, here.peek.span⟩)
      else restOfHeader start none) :=
  rfl

/-- The end of a module does not fail. -/
theorem moduleEnd_run (opening : Token) (input : Input) (state : State) :
    (Parser.moduleEnd opening input state).1 = some () := by
  unfold Parser.moduleEnd
  simp only [bind_run, Parser.cursor, Parser.look]
  split
  · simp only [bind_run, Parser.skip, Parser.change, Parser.look]
    split <;> rfl
  · rfl

/-- What is done after the items of a module with braces. -/
def closeModule (result : α) (brace : Token) : Parser α := do
  if !(← Parser.look (·.halted)) then
    Parser.moduleEnd brace
  Pure.pure result

theorem closeModule_run (result : α) (brace : Token) (input : Input) (state : State) :
    closeModule result brace input state =
      (some result, if state.halted then state else (Parser.moduleEnd brace input state).2) := by
  have ended := moduleEnd_run brace input state
  unfold closeModule
  simp only [bind_run, Parser.look]
  cases halted : state.halted with
  | true => rfl
  | false =>
    cases run : Parser.moduleEnd brace input state with
    | mk outcome last =>
      rw [run] at ended
      change outcome = some () at ended
      simp only [Bool.not_false, if_true, bind_run, run, ended]
      rfl

end CirText.Parser
