import CirText.Proofs.Operation.Parting
import CirText.Proofs.Parser.Reports

/-!
# Operations and what follows them

Operations have no separator: whether an optional part is there is decided by the next token, and
that may be the first of another operation. An operation that does not end its block is read in the
same way whichever operation follows it, with one exception. A stack slot that is reserved with
nothing but its types takes a value behind them for the number of its elements, even if that is the
result of the next operation.
-/

namespace CirText

open CirText.Parser

/-! ## Parsing -/

/-- Two source texts that start alike, and the operations with which they go on from some place
there. -/
structure Parting where
  /-- What both texts start with. -/
  shared : List Char
  /-- How the first text goes on. -/
  tail : List Char
  /-- How the second text goes on. -/
  otherTail : List Char
  /-- The tokens of the first text from the place on. -/
  behind : List Token
  /-- The tokens of the second text from the place on. -/
  beyond : List Token
  /-- An operation starts there in the first text. -/
  starts : StartsOperation behind
  /-- An operation starts there in the second text. -/
  startsOther : StartsOperation beyond

namespace Parting

variable (parting : Parting)

/-- The first source text. -/
def source : List Char :=
  parting.shared ++ parting.tail

/-- The second source text. -/
def other : List Char :=
  parting.shared ++ parting.otherTail

/-- Whether two stages have come to the same place of what the texts share, with the given tokens
before they part. -/
structure Abreast (taken : List Token) (stage twin : Stage) : Prop where
  here : stage.rest = taken ++ parting.behind
  there : twin.rest = taken ++ parting.beyond
  within : ∀ token ∈ taken, token.span.stop ≤ Text.byteSize parting.shared
  position : twin.cursor.position = stage.cursor.position
  last : twin.cursor.last = stage.cursor.last
  tracker : twin.tracker = stage.tracker
  nextId : twin.nextId = stage.nextId

/-- The texts part behind what they share, and nothing comes before that. -/
def fork : Fork where
  source := parting.source
  other := parting.other
  behind := parting.behind
  beyond := parting.beyond
  start := 0
  stop := Text.byteSize parting.shared
  origin := 0
  extra := 0
  slices span _ within := by
    rw [Span.slice, Span.slice, source, other, Text.slice_append_left _ within,
      Text.slice_append_left _ within]
  turns := .operation parting.starts.follows parting.startsOther.follows

variable {parting}

theorem Abreast.fork {taken : List Token} {stage twin : Stage}
    (abreast : parting.Abreast taken stage twin) :
    parting.fork.Abreast taken stage twin where
  here := abreast.here
  there := abreast.there
  within token member := ⟨Nat.zero_le _, abreast.within token member⟩
  reached := Nat.zero_le _
  position := abreast.position
  last _ := abreast.last
  tracker := abreast.tracker
  nextId := abreast.nextId

end Parting

/-- An operation that goes on to where another one starts is parsed in the same way whichever
operation starts there, provided that it does not end its block, and that nothing is wrong before
its results are defined. Whether results clash with earlier ones is the same in both texts, and so
are the errors that are added. If a stack slot is reserved with nothing but the types, the name of a
result must not come next. -/
theorem operation_follower {parting : Parting} {levels : Nat} {options otherOptions : Options}
    {state twin final : State} {taken : List Token} {op : Operation}
    (abreast : parting.Abreast taken state.stage twin.stage)
    (live : state.halted = false) (twinLive : twin.halted = false)
    (never : ∀ types attributes, otherOptions.cancellation.isSet types attributes = false)
    (run : Parser.operation (Parser.regionWithin levels)
      ⟨parting.source, options, .structural⟩ state = (some op, final))
    (silent : (Parser.operationHead (Parser.regionWithin levels)
      ⟨parting.source, options, .structural⟩ state).2.diagnostics.errors = state.diagnostics.errors)
    (stops : final.cursor.rest = parting.behind)
    (goesOn : op.isTerminator = false)
    (keyword : op.isBareSlot = true → parting.beyond.head?.map (·.kind) = some .keyword) :
    ∃ last, Parser.operation (Parser.regionWithin levels)
        ⟨parting.other, otherOptions, .structural⟩ twin = (some op, last) ∧
      (∃ errors, final.diagnostics.errors = state.diagnostics.errors ++ errors ∧
        last.diagnostics.errors = twin.diagnostics.errors ++ errors) ∧
      last.cursor.rest = parting.beyond ∧ last.cursor.position = final.cursor.position := by
  have regions := Means.regionWithin levels
  have appends : Appends (Parser.operationHead (Parser.regionWithin levels)) :=
    inherited_appends.operationHead appends_warnDeprecated appends_unknownOpcode
    (appends_regionWithin levels)
  obtain ⟨⟨names, read⟩, outcome, reads⟩ :=
    (Means.operationHead regions).sound_of_errors_eq appends rfl live silent
  cases head : Parser.operationHead (Parser.regionWithin levels)
    ⟨parting.source, options, .structural⟩ state with
  | mk found middle =>
    rw [head] at outcome reads silent
    obtain rfl : found = some (names, read) := outcome
    obtain ⟨results, tracker, new, defines⟩ := mapM_define_run names middle.tracker
    -- Defining the results reads nothing, so the head ends where the operation does.
    rw [operation_run_of_head head, bind_run, defines _ middle rfl] at run
    obtain ⟨rfl, rfl⟩ : op = _ ∧ final = _ := by
      injection run with given ended
      exact ⟨(Option.some.inj given).symm, ended.symm⟩
    have toBehind : middle.stage.rest = [] ++ parting.behind := stops
    have noBare : parting.fork.MeetsValue → Body.isBareSlot read.2.2 = false := by
      intro meets
      by_contra isBare
      have other := (keyword (Bool.eq_true_of_not_eq_false isBare)).symm.trans meets
      cases other
    obtain ⟨after, again, done⟩ :=
      Fork.operationHead regions (Fork.regionWithin_persists levels) reads
      abreast.fork toBehind (fun _ _ => Operation.isTerminator_opcode goesOn) fun _ => noBare
    obtain ⟨between, runAgain, rfl, silentAgain⟩ := (Means.operationHead regions).complete_errors_eq
      appends ⟨parting.other, otherOptions, .structural⟩ rfl twinLive never again
    have shared : taken ≠ [] :=
      abreast.fork.ne_nil toBehind (Means.progresses_operationHead regions _ _ _ _ reads)
    refine ⟨{ between with tracker, diagnostics := between.diagnostics.append new }, ?_,
      ⟨new.filter Diagnostic.isError, ?_, ?_⟩, done.there, done.position⟩
    · have span : twin.cursor.spanBetween between.cursor = state.cursor.spanBetween middle.cursor :=
        abreast.fork.spanBetween_eq shared done
      rw [operation_run_of_head runAgain, bind_run, defines _ between done.tracker, ← span]
      rfl
    · rw [← silent]
      exact Diagnostics.errors_append _ _
    · rw [← silentAgain]
      exact Diagnostics.errors_append _ _

/-- The start of parsing a text. -/
def Parser.State.atText (text : List Char) : State :=
  initial (tokenize (String.ofList text))

/-- Parses the operation at the start of a text. -/
def Parser.operationOf (text : List Char) : Option Operation × State :=
  Parser.operation (Parser.regionWithin 64) ⟨text, {}, .structural⟩ (.atText text)

/-- At their start, two texts are at the same place. -/
theorem Parting.abreast_atText {parting : Parting} {taken : List Token}
    (here : (tokenize (String.ofList parting.source)).tokens = taken ++ parting.behind)
    (there : (tokenize (String.ofList parting.other)).tokens = taken ++ parting.beyond)
    (within : taken.all (·.span.stop ≤ Text.byteSize parting.shared) = true) :
    parting.Abreast taken (State.atText parting.source).stage
      (State.atText parting.other).stage where
  here := here
  there := there
  within token member := of_decide_eq_true (List.all_eq_true.1 within token member)
  position := rfl
  last := rfl
  tracker := rfl
  nextId := rfl

/-- A stack that is restored, in front of the end of a block and in front of a result. -/
def restoredStack : Parting where
  shared := "cir.stack_restore %s : !p ".toList
  tail := "cir.trap".toList
  otherTail := "%t = cir.stack_save : !p".toList
  behind := (tokenize "cir.stack_restore %s : !p cir.trap").tokens.drop 4
  beyond := (tokenize "cir.stack_restore %s : !p %t = cir.stack_save : !p").tokens.drop 4
  starts := ⟨_, _, by cbv, .inl rfl⟩
  startsOther := ⟨_, _, by cbv, .inr rfl⟩

/-- Restoring a stack is parsed in the same way whether a value comes next or not. -/
theorem operation_follower_restoredStack :
    (operationOf restoredStack.source).1.map Operation.isTerminator = some false ∧
      (operationOf restoredStack.other).1 = (operationOf restoredStack.source).1 ∧
        (operationOf restoredStack.other).2.cursor.rest = restoredStack.beyond := by
  have within : ((tokenize "cir.stack_restore %s : !p cir.trap").tokens.take 4).all
      (·.span.stop ≤ Text.byteSize restoredStack.shared) = true := by
    cbv
  have abreast := Parting.abreast_atText (by cbv) (by cbv) within
  have kinds : (operationOf restoredStack.source).1.map
      (fun op => (op.isTerminator, op.isBareSlot)) =
      some (false, false) := by
    cbv
  have silent : (Parser.operationHead (Parser.regionWithin 64)
      ⟨restoredStack.source, {}, .structural⟩ (.atText restoredStack.source)).2.diagnostics.errors =
        (State.atText restoredStack.source).diagnostics.errors := by
    cbv
  have stops : (operationOf restoredStack.source).2.cursor.rest = restoredStack.behind := by cbv
  have never : ∀ types attributes, (Options.cancellation {}).isSet types attributes = false :=
    fun _ _ => rfl
  obtain ⟨op, parsed, same⟩ := Option.map_eq_some_iff.1 kinds
  obtain ⟨goesOn, noSlot⟩ : op.isTerminator = false ∧ op.isBareSlot = false := Prod.mk.inj same
  obtain ⟨last, again, _, toBeyond, _⟩ := operation_follower abreast rfl rfl never
    (Prod.ext parsed rfl) silent stops goesOn (by rw [noSlot]; rintro ⟨⟩)
  have again : operationOf restoredStack.other = (some op, last) := again
  rw [again, parsed]
  exact ⟨congrArg some goesOn, rfl, toBeyond⟩

/-- A bare stack slot is parsed in front of a keyword, but not in front of a result: the name of the
result is taken for the number of elements, behind which a comma is missing. -/
theorem bareSlot_takes_follower :
    ((operationOf "cir.alloca !t, !p, cir.stack_save : !q".toList).1.map
        (fun op => (op.isTerminator, op.isBareSlot)) = some (false, true) ∧
      (operationOf "cir.alloca !t, !p, cir.stack_save : !q".toList).2.cursor.rest.map (·.text) =
        ["cir.stack_save", ":", "!q"]) ∧
      (operationOf "cir.alloca !t, !p, %n = cir.stack_save : !q".toList).1.isNone = true := by
  constructor
  · constructor <;> cbv
  · cbv

end CirText
