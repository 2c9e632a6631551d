import CirText.Proofs.Parser.Truncation

/-!
# Going on after what is no operation

Tokens at which no operation can start are skipped together with what follows them up to the next
place where an operation or a block starts, or to the brace that closes the region. One diagnostic
is reported; the scopes, the numbers of operations and what has been read of the region stay as they
are, so a loop through a region or a source unit goes on as if the tokens had not been there.
-/

namespace CirText

/-! ## Skipping -/

/-- Whether parsing can go on at a token of the class. -/
def TokenKind.resumes : TokenKind → Bool
  | .keyword | .value | .label => true
  | _ => false

/-- Whether, inside the given number of braces, tokens close these braces and all that they open,
and no token outside of braces is one at which parsing can go on. -/
def isJunk (depth : Nat) : List Token → Bool
  | [] => depth == 0
  | token :: rest =>
    if token.isPunct .leftBrace then isJunk (depth + 1) rest
    else if token.isPunct .rightBrace then
      match depth with
      | 0 => false
      | depth + 1 => isJunk depth rest
    else (depth != 0 || !token.kind.resumes) && isJunk depth rest

namespace Cursor

/-- Whether parsing goes on at the tokens without skipping any of them. -/
def Resumes (tokens : List Token) : Prop :=
  fromBoundary 0 tokens = tokens

theorem resumes_of_startsUnit {tokens : List Token} (starts : startsUnit tokens = true) :
    Resumes tokens := by
  cases tokens with
  | nil => rfl
  | cons token rest =>
    have kind : token.kind.resumes = true := by
      rw [startsUnit, Bool.or_eq_true, Bool.or_eq_true] at starts
      rcases starts with (keyword | results) | block
      · have isKeyword : token.kind = .keyword := by simpa using keyword
        rw [isKeyword]
        rfl
      · cases rest with
        | nil => cases results
        | cons second rest =>
          have isValue : token.kind = .value := by
            rw [startsResults, Bool.and_eq_true] at results
            exact beq_iff_eq.1 results.1
          rw [isValue]
          rfl
      · cases rest with
        | nil => cases block
        | cons second rest =>
          have isLabel : token.kind = .label := by
            rw [startsBlock, Bool.and_eq_true] at block
            exact beq_iff_eq.1 block.1
          rw [isLabel]
          rfl
    have noBrace : ∀ mark, token.isPunct mark = false := by
      intro mark
      rw [Token.isPunct]
      cases same : token.kind <;> simp_all [TokenKind.resumes]
    rw [Resumes, fromBoundary]
    simp only [noBrace, starts, Bool.false_eq_true, if_false, beq_self_eq_true, Bool.and_self,
      if_true]

theorem resumes_of_rightBrace {token : Token} {rest : List Token}
    (closes : token.isPunct .rightBrace = true) : Resumes (token :: rest) := by
  have other : token.isPunct .leftBrace = false := by
    rw [Token.isPunct, beq_iff_eq.1 closes]
    rfl
  rw [Resumes, fromBoundary]
  simp only [other, closes, Bool.false_eq_true, if_false, if_true]

theorem startsUnit_eq_false {token : Token} {rest : List Token}
    (other : token.kind.resumes = false) : startsUnit (token :: rest) = false := by
  have keyword : (token.kind == .keyword) = false := by
    apply beq_eq_false_iff_ne.2
    rintro same
    rw [same] at other
    cases other
  have value : (token.kind == .value) = false := by
    apply beq_eq_false_iff_ne.2
    rintro same
    rw [same] at other
    cases other
  have label : (token.kind == .label) = false := by
    apply beq_eq_false_iff_ne.2
    rintro same
    rw [same] at other
    cases other
  cases rest with
  | nil => simp [startsUnit, startsResults, startsBlock, keyword]
  | cons second rest => simp [startsUnit, startsResults, startsBlock, keyword, value, label]

/-- Junk is skipped. -/
theorem fromBoundary_append {depth : Nat} {junk : List Token} (h : isJunk depth junk = true)
    (rest : List Token) : fromBoundary depth (junk ++ rest) = fromBoundary 0 rest := by
  induction junk generalizing depth with
  | nil =>
    obtain rfl : depth = 0 := beq_iff_eq.1 h
    rfl
  | cons token junk ih =>
    rw [List.cons_append, fromBoundary.eq_def]
    rw [isJunk.eq_def] at h
    dsimp only at h ⊢
    split at h
    · rename_i opens
      rw [if_pos opens]
      exact ih h
    · rename_i notOpen
      rw [if_neg notOpen]
      split at h
      · rename_i closes
        rw [if_pos closes]
        cases depth with
        | zero => cases h
        | succ depth => exact ih h
      · rename_i notClose
        rw [if_neg notClose]
        obtain ⟨calm, later⟩ := Bool.and_eq_true_iff.1 h
        have stays : (depth == 0 && startsUnit (token :: (junk ++ rest))) = false := by
          cases depth with
          | zero => exact startsUnit_eq_false (by simpa using calm)
          | succ depth => rfl
        rw [stays]
        exact ih later

theorem toBoundary_append {cursor : Cursor} {junk rest : List Token}
    (same : cursor.rest = junk ++ rest) (isJunk : isJunk 0 junk = true) (resumes : Resumes rest) :
    cursor.toBoundary = cursor.advance junk.length := by
  rw [toBoundary, same, fromBoundary_append isJunk, show fromBoundary 0 rest = rest from resumes,
    advanceTo, same, List.length_append, Nat.add_sub_cancel]

end Cursor

namespace Parser

/-! ## Refusals -/

/-- Whether no operation starts at the token, and it is no brace: it is the keyword of an unknown
operation, or no keyword, value or label. -/
def refuses (token : Token) : Bool :=
  if token.kind == .keyword then (Opcode.ofKeyword? token.text).isNone
  else !token.kind.resumes && !token.isPunct .leftBrace && !token.isPunct .rightBrace

/-- What is reported at a token at which no operation starts. -/
def State.refusal (state : State) : Diagnostic :=
  if state.cursor.peek.kind == .keyword then
    .error (.unknownOpcode state.cursor.peek.text) state.cursor.peek.span
  else
    .errorWithFix (.malformed state.construct "an operation" state.cursor.peek.describe)
      state.cursor.peek.span (.emptyAt state.cursor.lastStop)

theorem span_refusal (state : State) : state.refusal.span = state.cursor.peek.span := by
  unfold State.refusal
  split <;> rfl

/-- The state after the refusal of an operation and the junk behind it. -/
def State.afterJunk (state : State) (junk : List Token) : State :=
  { state with
    cursor := state.cursor.next.advance junk.length
    diagnostics := state.diagnostics.push state.refusal }

section Refusal

variable {region : RegionKind → Bool → Parser (Region Operation)} {input : Input} {state : State}

theorem operation_refused (refused : refuses state.cursor.peek = true) :
    operation region input state =
      (none, { state with diagnostics := state.diagnostics.push state.refusal }) := by
  have noNames : state.cursor.atKind .value = false := by
    rw [Cursor.atKind]
    apply beq_eq_false_iff_ne.2
    intro same
    simp [refuses, same, TokenKind.resumes] at refused
  have keyword : fromKeyword region input state =
      (none, { state with diagnostics := state.diagnostics.push state.refusal }) := by
    change (if state.cursor.peek.kind == .keyword then _ else _ : Parser (Nat × _)) input state = _
    unfold State.refusal
    unfold refuses at refused
    split at refused
    · rename_i isKeyword
      rw [if_pos isKeyword, if_pos isKeyword, Option.isNone_iff_eq_none.1 refused]
      rfl
    · rename_i other
      rw [if_neg other, if_neg other]
      rfl
  rw [operation_run_of_noResults noNames, attempt_bind_run, keyword]
  rfl

theorem resynchronize_junk {first : Token} {junk rest : List Token} (live : state.halted = false)
    (same : state.cursor.rest = first :: (junk ++ rest)) (isJunk : isJunk 0 junk = true)
    (resumes : Cursor.Resumes rest) :
    resynchronize state.cursor input
        { state with diagnostics := state.diagnostics.push state.refusal } =
      (some (), state.afterJunk junk) := by
  have behind : state.cursor.next.rest = junk ++ rest := Cursor.rest_next_of_cons same
  unfold resynchronize change
  simp only [live, Bool.false_eq_true, if_false, if_true, State.afterJunk,
    Cursor.toBoundary_append behind isJunk resumes]

end Refusal

/-! ## Loops -/

section Loops

variable {region : RegionKind → Bool → Parser (Region Operation)} {input : Input} {state : State}
  {first : Token} {junk rest : List Token}

theorem length_afterJunk_lt (same : state.cursor.rest = first :: (junk ++ rest)) :
    (state.afterJunk junk).cursor.rest.length < state.cursor.rest.length := by
  rw [State.afterJunk, Cursor.rest_advance, Cursor.rest_next, same]
  simp only [List.drop_one, List.tail_cons, List.drop_left, List.length_cons, List.length_append]
  omega

/-- The loop through the blocks of a region goes on behind junk as if it had not been there, but for
one diagnostic at its first token. -/
theorem blocks_junk {kind : RegionKind} {opening : Span} {progress : Progress}
    (live : state.halted = false) (same : state.cursor.rest = first :: (junk ++ rest))
    (refused : refuses first = true) (isJunk : isJunk 0 junk = true)
    (resumes : Cursor.Resumes rest) :
    iterate (blockStep region kind opening) progress input state =
      iterate (blockStep region kind opening) progress input (state.afterJunk junk) := by
  have next := Cursor.peek_of_cons same
  have notClosing : state.cursor.atPunct .rightBrace = false := by
    rw [Cursor.atPunct, next]
    unfold refuses at refused
    split at refused
    · rename_i isKeyword
      rw [Token.isPunct, beq_iff_eq.1 isKeyword]
      rfl
    · simp only [Bool.and_eq_true, Bool.not_eq_true'] at refused
      exact refused.2
  have notEnd : state.cursor.atEnd = false := by
    rw [Cursor.atEnd, same]
    rfl
  have noBlock : Cursor.startsBlock state.cursor.rest = false := by
    rw [same]
    cases others : junk ++ rest with
    | nil => rfl
    | cons second others =>
      have noLabel : (first.kind == .label) = false := by
        apply beq_eq_false_iff_ne.2
        intro isLabel
        simp [refuses, isLabel, TokenKind.resumes] at refused
      rw [Cursor.startsBlock, noLabel, Bool.false_and]
  have step : blockStep region kind opening progress input state =
      (some (.again progress), state.afterJunk junk) := by
    have run : blockStep region kind opening progress input state =
        (if state.halted then fail
        else if state.cursor.atPunct .rightBrace then
          skip >>= fun _ => Pure.pure (.done (progress.blocks, state.cursor.peek.span))
        else if state.cursor.atEnd then reportUnclosed kind opening >>= fun _ => fail
        else if Cursor.startsBlock state.cursor.rest then
          attempt (blockHeader region) >>= afterHeader state.cursor progress
        else
          attempt (operation region) >>= afterOperation kind state.cursor progress :
          Parser (Step Progress (List (Block Operation) × Span))) input state := rfl
    rw [run, live, notClosing, notEnd, noBlock]
    simp only [Bool.false_eq_true, if_false]
    rw [bind_run, attempt, operation_refused (next ▸ refused)]
    change skipUnit state.cursor progress input _ = _
    rw [skipUnit, bind_run, resynchronize_junk live same isJunk resumes]
    rfl
  rw [iterate_run, step]
  simp only [length_afterJunk_lt same, if_true]

/-- The loop through the items of a source unit goes on behind an unknown operation and junk. -/
theorem items_junk {braced : Bool} {earlier : List Operation} (live : state.halted = false)
    (uncancelled : input.stops state = false)
    (same : state.cursor.rest = first :: (junk ++ rest)) (isKeyword : first.kind = .keyword)
    (unknown : Opcode.ofKeyword? first.text = none) (isJunk : isJunk 0 junk = true)
    (resumes : Cursor.Resumes rest) :
    iterate (collectItem region braced) earlier input state =
      iterate (collectItem region braced) earlier input (state.afterJunk junk) := by
  have next := Cursor.peek_of_cons same
  have refused : refuses state.cursor.peek = true := by
    rw [next, refuses, isKeyword, unknown]
    rfl
  have inside : (state.cursor.atEnd || braced && state.cursor.atPunct .rightBrace) = false := by
    rw [Cursor.atEnd, Cursor.atPunct, next, same, Token.isPunct, isKeyword]
    simp
  have starts : startsDeclaration state.cursor.peek = true := by
    rw [next, startsDeclaration, isKeyword, unknown]
    rfl
  have declared : declaration region input state =
      (none, { state with diagnostics := state.diagnostics.push state.refusal }) := by
    rw [← operation_refused refused]
    change (if startsDeclaration state.cursor.peek then operation region else _ :
      Parser Operation) input state = _
    rw [if_pos starts]
  have step : collectItem region braced earlier input state =
      (some (.again earlier), state.afterJunk junk) := by
    rw [collectItem, map_run, itemStep_run, live, uncancelled]
    simp only [Bool.false_eq_true, if_false]
    rw [nextItem_run, inside, declared]
    simp only [Bool.false_eq_true, if_false]
    rw [afterItem, bind_run, resynchronize_junk live same isJunk resumes]
    change (some (if (!state.halted) = true then _ else _), _) = _
    rw [live]
    rfl
  rw [iterate_run, step]
  simp only [length_afterJunk_lt same, if_true]

end Loops

end Parser

end CirText
