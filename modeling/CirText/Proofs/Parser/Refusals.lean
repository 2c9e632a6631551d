import CirText.Proofs.Parser.Inherited
import CirText.Proofs.Parser.Recovery

/-!
# Refusals

A parser that refuses the next token fails there, with one error at the token, and leaves everything
else as it is. So does the parser of items where neither a function nor a global starts; and where
one starts but goes on with a punctuation mark, the error is at the mark.
-/

namespace CirText

/-- Only functions and globals are declared. -/
theorem Opcode.eq_of_isDeclaration {opcode : Opcode} (declares : opcode.isDeclaration = true) :
    opcode = .func ∨ opcode = .global := by
  revert declares
  cases opcode <;> decide

/-- Whether a token is the keyword of a function or of a global. -/
def Token.declares (token : Token) : Bool :=
  token.kind == .keyword && (Opcode.ofKeyword? token.text).any (·.isDeclaration)

namespace Parser

variable {α β : Type} {region : RegionKind → Bool → Parser (Region Operation)} {input : Input}
  {state : State}

/-! ## Refusals at the next token -/

/-- Whether a parser fails at the next token, with an error there, and leaves the rest of the state
alone. -/
def Refuses (input : Input) (state : State) (parser : Parser α) : Prop :=
  ∃ diagnostic : Diagnostic, diagnostic.isError = true ∧ diagnostic.span = state.cursor.peek.span ∧
    parser input state = (none, { state with diagnostics := state.diagnostics.push diagnostic })

namespace Refuses

theorem bind {parser : Parser α} (refuses : Refuses input state parser) (next : α → Parser β) :
    Refuses input state (parser >>= next) := by
  obtain ⟨diagnostic, isError, span, run⟩ := refuses
  exact ⟨diagnostic, isError, span, by rw [bind_run, run]⟩

theorem after {parser : Parser α} {a : α} {next : α → Parser β}
    (still : parser input state = (some a, state))
    (refuses : Refuses input state (next a)) : Refuses input state (parser >>= next) := by
  obtain ⟨diagnostic, isError, span, run⟩ := refuses
  refine ⟨diagnostic, isError, span, ?_⟩
  rw [bind_run, still]
  exact run

theorem map {parser : Parser α} (refuses : Refuses input state parser) (f : α → β) :
    Refuses input state (f <$> parser) :=
  refuses.bind _

theorem expected (what : String) : Refuses input state (Parser.expected what : Parser α) :=
  ⟨.errorWithFix (.malformed state.construct what state.cursor.peek.describe) state.cursor.peek.span
    (.emptyAt state.cursor.lastStop), rfl, rfl, rfl⟩

theorem satisfying {condition : Token → Bool} (no : condition state.cursor.peek = false)
    (what : String) : Refuses input state (Parser.satisfying condition what) := by
  have refused : Refuses input state (Parser.expected what : Parser Token) := expected what
  obtain ⟨diagnostic, isError, span, run⟩ := refused
  refine ⟨diagnostic, isError, span, ?_⟩
  rw [satisfying_run, no]
  exact run

end Refuses

/-! ## Functions and globals -/

theorem modifierRun_run_of_none {rules : List ModifierRule}
    (none : ∀ rule ∈ rules, state.cursor.atWord rule.keyword = false) :
    modifierRun rules input state = (some [], state) := by
  have unfound : (rules.find? fun rule => state.cursor.atWord rule.keyword) = .none :=
    List.find?_eq_none.2 fun rule member => Bool.eq_false_iff.1 (none rule member)
  unfold modifierRun
  rw [iterate_run]
  simp only [bind_run, cursor, look, unfound, pure_run]

section Grammars

open Grammar

variable {A B : Type} {start : Cursor}

theorem Refuses.view (as : View A B) {inner : Grammar (Region Operation) A}
    (refuses : Refuses input state (inner.parse start region)) :
    Refuses input state ((Grammar.view as inner).parse start region) :=
  refuses.map _

theorem Refuses.seq_left {first : Grammar (Region Operation) A}
    (refuses : Refuses input state (first.parse start region))
    (second : Grammar (Region Operation) B) :
    Refuses input state ((Grammar.seq first second).parse start region) :=
  refuses.bind _

theorem Refuses.seq_right {first : Grammar (Region Operation) A} {a : A}
    (still : first.parse start region input state = (some a, state))
    {second : Grammar (Region Operation) B}
    (refuses : Refuses input state (second.parse start region)) :
    Refuses input state ((Grammar.seq first second).parse start region) :=
  .after still (refuses.bind _)

/-- In front of the name of a function or a global there is no punctuation mark. -/
theorem Refuses.declaration_body {opcode : Opcode} {mark : Punct}
    (declares : opcode.isDeclaration = true)
    (isMark : state.cursor.peek.isPunct mark = true) (form : Form) :
    Refuses input state ((Grammar.body opcode form).parse start region) := by
  have kind : state.cursor.peek.kind = .punct mark := beq_iff_eq.1 isMark
  have modifiers : ∀ {S : Type} (table : ModifierTable S),
      (Grammar.modifierRun table).parse start region input state =
      (some (table.collect []), state) := by
    intro S table
    have still : Parser.modifierRun table.rules input state = (some [], state) :=
      modifierRun_run_of_none fun rule _ => by
        rw [Cursor.atWord, Token.isWord, kind]
        rfl
    rw [Grammar.parse, map_run, still]
    rfl
  have name : Refuses input state
      ((Grammar.spaced (Grammar.definition (R := Region Operation) .symbol)).parse
        start region) := by
    refine .view _ (.seq_right (a := ()) rfl (.bind (.satisfying ?_ _) _))
    rw [kind]
    rfl
  obtain rfl | rfl := Opcode.eq_of_isDeclaration declares
  · exact .view _ (.seq_right (modifiers _) (.seq_left name _))
  · have noVisibility :
        (Grammar.optional (R := Region Operation) (.kind .string)
          (Grammar.spaced Grammar.string)).parse start
          region input state = (some none, state) := by
      have absent : state.cursor.atKind .string = false := by
        rw [Cursor.atKind, kind]
        rfl
      change (if state.cursor.atKind .string then _ else Pure.pure none :
        Parser (Option Lexeme)) input
        state = _
      rw [absent]
      rfl
    exact .view _ (.seq_right noVisibility (.seq_right (modifiers _) (.seq_left name _)))

end Grammars

/-- What is neither a function nor a global is refused at its first token. -/
theorem refuses_declaration (none : state.cursor.peek.declares = false) :
    Refuses input state (declaration region) := by
  have run : declaration region input state =
      (if startsDeclaration state.cursor.peek then operation region
      else expected "`cir.func` or `cir.global`" : Parser Operation) input state := rfl
  unfold Refuses
  rw [run]
  by_cases starts : startsDeclaration state.cursor.peek = true
  · have unknown : refuses state.cursor.peek = true := by
      rw [startsDeclaration, Bool.and_eq_true] at starts
      rw [Token.declares, starts.1, Bool.true_and] at none
      rw [refuses, if_pos starts.1]
      cases known : Opcode.ofKeyword? state.cursor.peek.text with
      | none => rfl
      | some opcode =>
        rw [known] at none starts
        exact absurd starts.2 (Bool.eq_false_iff.1 none)
    refine ⟨state.refusal, ?_, span_refusal state, ?_⟩
    · unfold State.refusal
      split <;> rfl
    · rw [if_pos starts, operation_refused unknown]
  · rw [if_neg starts]
    exact Refuses.expected _

/-- A step through the items that meets something else goes on at the next place behind its first
token. -/
theorem itemStep_run_of_not_declares {braced : Bool} (live : state.halted = false)
    (uncancelled : input.stops state = false)
    (inside : (state.cursor.atEnd || braced && state.cursor.atPunct .rightBrace) = false)
    (none : state.cursor.peek.declares = false) :
    ∃ diagnostic : Diagnostic, diagnostic.isError = true ∧ diagnostic.span =
      state.cursor.peek.span ∧ itemStep region braced input state =
        (some (.none, true),
          { state with
            cursor := state.cursor.next.toBoundary
            diagnostics := state.diagnostics.push diagnostic }) := by
  have atDeclaration : Refuses input state (declaration region) := refuses_declaration none
  obtain ⟨diagnostic, isError, span, refused⟩ := atDeclaration
  refine ⟨diagnostic, isError, span, ?_⟩
  rw [itemStep_run, live, uncancelled]
  simp only [Bool.false_eq_true, if_false]
  rw [nextItem_run, inside, refused]
  simp only [Bool.false_eq_true, if_false]
  simp [afterItem, bind_run, pure_run, resynchronize, change, look, live]

/-! ## Errors in the text of a token -/

/-- Whether an error in the text of a token has been reported. -/
def State.Blames (state : State) (token : Token) : Prop :=
  ∃ diagnostic ∈ state.diagnostics.items.toList, diagnostic.isError = true ∧
    token.span.start ≤ diagnostic.span.start ∧ diagnostic.span.stop ≤ token.span.stop

theorem Traced.blames {parser : Parser α} {post : List Reference → α → Prop} {token : Token}
    (traced : Traced parser post) (blamed : state.Blames token) :
    (parser input state).2.Blames token := by
  obtain ⟨diagnostic, reported, rest⟩ := blamed
  exact ⟨diagnostic, traced.reports input state reported, rest⟩

theorem State.Blames.of_push {after : State} {token : Token} {diagnostic : Diagnostic}
    (pushed : after.diagnostics = state.diagnostics.push diagnostic)
    (isError : diagnostic.isError = true)
    (span : diagnostic.span = token.span) : after.Blames token := by
  refine ⟨diagnostic, ?_, isError, span ▸ Nat.le_refl _, span ▸ Nat.le_refl _⟩
  rw [pushed, Diagnostics.push, Array.toList_push]
  exact List.mem_append_right _ List.mem_cons_self

/-- A function or a global does not go on with a punctuation mark. -/
theorem declaration_blames_punct {first second : Token} {rest : List Token} {mark : Punct}
    (same : state.cursor.rest = first :: second :: rest) (declares : first.declares = true)
    (isMark : second.isPunct mark = true) :
    (declaration region input state).2.Blames second := by
  have next : state.cursor.peek = first := Cursor.peek_of_cons same
  have afterwards : state.cursor.next.peek = second :=
    Cursor.peek_of_cons (Cursor.rest_next_of_cons same)
  rw [Token.declares, Bool.and_eq_true, Option.any_eq_true] at declares
  obtain ⟨isKeyword, opcode, known, isDeclaration⟩ := declares
  have starts : startsDeclaration state.cursor.peek = true := by
    rw [next, startsDeclaration, isKeyword, known]
    exact isDeclaration
  have noNames : state.cursor.atKind .value = false := by
    rw [Cursor.atKind, next, beq_iff_eq.1 isKeyword]
    rfl
  have run : declaration region input state = operation region input state := by
    change (if startsDeclaration state.cursor.peek then operation region else _ : Parser Operation)
      input state = _
    rw [if_pos starts]
  obtain ⟨diagnostic, isError, span, refused⟩ : Refuses input
      { state with
        cursor := state.cursor.next
        nextId := state.nextId + 1
        construct := opcode.keyword } ((Grammar.body opcode .canonical).parse
        state.cursor region) :=
    .declaration_body isDeclaration (afterwards ▸ isMark) _
  have only : Form.choose opcode state.cursor.next = .ok .canonical := by
    obtain rfl | rfl := Opcode.eq_of_isDeclaration isDeclaration <;> rfl
  have read : (skip >>= fun _ => afterKeyword region state.cursor opcode : Parser (Nat × _))
      input state = (none,
        { state with
          cursor := state.cursor.next
          nextId := state.nextId + 1
          diagnostics := state.diagnostics.push diagnostic }) := by
    simp only [afterKeyword, bind_run, skip, change, takeId, naming, chooseForm, cursor,
      look, only, pure_run, refused]
  refine State.Blames.of_push (?_ : _ = state.diagnostics.push diagnostic) isError
    (span.trans (congrArg _ afterwards))
  rw [run, operation_run_of_noResults noNames, attempt_bind_run,
    fromKeyword_run_of_known (next ▸ beq_iff_eq.1 isKeyword) (next ▸ known), read]
  rfl

/-- What has been reported after the first step of a loop has been reported in the end. -/
theorem iterate_blames {σ : Type} {step : σ → Parser (Step σ β)}
    (steps : ∀ accumulated, Traced (step accumulated) fun _ _ => True) {accumulated : σ}
    {token : Token} (blamed : (step accumulated input state).2.Blames token) :
    (iterate step accumulated input state).2.Blames token := by
  have loop : ∀ accumulated, Leads (fun before after => before.Blames token → after.Blames token)
      (iterate step accumulated) :=
    leads_iterate _ (fun left right before => right (left before)) fun _ _ _ before =>
      (steps _).blames before
  rw [iterate_run]
  cases run : step accumulated input state with
  | mk outcome next =>
    rw [run] at blamed
    rcases outcome with _ | ⟨further | result⟩
    · exact blamed
    · dsimp only
      split
      · exact loop further input next blamed
      · exact blamed
    · exact blamed

/-- A cancellation is reported at the next token. -/
theorem State.stopped_blames
    (visible : state.cursor.peek.span.start ≤ state.cursor.peek.span.stop) :
    state.stopped.Blames state.cursor.peek := by
  refine ⟨.error .cancelled (.emptyAt state.cursor.peek.span.start), ?_, rfl,
    Nat.le_refl _, visible⟩
  change _ ∈ (state.diagnostics.items.push _).toList
  rw [Array.toList_push]
  exact List.mem_append_right _ List.mem_cons_self

/-- Where no item can be read, an error is reported at the first token. -/
theorem itemStep_blames_first {first : Token} {rest : List Token} {braced : Bool}
    (live : state.halted = false) (same : state.cursor.rest = first :: rest)
    (visible : first.span.start ≤ first.span.stop) (notClosing : first.isPunct .rightBrace = false)
    (none : first.declares = false) : (itemStep region braced input state).2.Blames first := by
  obtain rfl : state.cursor.peek = first := Cursor.peek_of_cons same
  cases stops : input.stops state with
  | true =>
    rw [itemStep_run, live, stops]
    exact state.stopped_blames visible
  | false =>
    have inside : (state.cursor.atEnd || braced && state.cursor.atPunct .rightBrace) = false := by
      rw [Cursor.atEnd, Cursor.atPunct, same, notClosing, Bool.and_false]
      rfl
    obtain ⟨diagnostic, isError, span, step⟩ :=
      @itemStep_run_of_not_declares region _ _ _ live stops inside none
    rw [step]
    exact .of_push rfl isError span

/-- Where a function or a global goes on with a punctuation mark, an error is reported there, unless
the reading is cancelled. -/
theorem itemStep_blames_second {first second : Token} {rest : List Token} {mark : Punct}
    {braced : Bool} (live : state.halted = false)
    (same : state.cursor.rest = first :: second :: rest)
    (visible : first.span.start ≤ first.span.stop) (declares : first.declares = true)
    (isMark : second.isPunct mark = true) :
    ∃ token ∈ [first, second], (itemStep region braced input state).2.Blames token := by
  have next : state.cursor.peek = first := Cursor.peek_of_cons same
  cases stops : input.stops state with
  | true =>
    refine ⟨first, List.mem_cons_self, ?_⟩
    rw [itemStep_run, live, stops, ← next]
    exact state.stopped_blames (next ▸ visible)
  | false =>
    have inside : (state.cursor.atEnd || braced && state.cursor.atPunct .rightBrace) = false := by
      rw [Token.declares, Bool.and_eq_true] at declares
      rw [Cursor.atEnd, Cursor.atPunct, next, same, Token.isPunct, beq_iff_eq.1 declares.1]
      cases braced <;> rfl
    have blamed : (declaration region input state).2.Blames second :=
      declaration_blames_punct same declares isMark
    have goesOn : ∀ found, Traced (afterItem state.cursor found) fun _ _ => True := by
      rintro (_ | op)
      · exact (Traced.resynchronize _).andThen fun _ _ => .look fun _ => .pure trivial
      · exact .pure trivial
    refine ⟨second, by simp, ?_⟩
    rw [itemStep_run, live, stops]
    simp only [Bool.false_eq_true, if_false]
    rw [nextItem_run, inside]
    exact (goesOn _).blames blamed

end Parser

end CirText
