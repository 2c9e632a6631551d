import CirText.Proofs.Forms
import CirText.Proofs.Grammar.Warnings
import CirText.Proofs.Parser.Place

/-!
# Operations in a deprecated form

Three operations can be written without types: a bare conversion, a bare pointer stride, and a copy
in the comma form. Their warning reaches from the keyword of the operation to its end. An operation
keeps its span but not the place of its keyword, which is found again among the tokens of the source
unit.
-/

namespace CirText

open CirText.Parser

/-! ## Deprecated operations -/

/-- What a warning says about a payload that is written in a deprecated form. -/
def Payload.deprecated? {R : Type} : Form → Payload R → Option String
  | .bare, .instruction (.cast _ _ (.bare none)) => some "bare `cir.cast` without a type annotation"
  | .bare, .instruction (.ptrStride _ _ (.bare none)) =>
    some "bare `cir.ptr_stride` without a type annotation"
  | .comma, .instruction (.copy _ _ none) => some "comma-form `cir.copy` without a type annotation"
  | _, _ => none

namespace Operation

/-- What a warning says about an operation that is written in a deprecated form. -/
def deprecated? (op : Operation) : Option String :=
  op.payload.deprecated? op.form

/-- The keyword of an operation among the tokens of the source unit: the first one that is written
like it from the start of the operation on. -/
def keyword? (tokens : List Token) (op : Operation) : Option Token :=
  tokens.find? fun token =>
    token.kind == .keyword && token.text == op.opcode.keyword &&
      decide (op.span.start ≤ token.span.start)

/-- The warning of an operation that is written in a deprecated form. -/
def deprecation? (tokens : List Token) (op : Operation) : Option Diagnostic := do
  let message ← op.deprecated?
  let keyword ← op.keyword? tokens
  pure (.warning (.deprecated op.opcode message) ⟨keyword.span.start, op.span.stop⟩)

/-- The warnings that are owed for operations and for all operations inside them. -/
def deprecations (tokens : List Token) (ops : List Operation) : List (Option Diagnostic) :=
  ((ops.flatMap preorder).filter (·.deprecated?.isSome)).map (deprecation? tokens)

theorem deprecations_append (tokens : List Token) (ops others : List Operation) :
    deprecations tokens (ops ++ others) = deprecations tokens ops ++
      deprecations tokens others := by
  simp [deprecations]

theorem deprecations_flatMap {α : Type} (tokens : List Token) (ops : α → List Operation)
    (items : List α) : deprecations tokens (items.flatMap ops) = items.flatMap fun item =>
      deprecations tokens (ops item) := by
  induction items with
  | nil => rfl
  | cons item items ih => rw [List.flatMap_cons, deprecations_append, ih, List.flatMap_cons]

/-- What is owed for an operation is owed for it or for what is inside it. -/
theorem deprecations_one (tokens : List Token) (op : Operation) :
    deprecations tokens [op] = (if op.deprecated?.isSome then [op.deprecation? tokens] else []) ++
      deprecations tokens op.children := by
  rw [deprecations, List.flatMap_singleton, preorder_eq, List.filter_cons]
  split <;> rfl

end Operation

/-! ## Deprecated bodies -/

namespace Grammar

variable {R : Type} {opcode : Opcode} {form : Form} {b : Body R}

/-- Only three operations have deprecated forms. -/
theorem deprecated?_eq_none {payload : Payload R} (cast : payload.opcode ≠ .cast)
    (stride : payload.opcode ≠ .ptrStride) (copy : payload.opcode ≠ .copy) (form : Form) :
    payload.deprecated? form = none := by
  unfold Payload.deprecated?
  split
  · exact absurd rfl cast
  · exact absurd rfl stride
  · exact absurd rfl copy
  · rfl

theorem missing?_other (cast : opcode ≠ .cast) (stride : opcode ≠ .ptrStride)
    (copy : opcode ≠ .copy) :
    (body (R := R) opcode form).missing? b = none := by
  apply missing?_eq_none
  unfold body
  split
  all_goals first
    | rfl
    | exact absurd rfl cast
    | exact absurd rfl stride
    | exact absurd rfl copy

/-- What is missing at the end of a body is what makes its form deprecated. -/
theorem missing?_body (selected : form ∈ (Form.ruleOf opcode).forms)
    (built : (body opcode form).Builds b) :
    (body opcode form).missing? b = (b.payload.deprecated? (b.form form)).map (opcode, ·) := by
  have same := (body_describes opcode form).opcode b built
  by_cases three : opcode ∈ [.cast, .ptrStride, .copy]
  · simp only [List.mem_cons, List.not_mem_nil, or_false] at three
    rcases three with rfl | rfl | rfl
    all_goals
      simp only [Form.ruleOf, Form.Rule.forms, List.mem_cons, List.not_mem_nil,
        or_false] at selected
      rcases selected with rfl | rfl
    · obtain ⟨⟨kind, extra, result⟩, rfl⟩ := built
      rfl
    · obtain ⟨⟨kind, operand, extra, _ | typing⟩, rfl⟩ := built <;> rfl
    · obtain ⟨⟨both, extra, result⟩, rfl⟩ := built
      rfl
    · obtain ⟨⟨base, stride, _ | typing⟩, rfl⟩ := built <;> rfl
    · rw [missing?_eq_none (by rfl)]
      obtain ⟨⟨source, dest, result⟩, rfl⟩ := built
      rfl
    · obtain ⟨⟨dest, source, extra, _ | result⟩, rfl⟩ := built <;> rfl
  · simp only [List.mem_cons, List.not_mem_nil, or_false, not_or] at three
    obtain ⟨cast, stride, copy⟩ := three
    rw [missing?_other cast stride copy,
      deprecated?_eq_none (same ▸ cast) (same ▸ stride) (same ▸ copy), Option.map_none]

end Grammar

/-! ## Keywords -/

/-- Tokens stand one after the other. -/
theorem Lexer.Ordered.start_lt {offset : Nat} {left right : List Token}
    (ordered : Lexer.Ordered offset (left ++ right)) :
    ∀ earlier ∈ left, ∀ later ∈ right, earlier.span.start < later.span.start := by
  intro earlier member later after
  exact Nat.lt_of_lt_of_le (ordered.nonempty earlier (List.mem_append_left right member))
    (ordered.stop_le_start earlier member later after)

/-- The tokens that a keyword is searched among, cut where the operation starts and at its
keyword. -/
theorem Operation.keyword?_eq {tokens passed names rest : List Token} {keyword : Token}
    {op : Operation} {offset : Nat} (ordered : Lexer.Ordered offset tokens)
    (cut : tokens = passed ++ (names ++ keyword :: rest))
    (starts : (names ++ keyword :: rest).head?.map (·.span.start) = some op.span.start)
    (others : ∀ token ∈ names, token.kind ≠ .keyword) (isKeyword : keyword.kind = .keyword)
    (text : keyword.text = op.opcode.keyword) : op.keyword? tokens = some keyword := by
  subst cut
  obtain ⟨first, head, same⟩ := Option.map_eq_some_iff.1 starts
  have earlier : ∀ token ∈ passed, ¬op.span.start ≤ token.span.start := by
    intro token member
    rw [← same, Nat.not_le]
    exact ordered.start_lt token member first (List.mem_of_head? head)
  have here : op.span.start ≤ keyword.span.start := by
    obtain ⟨later, following⟩ := ordered.append_right
    rw [← same]
    exact following.head?_start_le head keyword (by simp)
  rw [keyword?, List.find?_append, List.find?_append, List.find?_eq_none.2, List.find?_eq_none.2]
  · simp [isKeyword, text, here]
  · intro token member
    simp [others token member]
  · intro token member
    simp [earlier token member]

namespace Parser

/-- The names of results are read without passing a keyword. -/
theorem ResultNamesRead.passed {source : List Char} {before after : Stage} {names : List Token}
    (reads : ResultNamesRead source before names after) :
    ∃ passed, before.rest = passed ++ after.rest ∧ ∀ token ∈ passed, token.kind ≠ .keyword := by
  have tail : ∀ {before names after}, TailReads (fun _ before (name : Token) after =>
      name.kind = .value ∧ before.Passes name after) source before names after →
        ∃ passed, before.rest = passed ++ after.rest ∧ ∀ token ∈ passed, token.kind ≠ .keyword := by
    intro before names after reads
    induction reads with
    | nil => exact ⟨[], rfl, by rintro _ ⟨⟩⟩
    | @cons before middle after name names comma first rest ih =>
      obtain ⟨isComma, passes⟩ :=
        (Stage.passes_iff (·.isPunct .comma) fun _ => rfl).1 ⟨comma, rfl, rfl⟩
      obtain ⟨passed, same, others⟩ := ih
      refine ⟨before.cursor.peek :: name :: passed, ?_, ?_⟩
      · rw [passes.1, first.2.1, same]
        rfl
      · intro token member
        rcases List.mem_cons.1 member with rfl | member
        · simp [beq_iff_eq.1 isComma]
        · rcases List.mem_cons.1 member with rfl | member
          · simp [first.1]
          · exact others token member
  unfold ResultNamesRead at reads
  split at reads
  · obtain ⟨found, middle, ⟨start, first, rest⟩, equal, ⟨isEqual, passes⟩, _⟩ := reads
    obtain ⟨passed, same, others⟩ := tail rest
    refine ⟨found.1 :: (passed ++ [equal]), ?_, ?_⟩
    · rw [first.2.1, same, passes.1]
      simp
    · intro token member
      rcases List.mem_cons.1 member with rfl | member
      · simp [first.1]
      · rcases List.mem_append.1 member with inside | last
        · exact others token inside
        · rw [List.mem_singleton.1 last, beq_iff_eq.1 isEqual]
          rintro ⟨⟩
  · obtain ⟨_, rfl⟩ := reads
    exact ⟨[], rfl, by rintro _ ⟨⟩⟩

theorem DefinesAll.cursor_eq {names : List Token} {before after : Stage} {results : List Definition}
    (defines : DefinesAll names before results after) : after.cursor = before.cursor := by
  induction names generalizing before results with
  | nil => rw [defines.2]
  | cons name names ih =>
    obtain ⟨defined, middle, first, others, rest, _⟩ := defines
    obtain ⟨_, _, rfl⟩ := first
    exact (ih rest).trans rfl

end Parser

theorem Cursor.Placed.reached {text : List Char} {first cursor : Cursor}
    (placed : first.Placed text)
    (reaches : first.Reaches cursor) : cursor.Placed text := by
  obtain ⟨count, rfl⟩ := reaches
  exact placed.advance count

theorem Cursor.Placed.spanBetween_eq {text : List Char} {before after : Cursor}
    (placed : before.Placed text)
    (reaches : before.Reaches after) (fewer : after.rest.length < before.rest.length) :
    before.spanBetween after = ⟨before.here, after.lastStop⟩ := by
  obtain ⟨count, rfl⟩ := reaches
  exact placed.spanBetween_advance fewer

/-- The keyword of an operation is found where it has been read. -/
theorem Operation.keyword?_of_reads {text source : List Char} {first : Cursor}
    (placed : first.Placed text)
    {before middle inner : Parser.Stage} {names : List Token} {keyword : Token} {op : Operation}
    (here : first.Reaches before.cursor) (named : Parser.ResultNamesRead source before names middle)
    (isKeyword : keyword.kind = .keyword) (passes : middle.Passes keyword inner)
    (text_eq : keyword.text = op.opcode.keyword) (starts : op.span.start = before.cursor.here) :
    op.keyword? first.rest = some keyword := by
  obtain ⟨passed, sameRest, others⟩ := named.passed
  have tokens : before.cursor.rest = passed ++ keyword :: inner.rest := by
    rw [← passes.1]
    exact sameRest
  obtain ⟨count, reached⟩ := here
  have cut : first.rest = first.rest.take count ++ (passed ++ keyword :: inner.rest) := by
    rw [← tokens, reached, Cursor.rest_advance, List.take_append_drop]
  refine keyword?_eq placed.ordered cut ?_ others isKeyword text_eq
  rw [starts, Cursor.here, Cursor.peek, tokens]
  cases passed <;> rfl

end CirText
