import CirText.Proofs.Acceptance
import CirText.Proofs.Parser.Steps
import Mathlib

/-!
# Headers of blocks

A region looks ahead before it reads the header of a block: the parentheses behind the label have to
be closed before any brace, with a colon behind. The types of the arguments may contain other
parentheses and braces, so not every header is met. A header whose types have no braces and their
parentheses in pairs opens its block, and at most clashes of names are reported.
-/

namespace CirText

open Reader

/-! ## Headers -/

/-- Further arguments of a block, each as its name and the tokens of its type. -/
inductive Arguments : List (Token × List Token) → (taken behind : List Token) → Prop where
  | none {behind : List Token} : Arguments [] [] behind
  | next {comma name colon : Token} {type taken behind : List Token}
      {others : List (Token × List Token)}
      (isComma : comma.isPunct .comma = true) (isName : name.kind = .value)
      (isColon : colon.isPunct .colon = true) (isType : Derives .type type (taken ++ behind))
      (rest : Arguments others taken behind) :
      Arguments ((name, type) :: others) (comma :: name :: colon :: type ++ taken) behind

/-- A label with a colon, or with arguments in parentheses and a colon. -/
inductive Header : Token → List (Token × List Token) → (taken behind : List Token) → Prop where
  | label {label colon : Token} {behind : List Token} (isLabel : label.kind = .label)
      (isColon : colon.isPunct .colon = true) : Header label [] [label, colon] behind
  | labelWithArguments {label opening name colon closing last : Token}
      {type taken behind : List Token} {others : List (Token × List Token)}
      (isLabel : label.kind = .label) (opens : opening.isPunct .leftParen = true)
      (isName : name.kind = .value) (isColon : colon.isPunct .colon = true)
      (isType : Derives .type type (taken ++ closing :: last :: behind))
      (rest : Arguments others taken (closing :: last :: behind))
      (closes : closing.isPunct .rightParen = true) (isLast : last.isPunct .colon = true) :
      Header label ((name, type) :: others)
        (label :: opening :: name :: colon :: type ++ taken ++ [closing, last]) behind

/-! ## Looking ahead -/

/-- Whether tokens have no braces and, inside the given number of parentheses, close just these. -/
def pairsParens (depth : Nat) : List Token → Bool
  | [] => depth == 0
  | token :: rest =>
    if token.isPunct .leftParen then pairsParens (depth + 1) rest
    else if token.isPunct .rightParen then depth != 0 && pairsParens (depth - 1) rest
    else if token.isPunct .leftBrace || token.isPunct .rightBrace then false
    else pairsParens depth rest

/-- What is passed over by the search for the closing parenthesis. -/
theorem closesBeforeColon_append {depth inner : Nat} {tokens rest : List Token}
    (pairs : pairsParens inner tokens = true) :
    Cursor.closesBeforeColon (depth + 1 + inner) (tokens ++ rest) =
      Cursor.closesBeforeColon (depth + 1) rest := by
  induction tokens generalizing inner with
  | nil =>
    rw [pairsParens, beq_iff_eq] at pairs
    rw [pairs]
    rfl
  | cons token tokens ih =>
    rw [pairsParens] at pairs
    rw [List.cons_append, Cursor.closesBeforeColon]
    split at pairs
    · rename_i opens
      rw [if_pos opens, Nat.add_assoc, ih pairs]
    · rename_i noOpening
      rw [if_neg noOpening]
      split at pairs
      · rename_i closes
        rw [Bool.and_eq_true, bne_iff_ne] at pairs
        have deep : ¬depth + 1 + inner ≤ 1 := by omega
        rw [if_pos closes, if_neg deep, show depth + 1 + inner - 1 = depth + 1 + (inner - 1) by
          omega, ih pairs.2]
      · rename_i noClosing
        rw [if_neg noClosing]
        split at pairs
        · cases pairs
        · rename_i noBrace
          rw [if_neg noBrace, ih pairs]

theorem pairsParens_append {inner : Nat} {tokens more : List Token}
    (pairs : pairsParens inner tokens = true) (later : pairsParens 0 more = true) :
    pairsParens inner (tokens ++ more) = true := by
  induction tokens generalizing inner with
  | nil =>
    rw [pairsParens, beq_iff_eq] at pairs
    rwa [pairs]
  | cons token tokens ih =>
    rw [pairsParens] at pairs
    rw [List.cons_append, pairsParens]
    split at pairs
    · rename_i opens
      rw [if_pos opens, ih pairs]
    · rename_i noOpening
      rw [if_neg noOpening]
      split at pairs
      · rename_i closes
        rw [Bool.and_eq_true] at pairs
        rw [if_pos closes, pairs.1, ih pairs.2]
        rfl
      · rename_i noClosing
        rw [if_neg noClosing]
        split at pairs
        · cases pairs
        · rename_i noBrace
          rw [if_neg noBrace, ih pairs]

/-- A token that is no parenthesis and no brace changes nothing. -/
theorem pairsParens_cons {token : Token} {tokens : List Token} {inner : Nat}
    (plain : ∀ mark ∈ [Punct.leftParen, .rightParen, .leftBrace, .rightBrace],
      token.isPunct mark = false) :
    pairsParens inner (token :: tokens) = pairsParens inner tokens := by
  rw [pairsParens, plain .leftParen (by decide), plain .rightParen (by decide),
    plain .leftBrace (by decide), plain .rightBrace (by decide)]
  rfl

theorem pairsParens_argument {name colon : Token} {type : List Token} (isName : name.kind = .value)
    (isColon : colon.isPunct .colon = true) (pairs : pairsParens 0 type = true) :
    pairsParens 0 (name :: colon :: type) = true := by
  rw [pairsParens_cons fun mark _ => ?_, pairsParens_cons fun mark member => ?_, pairs]
  · refine isPunct_of_ne isColon ?_
    rintro rfl
    simp at member
  · rw [Token.isPunct, isName]
    rfl

theorem Arguments.pairsParens {arguments : List (Token × List Token)} {taken behind : List Token}
    (derives : Arguments arguments taken behind)
    (plain : ∀ argument ∈ arguments, CirText.pairsParens 0 argument.2 = true) :
    CirText.pairsParens 0 taken = true := by
  induction derives with
  | none => rfl
  | @next comma name colon type taken behind others isComma isName isColon isType rest ih =>
    rw [List.forall_mem_cons] at plain
    rw [List.cons_append, List.cons_append, List.cons_append,
      pairsParens_cons fun mark member => ?_]
    · exact pairsParens_append (pairsParens_argument isName isColon plain.1) (ih plain.2)
    · refine isPunct_of_ne isComma ?_
      rintro rfl
      simp at member

/-- Parentheses behind a label that are closed in front of a colon start a block. -/
theorem startsBlock_of_pairs {label opening closing last : Token} {inner : List Token}
    (isLabel : label.kind = .label) (opens : opening.isPunct .leftParen = true)
    (pairs : pairsParens 0 inner = true) (closes : closing.isPunct .rightParen = true)
    (isLast : last.isPunct .colon = true) (behind : List Token) :
    Cursor.startsBlock (label :: opening :: (inner ++ closing :: last :: behind)) = true := by
  have noOpening : closing.isPunct .leftParen = false := isPunct_of_ne closes (by decide)
  have found : Cursor.closesBeforeColon 1 (inner ++ closing :: last :: behind) = true := by
    rw [@closesBeforeColon_append 0 0 _ _ pairs, Cursor.closesBeforeColon, noOpening, closes]
    exact isLast
  rw [Cursor.startsBlock, found, isLabel, opens]
  simp

/-- A header whose types have no braces and their parentheses in pairs is met. -/
theorem Header.startsBlock {label : Token} {arguments : List (Token × List Token)}
    {taken behind : List Token} (header : Header label arguments taken behind)
    (plain : ∀ argument ∈ arguments, CirText.pairsParens 0 argument.2 = true) :
    Cursor.startsBlock (taken ++ behind) = true := by
  cases header with
  | @label colon _ isLabel isColon =>
    change (label.kind == .label && (colon.isPunct .colon || _)) = true
    rw [isLabel, isColon]
    rfl
  | @labelWithArguments opening name colon closing last type inner _ others isLabel
      opens isName isColon isType rest closes isLast =>
    rw [List.forall_mem_cons] at plain
    have pairs : CirText.pairsParens 0 (name :: colon :: type ++ inner) = true :=
      pairsParens_append (pairsParens_argument isName isColon plain.1) (rest.pairsParens plain.2)
    have split : label :: opening :: name :: colon :: type ++ inner ++ [closing, last] ++ behind =
        label :: opening :: ((name :: colon :: type ++ inner) ++ closing :: last :: behind) := by
      simp
    rw [split]
    exact startsBlock_of_pairs isLabel opens pairs closes isLast behind

/-! ## Runs that report clashes of names only -/

namespace Parser

variable {α β σ : Type} {parser : Parser α} {input : Input} {state middle final : State}
  {taken more behind : List Token} {post : α → Prop} {then_ : β → Prop}

/-- How far a run has come that has taken tokens in the current scope and reported clashes of names
only. -/
structure State.Past (state : State) (taken behind : List Token) (final : State) : Prop where
  rest : final.cursor.rest = behind
  cursor : final.cursor = state.cursor.advance taken.length
  scope : final.tracker.scope = state.tracker.scope
  halted : final.halted = state.halted
  clashes : ∃ clashes : List (Definition × Definition), final.diagnostics.items.toList =
    state.diagnostics.items.toList ++ clashes.map fun clash => .ofDuplicate clash.1 clash.2

theorem State.Past.refl (here : state.cursor.rest = behind) : state.Past [] behind state :=
  ⟨here, rfl, rfl, rfl, [], by rw [List.map_nil, List.append_nil]⟩

theorem State.Past.trans (first : state.Past taken (more ++ behind) middle)
    (second : middle.Past more behind final) : state.Past (taken ++ more) behind final := by
  obtain ⟨one, first_clashes⟩ := first.clashes
  obtain ⟨two, second_clashes⟩ := second.clashes
  refine ⟨second.rest, ?_, second.scope.trans first.scope, second.halted.trans first.halted,
    one ++ two, ?_⟩
  · rw [second.cursor, first.cursor, Cursor.advance_add, List.length_append]
  · rw [second_clashes, first_clashes, List.map_append, List.append_assoc]

/-- Whether the parser takes tokens, reports clashes of names only and gives what satisfies a
condition. -/
def Takes (parser : Parser α) (input : Input) (state : State) (taken behind : List Token)
    (post : α → Prop) : Prop :=
  ∃ a final, parser input state = (some a, final) ∧ state.Past taken behind final ∧ post a

namespace Takes

theorem mono {weaker : α → Prop} (h : Takes parser input state taken behind post)
    (implies : ∀ a, post a → weaker a) : Takes parser input state taken behind weaker := by
  obtain ⟨a, final, run, past, holds⟩ := h
  exact ⟨a, final, run, past, implies a holds⟩

theorem pure {a : α} (here : state.cursor.rest = behind) (holds : post a) :
    Takes (Pure.pure a) input state [] behind post :=
  ⟨a, state, rfl, .refl here, holds⟩

theorem bind {next : α → Parser β} (first : Takes parser input state taken (more ++ behind) post)
    (second : ∀ a middle, post a → middle.cursor.rest = more ++ behind →
      middle.tracker.scope = state.tracker.scope → Takes (next a) input middle more behind then_) :
    Takes (parser >>= next) input state (taken ++ more) behind then_ := by
  obtain ⟨a, middle, run, past, holds⟩ := first
  obtain ⟨b, final, run', past', holds'⟩ := second a middle holds past.rest past.scope
  exact ⟨b, final, by rw [bind_run, run]; exact run', past.trans past', holds'⟩

/-- Something is made of what has been taken. -/
theorem bind_pure {f : α → β} (h : Takes parser input state taken behind post)
    (implies : ∀ a, post a → then_ (f a)) :
    Takes (parser >>= fun a => Pure.pure (f a)) input state taken behind then_ := by
  obtain ⟨a, final, run, past, holds⟩ := h
  exact ⟨f a, final, by rw [bind_run, run]; rfl, past, implies a holds⟩

theorem map {f : α → β} (h : Takes parser input state taken behind post)
    (implies : ∀ a, post a → then_ (f a)) :
    Takes (f <$> parser) input state taken behind then_ := by
  obtain ⟨a, final, run, past, holds⟩ := h
  exact ⟨f a, final, by rw [map_run, run]; rfl, past, implies a holds⟩

/-- The next token, if it satisfies the condition. -/
theorem satisfying {condition : Token → Bool} {what : String} {token : Token}
    (here : state.cursor.rest = token :: behind) (isFound : condition token = true) :
    Takes (Parser.satisfying condition what) input state [token] behind (· = token) := by
  have peek : state.cursor.peek = token := Cursor.peek_of_cons here
  have next : state.cursor.next.rest = behind := Cursor.rest_next_of_cons here
  refine ⟨token, { state with cursor := state.cursor.next }, ?_, ⟨next, rfl, rfl, rfl, [], ?_⟩, rfl⟩
  · rw [satisfying_run, peek, if_pos isFound]
  · rw [List.map_nil, List.append_nil]

theorem eat_some {mark : Punct} {token : Token} (here : state.cursor.rest = token :: behind)
    (isMark : token.isPunct mark = true) :
    Takes (Parser.eat mark) input state [token] behind (· = true) := by
  have peek : state.cursor.atPunct mark = true := by
    rw [Cursor.atPunct, Cursor.peek, here]
    exact isMark
  have next : state.cursor.next.rest = behind := Cursor.rest_next_of_cons here
  refine ⟨true, { state with cursor := state.cursor.next }, ?_, ⟨next, rfl, rfl, rfl, [], ?_⟩, rfl⟩
  · rw [Parser.eat, bind_run]
    change (if state.cursor.atPunct mark then _ else _ : Parser Bool) input state = _
    rw [if_pos peek]
    rfl
  · rw [List.map_nil, List.append_nil]

theorem eat_none {mark : Punct} {token : Token} (here : state.cursor.rest = token :: behind)
    (noMark : token.isPunct mark = false) :
    Takes (Parser.eat mark) input state [] (token :: behind) (· = false) := by
  have peek : state.cursor.atPunct mark = false := by
    rw [Cursor.atPunct, Cursor.peek, here]
    exact noMark
  refine ⟨false, state, ?_, .refl here, rfl⟩
  rw [Parser.eat, bind_run]
  change (if state.cursor.atPunct mark then _ else _ : Parser Bool) input state = _
  rw [peek]
  rfl

/-- A value or a label becomes a definition in the current scope, even if its name clashes. -/
theorem define {kind : NameKind} (found : Token) (isLocal : kind ≠ .symbol)
    (here : state.cursor.rest = behind) :
    Takes (Parser.define kind found) input state [] behind
      (· = ⟨kind, found.name, found.span, state.tracker.scope⟩) := by
  have home : state.tracker.home kind = state.tracker.scope := by
    cases kind with
    | symbol => exact absurd rfl isLocal
    | value => rfl
    | label => rfl
  unfold Takes Parser.define Tracker.define
  cases state.tracker.clash? kind found.name with
  | none =>
    refine ⟨_, _, rfl, ⟨here, rfl, rfl, rfl, [], ?_⟩, ?_⟩
    · rw [List.map_nil, List.append_nil]
    · rw [← home]
  | some earlier =>
    let definition : Definition := ⟨kind, found.name, found.span, state.tracker.scope⟩
    refine ⟨_, _, rfl, ⟨here, rfl, rfl, rfl, [(definition, earlier)], ?_⟩, rfl⟩
    rw [List.map_singleton]
    exact Array.toList_push

/-- A type that derives is read. -/
theorem type (structural : input.adapters = .structural)
    (here : state.cursor.rest = taken ++ behind) (derives : Derives .type taken behind) :
    Takes Parser.type input state taken behind fun written =>
      Embedded input.source taken written.text written.span := by
  have exactly := Cursor.readsExactly_type input.source state.cursor
  obtain ⟨written, after, read⟩ := exactly.accepts.2 ⟨taken, behind, here, derives⟩
  have took := exactly.took written after read
  have rest : behind = after.rest := took.only taken behind here derives
  obtain ⟨tokens, text, span, split, _, moved, embedded, rfl⟩ := took.taken
  have same : tokens = taken := by
    rw [here, rest] at split
    exact (List.append_cancel_right split).symm
  subst same
  let readings := ⟨.type, state.cursor.position⟩ :: state.readings
  refine ⟨⟨text, span⟩, { state with cursor := after, readings }, ?_,
    ⟨rest.symm, moved, rfl, rfl, [], ?_⟩, embedded⟩
  · rw [Parser.type, Parser.embed, structural, Adapters.read_structural_types, read]
  · rw [List.map_nil, List.append_nil]

/-! ### Loops -/

theorem iterate_done {step : σ → Parser (Step σ β)} {accumulated : σ}
    (h : Takes (step accumulated) input state taken behind fun outcome =>
      ∃ b, outcome = .done b ∧ then_ b) :
    Takes (iterate step accumulated) input state taken behind then_ := by
  obtain ⟨_, final, run, past, b, rfl, holds⟩ := h
  exact ⟨b, final, by rw [iterate_run, run], past, holds⟩

theorem iterate_again {step : σ → Parser (Step σ β)} {accumulated : σ} {invariant : σ → Prop}
    (first : Takes (step accumulated) input state taken (more ++ behind) fun outcome =>
      ∃ further, outcome = .again further ∧ invariant further)
    (some : taken ≠ []) (here : state.cursor.rest = taken ++ more ++ behind)
    (later : ∀ further middle, invariant further → middle.cursor.rest = more ++ behind →
      middle.tracker.scope = state.tracker.scope →
        Takes (iterate step further) input middle more behind then_) :
    Takes (iterate step accumulated) input state (taken ++ more) behind then_ := by
  obtain ⟨_, middle, run, past, further, rfl, holds⟩ := first
  obtain ⟨b, final, run', past', holds'⟩ := later further middle holds past.rest past.scope
  refine ⟨b, final, ?_, past.trans past', holds'⟩
  have fewer : middle.cursor.rest.length < state.cursor.rest.length := by
    have := List.length_pos_of_ne_nil some
    simp only [past.rest, here, List.length_append]
    omega
  rw [iterate_run, run]
  simp only [if_pos fewer, run']

end Takes

/-! ## The header of a block -/

/-- Whether an argument of a block is a name with a type, in a scope of a source text. -/
def IsArgument (source : List Char) (scope : ScopeId) (written : Token × List Token)
    (arg : BlockArgument) : Prop :=
  arg.definition = ⟨.value, written.1.name, written.1.span, scope⟩ ∧
    Embedded source written.2 arg.type.text arg.type.span

variable {region : RegionKind → Bool → Parser (Region Operation)} {start : Cursor}

namespace Takes

/-- One part of a grammar and then another one. -/
theorem seq {first : Grammar (Region Operation) α} {second : Grammar (Region Operation) β}
    (one : Takes (first.parse start region) input state taken (more ++ behind) post)
    (two : ∀ middle : State, middle.cursor.rest = more ++ behind →
      middle.tracker.scope = state.tracker.scope →
        Takes (second.parse start region) input middle more behind then_) :
    Takes ((Grammar.seq first second).parse start region) input state (taken ++ more) behind
      fun found => post found.1 ∧ then_ found.2 :=
  one.bind fun _ middle holds here scope => (two middle here scope).bind_pure fun _ =>
    And.intro holds

theorem punct {mark : Punct} {token : Token} (isMark : token.isPunct mark = true)
    (here : state.cursor.rest = token :: behind) :
    Takes ((Grammar.punct mark).parse start region) input state [token] behind fun _ => True :=
  (satisfying here isMark).bind_pure fun _ _ => trivial

/-- A part of a grammar behind a punctuation mark. -/
theorem mark {mark : Punct} {token : Token} {rest : Grammar (Region Operation) α}
    (isMark : token.isPunct mark = true) (here : state.cursor.rest = token :: taken ++ behind)
    (later : ∀ middle : State, middle.cursor.rest = taken ++ behind →
      middle.tracker.scope = state.tracker.scope →
        Takes (rest.parse start region) input middle taken behind post) :
    Takes ((Grammar.mark mark rest).parse start region) input state (token :: taken) behind post :=
  ((punct isMark here).seq later).map fun _ => And.right

theorem spaced {rest : Grammar (Region Operation) α} (here : state.cursor.rest = taken ++ behind)
    (later : ∀ middle : State, middle.cursor.rest = taken ++ behind →
      middle.tracker.scope = state.tracker.scope →
        Takes (rest.parse start region) input middle taken behind post) :
    Takes ((Grammar.spaced rest).parse start region) input state taken behind post := by
  have blank : Takes ((Grammar.blank : Grammar (Region Operation) Unit).parse start region)
      input state [] (taken ++ behind) fun _ => True := pure here trivial
  exact (blank.seq later).map fun _ => And.right

/-- A part of a grammar in front of a punctuation mark. -/
theorem followedBy {mark : Punct} {token : Token} {inner : Grammar (Region Operation) α}
    (one : Takes (inner.parse start region) input state taken (token :: behind) post)
    (isMark : token.isPunct mark = true) :
    Takes ((Grammar.followedBy inner (Grammar.punct mark)).parse start region) input state
      (taken ++ [token]) behind post :=
  (one.seq fun _ here _ => punct isMark here).map fun _ => And.left

theorem optional_some {present : Guard} {inner : Grammar (Region Operation) α}
    (holds : present.holds state.cursor = true)
    (one : Takes (inner.parse start region) input state taken behind post) :
    Takes ((Grammar.optional present inner).parse start region) input state taken behind
      fun found => ∃ a, found = some a ∧ post a := by
  have made : Takes (some <$> inner.parse start region) input state taken behind fun found =>
      ∃ a, found = some a ∧ post a := one.map fun a holds => ⟨a, rfl, holds⟩
  change Takes (if present.holds state.cursor then _ else _ : Parser (Option α)) input
    state taken behind _
  rwa [if_pos holds]

end Takes

theorem takes_blockArgument {name colon : Token} {type : List Token}
    (structural : input.adapters = .structural) (isName : name.kind = .value)
    (isColon : colon.isPunct .colon = true) (derives : Derives .type type behind)
    (here : state.cursor.rest = name :: colon :: type ++ behind) :
    Takes (Grammar.blockArgument.parse start region) input state (name :: colon :: type) behind
      (IsArgument input.source state.tracker.scope (name, type)) := by
  have typed : ∀ middle : State, middle.cursor.rest = colon :: type ++ behind →
      Takes ((Grammar.colon Grammar.type).parse start region) input middle (colon :: type) behind
        fun written => Embedded input.source type written.text written.span := fun middle here =>
    .spaced here fun _ here _ => .mark isColon here fun _ here _ => .spaced here fun _ here _ =>
      .type structural here derives
  -- The name becomes a definition behind its type.
  have bound : Takes
      ((Grammar.binder "a block argument" (Grammar.colon Grammar.type)).parse start region)
      input state (name :: colon :: type) behind fun found =>
        found.1 = ⟨.value, name.name, name.span, state.tracker.scope⟩ ∧
          Embedded input.source type found.2.text found.2.span := by
    have first : Takes (Parser.token .value "a block argument") input state [name]
        (colon :: type ++ behind) (· = name) := .satisfying here (beq_iff_eq.2 isName)
    refine first.bind fun found middle isFound later scope => ?_
    rw [isFound, ← scope, ← List.append_nil (colon :: type)]
    refine (typed middle later).bind fun written last embedded here scope => ?_
    rw [← scope]
    exact (Takes.define name (by decide) here).bind_pure fun _ isDefinition =>
      ⟨isDefinition, embedded⟩
  exact bound.map fun _ holds => holds

/-! ### Arguments -/

/-- Another item behind a comma, or none. -/
def followingItem (item : Parser α) : Parser (Option α × Bool) := do
  if ← eat .comma then
    Pure.pure (some (← item), true)
  else
    Pure.pure (none, false)

/-- A step of a loop that collects items, the last one first. -/
def collecting (step : Parser (Option α × Bool)) (items : List α) :
    Parser (Step (List α) (List α)) := do
  let (item, goesOn) ← step
  let items := item.toList ++ items
  Pure.pure (if goesOn then .again items else .done items)

namespace Takes

theorem followingItem_none {item : Parser α} {token : Token}
    (here : state.cursor.rest = token :: behind) (noComma : token.isPunct .comma = false) :
    Takes (followingItem item) input state [] (token :: behind) (· = (none, false)) := by
  obtain ⟨_, final, run, past, rfl⟩ := @eat_none input state behind .comma token here noComma
  exact ⟨_, final, by rw [followingItem, bind_run, run]; rfl, past, rfl⟩

theorem followingItem_some {item : Parser α} {comma : Token} (isComma : comma.isPunct .comma = true)
    (here : state.cursor.rest = comma :: taken ++ behind)
    (later : ∀ middle : State, middle.cursor.rest = taken ++ behind →
      middle.tracker.scope = state.tracker.scope → Takes item input middle taken behind post) :
    Takes (followingItem item) input state (comma :: taken) behind
      fun found => ∃ a, found = (some a, true) ∧ post a := by
  refine (eat_some here isComma).bind fun ate middle isSome here scope => ?_
  rw [isSome]
  exact (later middle here scope).bind_pure fun a holds => ⟨a, rfl, holds⟩

end Takes

/-- Further arguments are collected up to the closing parenthesis. -/
theorem takes_arguments {arguments : List (Token × List Token)}
    (structural : input.adapters = .structural)
    (derives : Arguments arguments taken behind)
    (closes : startsWith .rightParen behind = true) (here : state.cursor.rest = taken ++ behind)
    (earlier : List BlockArgument) :
    Takes (iterate (collecting (followingItem (Grammar.blockArgument.parse start region))) earlier)
      input state taken behind fun args => ∃ more, args = more.reverse ++ earlier ∧
        List.Forall₂ (IsArgument input.source state.tracker.scope) arguments more := by
  induction derives generalizing state earlier with
  | @none behind =>
    cases behind with
    | nil => cases closes
    | cons token behind =>
      have noComma : token.isPunct .comma = false := isPunct_of_ne closes (by decide)
      apply Takes.iterate_done
      refine (Takes.followingItem_none here noComma).bind_pure fun found isNone => ?_
      subst isNone
      exact ⟨earlier, rfl, [], rfl, .nil⟩
  | @next comma name colon type taken behind others isComma isName isColon isType rest ih =>
    have here' : state.cursor.rest = (comma :: name :: colon :: type) ++ (taken ++ behind) := by
      rw [here]
      simp
    have item : Takes (followingItem (Grammar.blockArgument.parse start region)) input state
        (comma :: name :: colon :: type) (taken ++ behind) fun found => ∃ arg, found =
        (some arg, true) ∧ IsArgument input.source state.tracker.scope (name, type) arg :=
      Takes.followingItem_some isComma here' fun middle here scope => by
        rw [← scope]
        exact takes_blockArgument structural isName isColon isType here
    have step : Takes
        (collecting (followingItem (Grammar.blockArgument.parse start region)) earlier) input
        state (comma :: name :: colon :: type) (taken ++ behind) fun outcome =>
          ∃ further, outcome = .again further ∧ ∃ arg, further = arg :: earlier ∧
            IsArgument input.source state.tracker.scope (name, type) arg := by
      refine item.bind_pure ?_
      rintro _ ⟨arg, rfl, isArgument⟩
      exact ⟨_, rfl, arg, rfl, isArgument⟩
    refine step.iterate_again (List.cons_ne_nil _ _) here ?_
    rintro _ middle ⟨arg, rfl, isArgument⟩ here scope
    refine (ih closes here (arg :: earlier)).mono ?_
    rintro _ ⟨more, rfl, areArguments⟩
    rw [scope] at areArguments
    exact ⟨arg :: more, by simp, .cons isArgument areArguments⟩

/-- At least one argument, up to the closing parenthesis. -/
theorem takes_separated {name colon : Token} {type : List Token}
    {others : List (Token × List Token)} (structural : input.adapters = .structural)
    (isName : name.kind = .value) (isColon : colon.isPunct .colon = true)
    (isType : Derives .type type (taken ++ behind)) (rest : Arguments others taken behind)
    (closes : startsWith .rightParen behind = true)
    (here : state.cursor.rest = name :: colon :: type ++ (taken ++ behind)) :
    Takes ((Grammar.separated Grammar.blockArgument).parse start region) input state
      (name :: colon :: type ++ taken) behind fun found =>
        List.Forall₂ (IsArgument input.source state.tracker.scope) ((name, type) :: others)
          (found.1 :: found.2) := by
  refine (takes_blockArgument structural isName isColon isType here).bind
    fun head middle isArgument here scope => ?_
  rw [← scope] at isArgument ⊢
  have tail : Takes (collect (followingItem (Grammar.blockArgument.parse start region)))
      input middle taken behind
      (List.Forall₂ (IsArgument input.source middle.tracker.scope) others) := by
    refine (takes_arguments structural rest closes here []).map ?_
    rintro _ ⟨more, rfl, areArguments⟩
    simpa using areArguments
  exact tail.bind_pure fun _ areArguments => .cons isArgument areArguments

theorem takes_label {label : Token} (isLabel : label.kind = .label)
    (here : state.cursor.rest = label :: behind) :
    Takes ((Grammar.definition .label).parse start region) input state [label] behind
      (· = ⟨.label, label.name, label.span, state.tracker.scope⟩) := by
  have first : Takes (Parser.token .label (Grammar.missingDefinition .label)) input state [label]
      ([] ++ behind) (· = label) := .satisfying here (beq_iff_eq.2 isLabel)
  refine first.bind fun found middle isFound here scope => ?_
  rw [isFound, ← scope]
  exact .define label (by decide) here

/-- The arguments of a block in parentheses. -/
theorem takes_blockArguments {opening name colon closing : Token} {type : List Token}
    {others : List (Token × List Token)} (structural : input.adapters = .structural)
    (opens : opening.isPunct .leftParen = true)
    (isName : name.kind = .value) (isColon : colon.isPunct .colon = true)
    (isType : Derives .type type (taken ++ closing :: behind))
    (rest : Arguments others taken (closing :: behind))
    (closes : closing.isPunct .rightParen = true)
    (here : state.cursor.rest = opening :: name :: colon :: type ++ taken ++ closing :: behind) :
    Takes (Grammar.blockArguments.parse start region) input state
      (opening :: name :: colon :: type ++ taken ++ [closing]) behind
      (List.Forall₂ (IsArgument input.source state.tracker.scope) ((name, type) :: others)) := by
  have present : Guard.holds (.punct .leftParen) state.cursor = true := by
    change state.cursor.atPunct .leftParen = true
    rw [Cursor.atPunct, Cursor.peek, here]
    exact opens
  have items : Takes ((Grammar.parens (Grammar.separated Grammar.blockArgument)).parse start region)
      input state (opening :: (name :: colon :: type ++ taken ++ [closing])) behind fun found =>
        List.Forall₂ (IsArgument input.source state.tracker.scope) ((name, type) :: others)
          (found.1 :: found.2) := by
    refine .mark opens (by rw [here]; simp) fun middle here scope => ?_
    rw [← scope]
    refine .followedBy (takes_separated structural isName isColon isType rest closes ?_) closes
    rw [here]
    simp
  refine (items.optional_some present).map ?_
  rintro _ ⟨⟨head, tail⟩, rfl, areArguments⟩
  exact areArguments

theorem takes_noArguments {token : Token} (noOpening : token.isPunct .leftParen = false)
    (here : state.cursor.rest = token :: behind) :
    Takes (Grammar.blockArguments.parse start region) input state [] (token :: behind)
      (· = []) := by
  have absent : state.cursor.atPunct .leftParen = false := by
    rw [Cursor.atPunct, Cursor.peek, here]
    exact noOpening
  have none : Takes ((Grammar.optional (.punct .leftParen)
      (Grammar.parens (Grammar.separated Grammar.blockArgument))).parse start region) input state []
        (token :: behind) (· = none) := by
    change Takes (if state.cursor.atPunct .leftParen then _ else _ : Parser (Option _))
      input state [] (token :: behind) _
    rw [absent]
    exact .pure here rfl
  refine none.map ?_
  rintro _ rfl
  rfl

/-- The header of a block is read. -/
theorem takes_header {label : Token} {arguments : List (Token × List Token)}
    (structural : input.adapters = .structural)
    (header : Header label arguments taken behind) (here : state.cursor.rest = taken ++ behind) :
    Takes (Grammar.blockHeader.parse start region) input state taken behind fun found =>
      found.1 = ⟨.label, label.name, label.span, state.tracker.scope⟩ ∧
        List.Forall₂ (IsArgument input.source state.tracker.scope) arguments found.2 := by
  cases header with
  | @label colon _ isLabel isColon =>
    have noOpening : colon.isPunct .leftParen = false := isPunct_of_ne isColon (by decide)
    have labelled :=
      @takes_label input state ([] ++ colon :: behind) region start label isLabel
      (by rw [here]; rfl)
    refine Takes.followedBy (labelled.seq fun middle here _ => ?_) isColon
    refine (takes_noArguments noOpening here).mono ?_
    rintro _ rfl
    exact .nil
  | @labelWithArguments opening name colon closing last type inner _ others isLabel
      opens isName isColon isType rest closes isLast =>
    have split : label :: opening :: name :: colon :: type ++ inner ++ [closing, last] =
        [label] ++ (opening :: name :: colon :: type ++ inner ++ [closing]) ++ [last] := by
      simp
    rw [split]
    refine Takes.followedBy ((takes_label isLabel ?_).seq fun middle here scope => ?_) isLast
    · rw [here]
      simp
    · rw [← scope]
      exact takes_blockArguments structural opens isName isColon isType rest closes
        (by rw [here]; simp)

/-! ## Opening a block -/

/-- A header whose types have no braces and their parentheses in pairs opens its block, wherever a
region is looking for a block or an operation. -/
theorem blockStep_opens {kind : RegionKind} {opening : Span} {progress : Progress} {label : Token}
    {arguments : List (Token × List Token)} (structural : input.adapters = .structural)
    (live : state.halted = false)
    (header : Header label arguments taken behind) (here : state.cursor.rest = taken ++ behind)
    (plain : ∀ argument ∈ arguments, pairsParens 0 argument.2 = true) :
    Takes (blockStep region kind opening progress) input state taken behind fun outcome =>
      ∃ draft : BlockDraft, outcome = .again (progress.nextLabeled draft) ∧
        draft.label = some ⟨.label, label.name, label.span, state.tracker.scope⟩ ∧
          List.Forall₂ (IsArgument input.source state.tracker.scope) arguments draft.args ∧
            draft.ops = [] := by
  have starts : Cursor.startsBlock state.cursor.rest = true := by
    rw [here]
    exact header.startsBlock plain
  obtain ⟨first, tokens, split, isLabel⟩ : ∃ first tokens, state.cursor.rest = first :: tokens ∧
      first.kind = .label := by
    rw [here]
    cases header with
    | label isLabel _ => exact ⟨_, _, rfl, isLabel⟩
    | labelWithArguments isLabel _ _ _ _ _ _ _ => exact ⟨_, _, rfl, isLabel⟩
  have noBrace : state.cursor.atPunct .rightBrace = false := by
    rw [Cursor.atPunct, Cursor.peek, split]
    change first.isPunct .rightBrace = false
    rw [Token.isPunct, isLabel]
    rfl
  have more : state.cursor.atEnd = false := by
    rw [Cursor.atEnd, split]
    rfl
  have step : blockStep region kind opening progress input state =
      (attempt (blockHeader region) >>= afterHeader state.cursor progress) input state := by
    rw [blockStep_eq]
    change (if state.halted then _ else if state.cursor.atPunct .rightBrace then _
      else if state.cursor.atEnd then _ else if Cursor.startsBlock state.cursor.rest then _
      else _ : Parser (Step Progress (List (Block Operation) × Span))) input state = _
    rw [live, noBrace, more, starts]
    rfl
  obtain ⟨found, final, run, past, isLabel, areArguments⟩ :=
    @takes_header input state taken behind region state.cursor label arguments structural header
      here
  let draft : BlockDraft :=
    { label := some found.1, args := found.2, start := state.cursor.peek.span.start
      headerStop := final.cursor.lastStop }
  have drafted : blockHeader region input state = (some draft, final) := by
    unfold blockHeader
    simp only [bind_run, Parser.cursor, Parser.look, run, pure_run]
    rfl
  refine ⟨_, final, ?_, past, draft, rfl, congrArg some isLabel, areArguments, rfl⟩
  rw [step, attempt_bind_run, drafted]
  rfl

/-- The first step through a function body that starts with a text. -/
def firstStep (source : String) : Option (Step Progress (List (Block Operation) × Span)) × State :=
  blockStep (regionWithin 63) .functionBody ⟨0, 0⟩ { current := .startingAt 0 }
    ⟨source.toList, {}, .structural⟩
    (initial (tokenize source))

/-- A header whose argument is of a function type opens its block. -/
theorem blockStep_opens_functionType :
    ∃ progress, (firstStep "^l(%a : () -> i32): cir.return").1 = some (.again progress) ∧
      progress.current.label = some ⟨.label, "l", ⟨0, 2⟩, 0⟩ ∧
        progress.current.args.map (·.type.text) = ["() -> i32"] := by
  let type : List Token := [⟨.punct .leftParen, "(", ⟨8, 9⟩⟩, ⟨.punct .rightParen, ")", ⟨9, 10⟩⟩,
    ⟨.punct .arrow, "->", ⟨11, 13⟩⟩, ⟨.identifier, "i32", ⟨14, 17⟩⟩]
  let beyond : List Token := [⟨.keyword, "cir.return", ⟨20, 30⟩⟩]
  have isType : ∀ behind, Derives .type type behind := fun behind =>
    @Derives.functionType _ (type.take 2) (type.drop 3) behind (.noTypes rfl rfl) rfl
      (.oneResult (.scalarType rfl (by decide)) rfl)
  have header := @Header.labelWithArguments ⟨.label, "^l", ⟨0, 2⟩⟩ ⟨.punct .leftParen, "(", ⟨2, 3⟩⟩
    ⟨.value, "%a", ⟨3, 5⟩⟩ ⟨.punct .colon, ":", ⟨6, 7⟩⟩ ⟨.punct .rightParen, ")", ⟨17, 18⟩⟩
    ⟨.punct .colon, ":", ⟨18, 19⟩⟩ type [] beyond [] rfl rfl rfl rfl (isType _) .none rfl rfl
  have opens := @blockStep_opens ⟨"^l(%a : () -> i32): cir.return".toList, {}, .structural⟩
    (initial (tokenize "^l(%a : () -> i32): cir.return")) _ beyond (regionWithin 63)
    .functionBody ⟨0, 0⟩
    { current := .startingAt 0 } _ _ rfl rfl header (by cbv) (by decide)
  obtain ⟨_, final, run, past, draft, rfl, isLabel, areArguments, noOps⟩ := opens
  refine ⟨_, congrArg Prod.fst run, isLabel.trans (by cbv), ?_⟩
  change draft.args.map (·.type.text) = _
  generalize draft.args = args at areArguments
  obtain _ | ⟨isArgument, ⟨⟩⟩ := areArguments
  obtain ⟨_, ⟨text, first, last, starts, ends, place⟩⟩ := isArgument
  cases starts
  cases ends
  rw [List.map_singleton, text, place]
  cbv

/-- A header whose type has braces does not open its block: it is taken for a malformed
operation. -/
theorem header_withBraces_refused :
    (∃ label arguments taken behind, Header label arguments taken behind ∧
      (tokenize "^l(%a : !t<\x7b\x7d>): cir.return").tokens = taken ++ behind) ∧
    (∃ progress, (firstStep "^l(%a : !t<\x7b\x7d>): cir.return").1 = some (.again progress) ∧
      progress.current.label = none) ∧
    (firstStep "^l(%a : !t<\x7b\x7d>): cir.return").2.diagnostics.items.toList.map (·.code) =
      ["MalformedOperationError"] := by
  let type : List Token := [⟨.typeName, "!t", ⟨8, 10⟩⟩, ⟨.punct .less, "<", ⟨10, 11⟩⟩,
    ⟨.punct .leftBrace, "\x7b", ⟨11, 12⟩⟩, ⟨.punct .rightBrace, "\x7d", ⟨12, 13⟩⟩,
    ⟨.punct .greater, ">", ⟨13, 14⟩⟩]
  have isType : ∀ behind, Derives .type type behind := fun behind =>
    .typeName rfl (.someGroup (by decide))
  have header := @Header.labelWithArguments ⟨.label, "^l", ⟨0, 2⟩⟩ ⟨.punct .leftParen, "(", ⟨2, 3⟩⟩
    ⟨.value, "%a", ⟨3, 5⟩⟩ ⟨.punct .colon, ":", ⟨6, 7⟩⟩ ⟨.punct .rightParen, ")", ⟨14, 15⟩⟩
    ⟨.punct .colon, ":", ⟨15, 16⟩⟩ type [] [⟨.keyword, "cir.return", ⟨17, 27⟩⟩] [] rfl rfl rfl rfl
      (isType _) .none rfl rfl
  refine ⟨⟨_, _, _, _, header, by cbv⟩, ⟨{ current := .startingAt 0 }, ?_, rfl⟩, ?_⟩
  · cbv
  · cbv

end Parser

end CirText
