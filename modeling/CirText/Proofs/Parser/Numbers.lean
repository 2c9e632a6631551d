import CirText.Proofs.Grammar.Bodies
import CirText.Proofs.Parser.Gives
import CirText.Proofs.Parser.Inherited
import CirText.Proofs.Parser.Progress
import CirText.Proofs.Parser.Reads

/-!
# The numbers of operations

Each operation takes the next number when its keyword is read, so before the operations inside it
and after the ones in front of it. An operation that fails keeps its number from others. Hence the
numbers of what has been read ascend in the order of the text, and if no error is reported, none is
left out.

`Numbers` says so of a parser: it relates what the parser gives to the numbers that are taken for
it.
-/

namespace CirText

/-- The numbers of an operation and of the ones inside it. -/
def Operation.numbers (op : Operation) : List Nat :=
  op.preorder.map (·.id)

/-- The numbers of the operations inside a region. -/
def Region.numbers (region : Region Operation) : List Nat :=
  region.ops.flatMap Operation.numbers

theorem Operation.numbers_eq (op : Operation) :
    op.numbers = op.id :: op.payload.regions.flatMap Region.numbers := by
  rw [numbers, preorder_eq, List.map_cons, List.map_flatMap]
  change _ :: op.children.flatMap numbers = _
  rw [children, List.flatMap_assoc]
  rfl

/-- The numbers of the operations inside a value. -/
def Grammar.numbers {α : Type} (grammar : Grammar (Region Operation) α) (a : α) : List Nat :=
  ((grammar.entries a).flatMap Entry.regions).flatMap Region.numbers

namespace Parser

variable {α β σ : Type}

/-! ## Runs that take numbers -/

/-- Whether between two states errors are kept and numbers are only taken. -/
structure State.Counts (before after : State) : Prop where
  clean : after.diagnostics.Clean → before.diagnostics.Clean
  le : before.nextId ≤ after.nextId

/-- Whether between two states errors are kept and no number is taken. -/
structure State.Idle (before after : State) : Prop where
  clean : after.diagnostics.Clean → before.diagnostics.Clean
  same : after.nextId = before.nextId

/-- Whether numbers are among those that are taken between two states, in order, and all of them if
there is no error. What is read without errors is known for the adapters by default only. -/
structure State.Takes (before : State) (adapters : Adapters) (after : State) (ids : List Nat) :
    Prop where
  ascends : Ascends before.nextId after.nextId ids
  all : adapters = .structural → after.diagnostics.Clean →
    ids = List.range' before.nextId (after.nextId - before.nextId)

section States

variable {first before middle after last : State} {ids more : List Nat} {adapters : Adapters}

theorem State.Counts.trans (left : first.Counts middle) (right : middle.Counts last) :
    first.Counts last :=
  ⟨fun clean => left.clean (right.clean clean), Nat.le_trans left.le right.le⟩

theorem State.Idle.trans (left : first.Idle middle) (right : middle.Idle last) : first.Idle last :=
  ⟨fun clean => left.clean (right.clean clean), right.same.trans left.same⟩

theorem State.Idle.refl (state : State) : state.Idle state :=
  ⟨id, rfl⟩

theorem State.Idle.counts (idle : before.Idle after) : before.Counts after :=
  ⟨idle.clean, Nat.le_of_eq idle.same.symm⟩

theorem State.Idle.takes (idle : before.Idle after) : before.Takes adapters after [] :=
  ⟨.nil, fun _ _ => by rw [idle.same, Nat.sub_self, List.range'_zero]⟩

theorem State.Idle.one {diagnostic : Diagnostic}
    (pushed : after.diagnostics = before.diagnostics.push diagnostic)
    (same : after.nextId = before.nextId) : before.Idle after :=
  ⟨fun clean => (Diagnostics.clean_push.1 (pushed ▸ clean)).1, same⟩

theorem State.Idle.many {more : List Diagnostic}
    (appended : after.diagnostics = before.diagnostics.append more)
    (same : after.nextId = before.nextId) : before.Idle after :=
  ⟨fun clean => (Diagnostics.clean_append.1 (appended ▸ clean)).1, same⟩

/-- Numbers that are taken later are greater. -/
theorem State.Takes.append (left : first.Takes adapters middle ids)
    (right : middle.Takes adapters last more)
    (earlier : first.Counts middle) (later : middle.Counts last) :
    first.Takes adapters last (ids ++ more) where
  ascends := left.ascends.append right.ascends earlier.le later.le
  all structural clean := by
    have total : last.nextId - first.nextId =
        (middle.nextId - first.nextId) + (last.nextId - middle.nextId) := by
      have := earlier.le
      have := later.le
      omega
    have next : first.nextId + (middle.nextId - first.nextId) = middle.nextId := by
      have := earlier.le
      omega
    rw [left.all structural (later.clean clean), right.all structural clean, total,
      ← List.range'_append_1, next]

end States

/-! ## Parsers that take no numbers -/

theorem idle_define (kind : NameKind) (found : Token) : Leads State.Idle (define kind found) := by
  intro input state
  unfold define Tracker.define
  cases state.tracker.clash? kind found.name with
  | none => exact ⟨id, rfl⟩
  | some earlier => exact .one rfl rfl

theorem idle_embed (language : Sublanguage) (adapter : Adapters → Adapter α) :
    Leads State.Idle (embed language adapter) := by
  intro input state
  unfold embed
  cases (adapter input.adapters).read input.source state.cursor with
  | ok found => exact ⟨id, rfl⟩
  | error error => exact .one rfl rfl

theorem idle_inScope {parser : Parser α} (inner : Leads State.Idle parser) :
    Leads State.Idle (inScope parser) := by
  intro input state
  have ran := inner input { state with tracker := state.tracker.push }
  have before : state.Idle (parser input { state with tracker := state.tracker.push }).2 :=
    ⟨ran.clean, ran.same⟩
  exact before.trans (.many rfl rfl)

theorem idle_warnDeprecated (opcode : Opcode) (message : String) (span : Span) :
    Leads State.Idle (warnDeprecated opcode message span) := by
  intro input state
  rw [warnDeprecated_run]
  dsimp only
  split
  · exact .one rfl rfl
  · exact .refl state

theorem idle_checkHalted : Leads State.Idle checkHalted := by
  intro input state
  unfold checkHalted
  split
  · exact .refl state
  · split
    · exact .one rfl rfl
    · exact .refl state

theorem idle_resynchronize (start : Cursor) : Leads State.Idle (resynchronize start) := by
  intro input state
  change State.Idle state (if state.halted then _ else _)
  split
  · exact ⟨id, rfl⟩
  · exact ⟨id, rfl⟩

/-- Only operations take numbers. -/
theorem inherited_idle : InheritedInside (Leads State.Idle) where
  pure _ _ state := .refl state
  fail _ state := .refl state
  cursor _ state := .refl state
  skip _ _ := ⟨id, rfl⟩
  reportExpected _ _ _ := .one rfl rfl
  reportAmbiguous _ _ _ _ _ _ := .one rfl rfl
  reportRepeated _ _ _ _ _ := .one rfl rfl
  noteUse _ _ _ _ := ⟨id, rfl⟩
  define := idle_define
  type := idle_embed _ _
  attributeOf _ := idle_embed _ _
  bind := leads_bind State.Idle fun left right => left.trans right
  inScope := idle_inScope
  iterate := leads_iterate State.Idle fun left right => left.trans right

/-! ## Parsers that take numbers -/

/-- Whether the numbers that a parser takes are related to what it gives, if it starts in a state
that satisfies a condition. -/
structure NumbersFrom (start : State → Prop) (parser : Parser α) (post : α → List Nat → Prop) :
    Prop where
  counts : Leads State.Counts parser
  numbers : ∀ (input : Input) (state : State), start state → ∀ a, (parser input state).1 = some a →
    ∃ ids, post a ids ∧ state.Takes input.adapters (parser input state).2 ids

/-- Whether the numbers that a parser takes are related to what it gives. -/
abbrev Numbers (parser : Parser α) (post : α → List Nat → Prop) : Prop :=
  NumbersFrom (fun _ => True) parser post

/-- Whether a parser takes the numbers that are in what it gives. -/
abbrev Numbered (numbers : α → List Nat) (parser : Parser α) : Prop :=
  Numbers parser fun a ids => ids = numbers a

/-- The numbers in what a step of a loop ends with. -/
def Step.numbers (inProgress : σ → List Nat) (inResult : β → List Nat) : Step σ β → List Nat
  | .again accumulated => inProgress accumulated
  | .done result => inResult result

namespace NumbersFrom

variable {start : State → Prop} {parser : Parser α} {post : α → List Nat → Prop}

theorem ofIdle (idle : Leads State.Idle parser) (given : ∀ a, post a []) : Numbers parser post where
  counts input state := (idle input state).counts
  numbers input state _ a _ := ⟨[], given a, (idle input state).takes⟩

theorem pure {a : α} (given : post a []) : Numbers (Pure.pure a) post where
  counts _ state := (State.Idle.refl state).counts
  numbers := by
    rintro _ state _ _ ⟨⟩
    exact ⟨[], given, (State.Idle.refl state).takes⟩

theorem fail : Numbers (Parser.fail : Parser α) post where
  counts _ state := (State.Idle.refl state).counts
  numbers := by rintro _ _ _ _ ⟨⟩

theorem expected (what : String) : Numbers (Parser.expected what : Parser α) post where
  counts input state := (inherited_idle.expected what input state).counts
  numbers := by rintro _ _ _ _ ⟨⟩

theorem mono {weaker : α → List Nat → Prop} (h : Numbers parser post)
    (implies : ∀ a ids, post a ids → weaker a ids) : Numbers parser weaker where
  counts := h.counts
  numbers input state started a given := by
    obtain ⟨ids, related, takes⟩ := h.numbers input state started a given
    exact ⟨ids, implies a ids related, takes⟩

theorem ofNumbers (h : Numbers parser post) : NumbersFrom start parser post where
  counts := h.counts
  numbers input state _ := h.numbers input state trivial

theorem gives {holds : α → Prop} (h : Numbers parser post) (given : Gives parser holds) :
    Numbers parser fun a ids => post a ids ∧ holds a where
  counts := h.counts
  numbers input state started a outcome := by
    obtain ⟨ids, related, takes⟩ := h.numbers input state started a outcome
    exact ⟨ids, ⟨related, given input state a outcome⟩, takes⟩

theorem bind {next : α → Parser β} {then_ : β → List Nat → Prop} (first : Numbers parser post)
    (second : ∀ a ids, post a ids → Numbers (next a) fun b more => then_ b (ids ++ more)) :
    Numbers (parser >>= next) then_ where
  counts input state := by
    have earlier := first.counts input state
    have ran := first.numbers input state trivial
    rw [bind_run]
    cases run : parser input state with
    | mk outcome middle =>
      rw [run] at earlier ran
      cases outcome with
      | none => exact earlier
      | some a =>
        obtain ⟨ids, related, _⟩ := ran a rfl
        exact earlier.trans ((second a ids related).counts input middle)
  numbers input state started b given := by
    have earlier := first.counts input state
    have ran := first.numbers input state trivial
    rw [bind_run] at given ⊢
    cases run : parser input state with
    | mk outcome middle =>
      rw [run] at given earlier ran
      cases outcome with
      | none => cases given
      | some a =>
        obtain ⟨ids, related, takes⟩ := ran a rfl
        have rest := second a ids related
        obtain ⟨more, ends, later⟩ := rest.numbers input middle trivial b given
        exact ⟨ids ++ more, ends, takes.append later earlier (rest.counts input middle)⟩

/-- A first part that takes no numbers. -/
theorem after {next : α → Parser β} {then_ : β → List Nat → Prop} (idle : Leads State.Idle parser)
    (second : ∀ a, Numbers (next a) then_) : Numbers (parser >>= next) then_ := by
  have none : Numbers parser fun _ ids => ids = [] := ofIdle idle fun _ => rfl
  refine none.bind ?_
  rintro a _ rfl
  exact second a

theorem map {f : α → β} {then_ : β → List Nat → Prop} (h : Numbers parser post)
    (implies : ∀ a ids, post a ids → then_ (f a) ids) : Numbers (f <$> parser) then_ :=
  h.bind fun a ids related => pure (by rw [List.append_nil]; exact implies a ids related)

theorem ite {condition : Prop} [Decidable condition] {other : Parser α}
    (yes : condition → NumbersFrom start parser post)
    (no : ¬condition → NumbersFrom start other post) :
    NumbersFrom start (if condition then parser else other) post := by
  split
  · exact yes ‹_›
  · exact no ‹_›

theorem naming {construct : String} (h : Numbers parser post) :
    Numbers (Parser.naming construct parser) post where
  counts input state :=
    have ran := h.counts input { state with construct }
    ⟨ran.clean, ran.le⟩
  numbers input state started a given := by
    obtain ⟨ids, related, takes⟩ := h.numbers input { state with construct } trivial a given
    exact ⟨ids, related, takes.ascends, takes.all⟩

theorem inScope (h : Numbers parser post) : Numbers (Parser.inScope parser) post where
  counts input state :=
    have ran := h.counts input { state with tracker := state.tracker.push }
    ⟨fun clean => ran.clean (Diagnostics.clean_append.1 clean).1, ran.le⟩
  numbers input state started a given := by
    obtain ⟨ids, related, takes⟩ :=
      h.numbers input { state with tracker := state.tracker.push } trivial a given
    exact ⟨ids, related, takes.ascends, fun structural clean =>
      takes.all structural (Diagnostics.clean_append.1 clean).1⟩

/-- A part that may fail, after which what comes next has no numbers of it. -/
theorem attempt_bind {next : Option α → Parser β} {then_ : β → List Nat → Prop}
    (h : Numbers parser post)
    (given : ∀ a ids, post a ids → Numbers (next (some a)) fun b more => then_ b (ids ++ more))
    (lost : Leads State.Counts (next none))
    (never : ∀ input state, start state → (parser input state).1 = none → ∀ b,
      (next none input (parser input state).2).1 = some b → ∃ ids, then_ b ids ∧
        state.Takes input.adapters (next none input (parser input state).2).2 ids) :
    NumbersFrom start (Parser.attempt parser >>= next) then_ where
  counts input state := by
    have earlier := h.counts input state
    have ran := h.numbers input state trivial
    rw [attempt_bind_run]
    cases run : parser input state with
    | mk outcome middle =>
      rw [run] at earlier ran
      cases outcome with
      | none => exact earlier.trans (lost input middle)
      | some a =>
        obtain ⟨ids, related, _⟩ := ran a rfl
        exact earlier.trans ((given a ids related).counts input middle)
  numbers input state started b outcome := by
    have earlier := h.counts input state
    have ran := h.numbers input state trivial
    have failed := never input state started
    rw [attempt_bind_run] at outcome ⊢
    cases run : parser input state with
    | mk found middle =>
      rw [run] at earlier ran failed outcome
      cases found with
      | none => exact failed rfl b outcome
      | some a =>
        obtain ⟨ids, related, takes⟩ := ran a rfl
        have rest := given a ids related
        obtain ⟨more, ends, later⟩ := rest.numbers input middle trivial b outcome
        exact ⟨ids ++ more, ends, takes.append later earlier (rest.counts input middle)⟩

/-- A loop takes the numbers that its steps take. -/
theorem iterate {step : σ → Parser (Step σ β)} (inProgress : σ → List Nat) (inResult : β → List Nat)
    (steps : ∀ accumulated, Numbers (step accumulated) fun outcome more =>
      inProgress accumulated ++ more = outcome.numbers inProgress inResult) (accumulated : σ) :
    Numbers (Parser.iterate step accumulated) fun result more => inProgress accumulated ++ more =
      inResult result where
  counts := leads_iterate State.Counts (fun left right => left.trans right)
    (fun accumulated => (steps accumulated).counts) accumulated
  numbers input state started result given := by
    induction accumulated, state using iterate_induction step input with
    | failed accumulated state final run ran
    | stuck accumulated state further final run fewer ran =>
      rw [ran] at given
      cases given
    | done accumulated state last final run ran =>
      have stepped := (steps accumulated).numbers input state trivial
      rw [run] at stepped
      rw [ran] at given ⊢
      cases given
      exact stepped _ rfl
    | again accumulated state further next run fewer ran ih =>
      have counted := (steps accumulated).counts input state
      have stepped := (steps accumulated).numbers input state trivial
      rw [run] at counted stepped
      rw [ran] at given ⊢
      obtain ⟨ids, related, takes⟩ := stepped _ rfl
      obtain ⟨more, ends, later⟩ := ih given
      refine ⟨ids ++ more, ?_, takes.append later counted ?_⟩
      · rw [← List.append_assoc, related]
        exact ends
      · exact leads_iterate State.Counts (fun left right => left.trans right)
          (fun accumulated => (steps accumulated).counts) further input next

end NumbersFrom

/-! ## Lists -/

namespace Numbered

variable {numbers : α → List Nat} {item : Parser α}

theorem collect {step : Parser (Option α × Bool)}
    (h : Numbered (fun found => found.1.toList.flatMap numbers) step) :
    Numbered (fun items => items.flatMap numbers) (Parser.collect step) := by
  refine NumbersFrom.map (NumbersFrom.iterate (fun items : List α => items.reverse.flatMap numbers)
    (fun items : List α => items.reverse.flatMap numbers) (fun items => ?_) []) ?_
  · refine h.bind ?_
    rintro ⟨found, goesOn⟩ _ rfl
    have collected : items.reverse.flatMap numbers ++ (found.toList.flatMap numbers ++ []) =
        (found.toList ++ items).reverse.flatMap numbers := by
      cases found <;> simp
    refine .pure ?_
    cases goesOn
    · exact collected
    · exact collected
  · exact fun items ids taken => taken

theorem separated (h : Numbered numbers item) :
    Numbered (fun found => (found.1 :: found.2).flatMap numbers) (Parser.separated item) := by
  refine h.bind ?_
  rintro head _ rfl
  refine NumbersFrom.bind (@collect _ numbers _ ?_) ?_
  · refine .after (inherited_idle.eat .comma) fun goesOn => .ite (fun _ => ?_) fun _ => .pure rfl
    refine h.bind ?_
    rintro found _ rfl
    exact .pure (by simp)
  · rintro tail _ rfl
    exact .pure (by simp)

theorem listed (h : Numbered numbers item) :
    Numbered (fun items => items.flatMap numbers) (Parser.listed item) := by
  refine .after inherited_idle.cursor fun here => .ite (fun _ => .pure rfl) fun _ => ?_
  refine h.separated.bind ?_
  rintro ⟨head, tail⟩ _ rfl
  exact .pure (List.append_nil _)

theorem listedWithEllipsis (h : Numbered numbers item) :
    Numbered (fun found => found.1.flatMap numbers) (Parser.listedWithEllipsis item) := by
  refine .after inherited_idle.cursor fun here => .ite (fun _ => .pure rfl) fun _ => ?_
  refine NumbersFrom.iterate (fun items : List α => items.reverse.flatMap numbers)
    (fun found : List α × Bool => found.1.flatMap numbers) (fun items => ?_) []
  refine .after (inherited_idle.eat .ellipsis) fun stops =>
    .ite (fun _ => .pure (List.append_nil _)) fun _ => ?_
  refine h.bind ?_
  rintro found _ rfl
  have another : items.reverse.flatMap numbers ++ (numbers found ++ []) =
      (found :: items).reverse.flatMap numbers := by
    simp
  exact .after (inherited_idle.eat .comma) fun goesOn => .ite (fun _ => .pure another) fun _ =>
    .pure another

theorem bracketed (separator : Separator) (h : Numbered numbers item) :
    Numbered (fun items => items.flatMap numbers) (Parser.bracketed separator item) := by
  refine .after (inherited_idle.punct _) fun opening => collect ?_
  refine .after (inherited_idle.eat .rightBracket) fun ends => .ite (fun _ => .pure rfl) fun _ => ?_
  refine .after inherited_idle.cursor fun here => .ite (fun _ => .expected _) fun _ => ?_
  refine h.bind ?_
  rintro found _ rfl
  have one : numbers found ++ [] = (some found).toList.flatMap numbers := by simp
  exact .ite (fun _ => .after (inherited_idle.eat .comma) fun _ => .pure one) fun _ => .pure one

theorem repeated (next : Guard) (h : Numbered numbers item) :
    Numbered (fun items => items.flatMap numbers) (Parser.repeated next item) := by
  refine collect (.after inherited_idle.cursor fun here => .ite (fun _ => ?_) fun _ => .pure rfl)
  refine h.bind ?_
  rintro found _ rfl
  exact .after (inherited_idle.eat .comma) fun _ => .pure (by simp)

end Numbered

end Parser

/-! ## Grammars -/

namespace Grammar

/-- A grammar that describes no regions has no numbers in its values. -/
theorem numbers_of_flat {α : Type} {grammar : Grammar (Region Operation) α}
    (flat : grammar.flat false = true)
    (a : α) : grammar.numbers a = [] := by
  have none := (entries_flat grammar flat a).few
  rw [numbers, List.length_eq_zero_iff.1 (Nat.le_zero.1 none), List.flatMap_nil]

open CirText.Parser in
/-- The parser of a grammar takes the numbers of the operations in what it gives. -/
theorem parse_numbered (start : Cursor) {region : RegionKind → Bool → Parser (Region Operation)}
    (regions : ∀ kind implicitTerminator, Numbered Region.numbers (region kind implicitTerminator))
    {α : Type} (grammar : Grammar (Region Operation) α) :
    Numbered grammar.numbers (grammar.parse start region) := by
  have leaf : ∀ {α : Type} (grammar : Grammar (Region Operation) α), grammar.isPlain = true →
      grammar.flat false = true → Numbered grammar.numbers (grammar.parse start region) :=
    fun grammar plain flat =>
      .ofIdle (inherited_idle.grammar start grammar fun rich =>
        absurd (plain.symm.trans rich) nofun)
        fun a => (numbers_of_flat flat a).symm
  have items : ∀ {α : Type} {item : Grammar (Region Operation) α} (found : List α),
      found.flatMap item.numbers = ((found.flatMap item.entries).flatMap Entry.regions).flatMap
      Region.numbers := by
    intro α item found
    rw [List.flatMap_assoc, List.flatMap_assoc]
    refine List.flatMap_congr fun a _ => ?_
    rw [numbers, List.flatMap_assoc]
  induction grammar with
  | blank | punct | word | lexeme | oneOf | name | type | attributeOf | namedAttribute
  | trailingAttribute | modifierRun => exact leaf _ rfl rfl
  | definition kind =>
    exact .ofIdle (inherited_idle.grammar start _ nofun) fun a => by cases kind <;> rfl
  | seq first second ihFirst ihSecond =>
    refine ihFirst.bind ?_
    rintro a _ rfl
    refine ihSecond.bind ?_
    rintro b _ rfl
    exact .pure (by simp [numbers, entries])
  | view as inner ih =>
    refine ih.map ?_
    rintro a _ rfl
    rw [numbers, numbers, entries_view]
  | optional present inner ih =>
    refine .after inherited_idle.cursor fun _ => .ite (fun _ => ih.map ?_) fun _ => .pure rfl
    rintro a _ rfl
    rfl
  | choice isFirst first second ihFirst ihSecond =>
    refine .after inherited_idle.cursor fun _ => .ite (fun _ => ihFirst.map ?_) fun _ =>
      ihSecond.map ?_
    all_goals
      rintro a _ rfl
      rfl
  | separated item ih =>
    refine ih.separated.mono ?_
    rintro found _ rfl
    exact items (found.1 :: found.2)
  | listed item ih =>
    refine ih.listed.mono ?_
    rintro found _ rfl
    exact items found
  | listedWithEllipsis item ih =>
    refine ih.listedWithEllipsis.mono ?_
    rintro found _ rfl
    exact items found.1
  | bracketed separator item ih =>
    refine (ih.bracketed separator).mono ?_
    rintro found _ rfl
    exact items found
  | repeated next item ih =>
    refine (ih.repeated next).mono ?_
    rintro found _ rfl
    exact items found
  | spanned inner ih =>
    refine .after inherited_idle.cursor fun _ => ih.bind ?_
    rintro a _ rfl
    exact .after inherited_idle.cursor fun _ => .pure (List.append_nil _)
  | binder what inner ih =>
    refine .after (inherited_idle.token _ _) fun _ => ih.bind ?_
    rintro a _ rfl
    exact .after (inherited_idle.define _ _) fun _ => .pure (List.append_nil _)
  | inScope inner ih =>
    refine ih.inScope.mono ?_
    rintro a _ rfl
    simp only [numbers, entries, List.flatMap_cons, List.flatMap_nil, List.append_nil]
    rw [Entry.regions, Entry.mentions, List.filterMap_flatMap]
    rfl
  | region kind implicitTerminator =>
    refine (regions kind implicitTerminator).mono ?_
    rintro a _ rfl
    exact (List.append_nil _).symm
  | recommended opcode warning inner ih =>
    refine ih.bind ?_
    rintro found _ rfl
    refine .ite (fun _ => ?_) fun _ => .pure (List.append_nil _)
    exact .after inherited_idle.cursor fun _ => .after (idle_warnDeprecated _ _ _) fun _ =>
      .pure (List.append_nil _)

end Grammar

namespace Parser

namespace NumbersFrom

variable {region : RegionKind → Bool → Parser (Region Operation)}

/-- Whether parsers of regions take the numbers of the operations in the regions. -/
def OfRegions (region : RegionKind → Bool → Parser (Region Operation)) : Prop :=
  ∀ kind implicitTerminator, Numbered Region.numbers (region kind implicitTerminator)

/-! ## Operations -/

theorem takeId : Numbers Parser.takeId fun id ids => ids = [id] where
  counts _ state := ⟨id, Nat.le_succ _⟩
  numbers := by
    rintro _ state _ id ⟨⟩
    refine ⟨_, rfl, Ascends.nil.cons (Nat.lt_succ_self _), fun _ _ => ?_⟩
    change [state.nextId] = List.range' state.nextId (state.nextId + 1 - state.nextId)
    rw [Nat.add_sub_cancel_left, List.range'_one]

theorem body (regions : OfRegions region) (traced : Traced.Regions region) (start : Cursor)
    (opcode : Opcode) (form : Form) :
    Numbered (fun body => body.payload.regions.flatMap Region.numbers)
      ((Grammar.body opcode form).parse start region) := by
  have built : Gives ((Grammar.body opcode form).parse start region)
      (Grammar.body opcode form).Builds :=
    .ofTraced <| (@Grammar.parse_traced _ (fun _ _ => True) start _ (fun _ _ _ same _ => same)
      (fun kind implicitTerminator => (traced kind implicitTerminator).weaken) _ _
      (Grammar.body_lawful opcode form)).mono fun _ _ found => found.1
  refine ((Grammar.parse_numbered start regions (Grammar.body opcode form)).gives built).mono ?_
  rintro body _ ⟨rfl, built⟩
  rw [Grammar.numbers, Grammar.regions_entries built]

/-- An operation has its number before the ones inside it have theirs. -/
theorem fromKeyword (regions : OfRegions region) (traced : Traced.Regions region) :
    Numbered (fun found => found.1 :: found.2.2.payload.regions.flatMap Region.numbers)
      (Parser.fromKeyword region) := by
  refine .after inherited_idle.cursor fun start => .ite (fun _ => ?_) fun _ => .expected _
  cases Opcode.ofKeyword? start.peek.text with
  | none => exact .after (fun _ _ => .one rfl rfl) fun _ => .fail
  | some opcode =>
    refine .after inherited_idle.skip fun _ => takeId.bind ?_
    rintro id _ rfl
    refine .naming (.after (inherited_idle.chooseForm opcode) fun form => ?_)
    refine (body regions traced start opcode form).bind ?_
    rintro body _ rfl
    exact .pure (by simp)

theorem operation (regions : OfRegions region) (traced : Traced.Regions region) :
    Numbered Operation.numbers (Parser.operation region) := by
  refine .after inherited_idle.cursor fun start => .after inherited_idle.resultNames fun names => ?_
  have ends : ∀ read, Leads State.Idle
      (names.mapM (define .value) >>= fun results => endOperation start results read) := by
    refine fun read => inherited_idle.bind (inherited_idle.mapM_define names) fun results => ?_
    cases read with
    | none => exact inherited_idle.fail
    | some found => exact inherited_idle.bind inherited_idle.cursor fun _ => inherited_idle.pure _
  refine (fromKeyword regions traced).attempt_bind ?_ (fun input state =>
    (ends none input state).counts) ?_
  · rintro ⟨id, form, body⟩ _ rfl
    refine .after (inherited_idle.mapM_define names) fun results =>
      .after inherited_idle.cursor fun now => .pure ?_
    rw [List.append_nil, Operation.numbers_eq]
    rfl
  · intro input state _ _ op given
    rw [bind_run] at given
    split at given
    · cases given
    · cases given

/-! ## Regions -/

/-- What comes after a check that parsing has not come to an early end. -/
theorem unlessHalted {parser : Parser α} {post : α → List Nat → Prop}
    (h : NumbersFrom (·.halted = false) parser post) :
    Numbers (do if ← look (·.halted) then Parser.fail else parser) post where
  counts input state := by
    rw [bind_run]
    dsimp only [look]
    split
    · exact (State.Idle.refl state).counts
    · exact h.counts input state
  numbers input state _ a given := by
    rw [bind_run] at given ⊢
    dsimp only [look] at given ⊢
    cases halted : state.halted with
    | true =>
      rw [halted, if_pos rfl] at given
      cases given
    | false =>
      rw [halted, if_neg Bool.false_ne_true] at given
      exact h.numbers input state halted a given

/-- The numbers of the operations that have been read so far. -/
abbrev soFar (progress : Progress) : List Nat :=
  (progressOps progress).flatMap Operation.numbers

/-- The numbers of the operations in the blocks of a region. -/
abbrev inBlocks (found : List (Block Operation) × Span) : List Nat :=
  (found.1.flatMap (·.ops)).flatMap Operation.numbers

theorem idle_skipUnit (start : Cursor) (progress : Progress) :
    Leads State.Idle (skipUnit start progress) :=
  inherited_idle.bind (idle_resynchronize start) fun _ => inherited_idle.pure _

theorem place (kind : RegionKind) (progress : Progress) (op : Operation) :
    Numbers (Parser.place kind progress op) fun placed ids => ids = [] ∧ placed =
      progress.push op := by
  have terminator : Numbers (do
      if op.isTerminator && !kind.accepts op then reportTerminator kind op
      Pure.pure (progress.push op)) fun placed ids => ids = [] ∧ placed = progress.push op :=
    .ite (fun _ => .after (fun _ _ => .one rfl rfl) fun _ => .pure ⟨rfl, rfl⟩) fun _ =>
      .pure ⟨rfl, rfl⟩
  exact .ite (fun _ => .after (fun _ _ => .one rfl rfl) fun _ => terminator) fun _ => terminator

theorem afterHeader (start : Cursor) (progress : Progress) :
    Numbers (attempt (blockHeader region) >>= Parser.afterHeader start progress) fun outcome more =>
      soFar progress ++ more = outcome.numbers soFar inBlocks := by
  have none : Numbers (blockHeader region) fun _ ids => ids = [] :=
    ofIdle inherited_idle.blockHeader fun _ => rfl
  have header : Numbers (blockHeader region) fun draft ids => ids = [] ∧ draft.ops = [] :=
    none.gives Gives.blockHeader
  refine header.attempt_bind ?_ ?_ ?_
  · rintro draft _ ⟨rfl, fresh⟩
    refine .pure ?_
    rw [List.append_nil, List.append_nil]
    exact congrArg (·.flatMap Operation.numbers) (progressOps_nextLabeled fresh).symm
  · exact fun input state => (idle_skipUnit start progress input state).counts
  · rintro input state _ _ outcome ⟨⟩
    have idle := (inherited_idle.blockHeader input state).trans
      (idle_skipUnit start progress input (blockHeader region input state).2)
    exact ⟨[], List.append_nil _, idle.takes⟩

/-- An operation that cannot be read is left out together with its numbers, which is an error. -/
theorem afterOperation {reads : RegionKind → Bool → Meaning (Region Operation)}
    (regions : OfRegions region)
    (traced : Traced.Regions region) (means : Means.OfRegions region reads) (kind : RegionKind)
    (start : Cursor) (progress : Progress) :
    NumbersFrom (·.halted = false) (attempt (Parser.operation region) >>=
      Parser.afterOperation kind start progress)
      fun outcome more => soFar progress ++ more = outcome.numbers soFar inBlocks := by
  refine (operation regions traced).attempt_bind ?_ ?_ ?_
  · rintro op _ rfl
    refine (place kind progress op).map ?_
    rintro _ _ ⟨rfl, rfl⟩
    rw [List.append_nil]
    change _ = (progressOps (progress.push op)).flatMap Operation.numbers
    rw [progressOps_push, List.flatMap_append, List.flatMap_singleton]
  · exact fun input state => (idle_skipUnit start progress input state).counts
  · rintro input state live failed outcome ⟨⟩
    have idle := idle_skipUnit start progress input (Parser.operation region input state).2
    refine ⟨[], List.append_nil _, .nil, fun structural clean => absurd (idle.clean clean) ?_⟩
    exact (Means.operation means).not_clean_of_none structural live failed

theorem blockStep {reads : RegionKind → Bool → Meaning (Region Operation)}
    (regions : OfRegions region)
    (traced : Traced.Regions region) (means : Means.OfRegions region reads) (kind : RegionKind)
    (opening : Span) (progress : Progress) :
    Numbers (Parser.blockStep region kind opening progress) fun outcome more =>
      soFar progress ++ more = outcome.numbers soFar inBlocks := by
  rw [blockStep_eq]
  refine .after inherited_idle.cursor fun start =>
    unlessHalted (.ite (fun _ => .ofNumbers ?_) fun _ => ?_)
  · refine .after inherited_idle.skip fun _ => .pure ?_
    rw [List.append_nil]
    rfl
  refine .ite (fun _ => .ofNumbers ?_) fun _ =>
    .ite (fun _ => .ofNumbers (afterHeader start progress)) fun _ =>
      afterOperation regions traced means kind start progress
  have unclosed : Leads State.Idle (reportUnclosed kind opening) :=
    inherited_idle.bind inherited_idle.peek fun _ =>
      inherited_idle.bind (fun _ _ => .one rfl rfl) fun _ _ _ => ⟨id, rfl⟩
  exact .after unclosed fun _ => .fail

theorem blocks {reads : RegionKind → Bool → Meaning (Region Operation)} (regions : OfRegions region)
    (traced : Traced.Regions region) (means : Means.OfRegions region reads) (kind : RegionKind)
    (implicitTerminator : Bool) (opening : Span) :
    Numbered Region.numbers (Parser.blocks region kind implicitTerminator opening) := by
  refine .after (fun _ _ => ⟨id, rfl⟩) fun scope => .after inherited_idle.peek fun first => ?_
  refine (iterate soFar inBlocks (blockStep regions traced means kind opening) _).bind ?_
  rintro found ids taken
  have unterminated :
      Leads State.Idle (reportUnterminated kind implicitTerminator found.1 found.2) :=
    inherited_idle.either (inherited_idle.pure _) fun _ _ => .many rfl rfl
  refine .after unterminated fun _ => .pure ?_
  rw [List.append_nil]
  exact taken

theorem regionWithin (levels : Nat) : OfRegions (Parser.regionWithin levels) := by
  induction levels with
  | zero =>
    have tooDeep : Numbered Region.numbers tooDeep :=
      .after (fun _ _ => ⟨id, rfl⟩) fun _ => .after (inherited_idle.reportExpected _) fun _ =>
        .after (fun _ _ => ⟨id, rfl⟩) fun _ => .fail
    exact fun kind implicitTerminator => .after idle_checkHalted fun _ =>
      .ite (fun _ => .fail) fun _ => tooDeep
  | succ levels ih =>
    intro kind implicitTerminator
    refine .after idle_checkHalted fun _ => .ite (fun _ => .fail) fun _ => ?_
    exact .after (inherited_idle.punct _) fun opening =>
      blocks ih (Traced.regionWithin levels) (Means.regionWithin levels) kind
        implicitTerminator opening.span

/-! ## Source units -/

/-- What comes after a check in which parsing may come to an early end. -/
theorem checkHalted {next : Bool → Parser α} {post : α → List Nat → Prop}
    (ended : Numbers (next true) post)
    (live : NumbersFrom (·.halted = false) (next false) post) :
    Numbers (Parser.checkHalted >>= next) post where
  counts := leads_bind State.Counts (fun left right => left.trans right)
    (fun input state => (idle_checkHalted input state).counts) fun halted => by
      cases halted
      · exact live.counts
      · exact ended.counts
  numbers input state _ a given := by
    rw [bind_run] at given ⊢
    unfold Parser.checkHalted at given ⊢
    cases halted : state.halted with
    | true =>
      rw [halted, if_pos rfl] at given
      exact ended.numbers input state trivial a given
    | false =>
      rw [halted, if_neg Bool.false_ne_true] at given
      rw [if_neg Bool.false_ne_true]
      cases cancelled : input.options.cancellation.isSet (countReadings .type state.readings)
        (countReadings .attribute state.readings) with
      | true =>
        rw [cancelled, if_pos rfl] at given
        rw [if_pos rfl]
        have noticed : state.Idle { state with
            halted := true
            diagnostics := state.diagnostics.push <|
              .error .cancelled (.emptyAt state.cursor.peek.span.start) } := .one rfl rfl
        obtain ⟨ids, related, takes⟩ := ended.numbers input _ trivial a given
        exact ⟨ids, related, noticed.takes.append takes noticed.counts (ended.counts input _)⟩
      | false =>
        rw [cancelled, if_neg Bool.false_ne_true] at given
        exact live.numbers input state halted a given

/-- The numbers of the item that a step gives, if it gives one. -/
abbrev inItem (found : Option Operation × Bool) : List Nat :=
  found.1.toList.flatMap Operation.numbers

theorem declaration (regions : OfRegions region) (traced : Traced.Regions region) :
    Numbered Operation.numbers (Parser.declaration region) :=
  .after inherited_idle.peek fun _ => .ite (fun _ => operation regions traced) fun _ => .expected _

theorem itemStep {reads : RegionKind → Bool → Meaning (Region Operation)}
    (regions : OfRegions region)
    (traced : Traced.Regions region) (means : Means.OfRegions region reads) (braced : Bool) :
    Numbered inItem (Parser.itemStep region braced) := by
  refine checkHalted (.after inherited_idle.cursor fun start =>
    .ite (fun _ => .pure rfl) fun ends => ?_) ?_
  · exact absurd rfl ends
  have skipped : ∀ start, Leads State.Idle (afterItem start none) := fun start =>
    inherited_idle.bind (idle_resynchronize start) fun _ =>
      inherited_idle.bind (fun _ _ => ⟨id, rfl⟩) fun _ => inherited_idle.pure _
  have next : ∀ start, NumbersFrom (·.halted = false) (attempt (Parser.declaration region) >>=
      afterItem start) fun found ids => ids = inItem found := by
    intro start
    refine (declaration regions traced).attempt_bind ?_ ?_ ?_
    · rintro op _ rfl
      exact .pure (by simp [inItem])
    · exact fun input state => (skipped start input state).counts
    · rintro input state live failed found ⟨⟩
      have idle := skipped start input (Parser.declaration region input state).2
      refine ⟨[], rfl, .nil, fun structural clean => absurd (idle.clean clean) ?_⟩
      exact (Means.declaration means).not_clean_of_none structural live failed
  have inner : ∀ start : Cursor, NumbersFrom (·.halted = false) (do
      if false || start.atEnd || braced && start.atPunct .rightBrace then Pure.pure (none, false)
      else attempt (Parser.declaration region) >>= afterItem start)
      fun found ids => ids = inItem found :=
    fun start => .ite (fun _ => .ofNumbers (.pure rfl)) fun _ => next start
  exact ⟨fun input state => (inner state.cursor).counts input state,
    fun input state live => (inner state.cursor).numbers input state live⟩

theorem items {reads : RegionKind → Bool → Meaning (Region Operation)} (regions : OfRegions region)
    (traced : Traced.Regions region) (means : Means.OfRegions region reads) (braced : Bool) :
    Numbered (fun ops => ops.flatMap Operation.numbers) (Parser.items region braced) :=
  Numbered.collect (itemStep regions traced means braced)

theorem idle_unitHeader (start : Cursor) : Leads State.Idle (unitHeader start) := by
  have rest : ∀ name, Leads State.Idle (restOfHeader start name) := by
    intro name
    have ended : ∀ attributes, Leads State.Idle (do
        Pure.pure ({ name, attributes, span := start.spanBetween (← cursor) } : ModuleHeader)) :=
      fun _ => inherited_idle.bind inherited_idle.cursor fun _ => inherited_idle.pure _
    have attributes : Leads State.Idle (attempt (attributeOf .dictionary)) :=
      inherited_idle.attributeOf .dictionary
    refine inherited_idle.bind inherited_idle.cursor fun _ => inherited_idle.either ?_ ?_
    · exact inherited_idle.bind inherited_idle.skip fun _ => inherited_idle.bind attributes fun _ =>
        ended _
    · exact inherited_idle.bind (inherited_idle.pure _) fun _ => ended _
  rw [unitHeader_eq]
  refine inherited_idle.bind inherited_idle.cursor fun _ => inherited_idle.either ?_ (rest _)
  exact inherited_idle.bind inherited_idle.skip fun _ => rest _

theorem idle_moduleEnd (opening : Token) : Leads State.Idle (moduleEnd opening) := by
  refine inherited_idle.bind inherited_idle.cursor fun _ => inherited_idle.either ?_ fun _ _ =>
    .one rfl rfl
  refine inherited_idle.bind inherited_idle.skip fun _ =>
    inherited_idle.bind inherited_idle.cursor fun _ => ?_
  exact inherited_idle.either (inherited_idle.reportExpected _) (inherited_idle.pure _)

/-- The numbers in a source unit are those of its items. -/
theorem sourceUnit {reads : RegionKind → Bool → Meaning (Region Operation)}
    (regions : OfRegions region)
    (traced : Traced.Regions region) (means : Means.OfRegions region reads) :
    Numbered (fun found => found.2.flatMap Operation.numbers) (Parser.sourceUnit region) := by
  refine .after inherited_idle.cursor fun start => .ite (fun _ => ?_) fun _ => ?_
  · have brace : Leads State.Idle (attempt (punct .leftBrace)) := inherited_idle.punct .leftBrace
    refine .after inherited_idle.skip fun _ => .after (idle_unitHeader start) fun header =>
      .after brace fun opening => ?_
    refine (items regions traced means _).bind ?_
    rintro ops _ rfl
    cases opening with
    | none => exact .pure (List.append_nil _)
    | some brace =>
      refine .after (fun _ _ => ⟨id, rfl⟩) fun halted => .ite (fun _ => ?_) fun _ =>
        .pure (List.append_nil _)
      exact .after (idle_moduleEnd brace) fun _ => .pure (List.append_nil _)
  · refine (items regions traced means false).bind ?_
    rintro ops _ rfl
    exact .pure (List.append_nil _)

end NumbersFrom

end Parser

/-! ## Modules -/

theorem Module.ids_eq (unit : Module) :
    unit.preorder.map (·.id) = unit.items.flatMap Operation.numbers := by
  rw [preorder, List.map_flatMap]
  rfl

theorem Parser.run_takes {source : String} {options : Options} {adapters : Adapters}
    {found : Option ModuleHeader × List Operation}
    (outcome : (run source options adapters).1 = some found) :
    (initial (tokenize source)).Takes adapters (run source options adapters).2
      (found.2.flatMap Operation.numbers) := by
  have numbered := NumbersFrom.sourceUnit (NumbersFrom.regionWithin options.maxDepth)
    (Traced.regionWithin options.maxDepth) (Means.regionWithin options.maxDepth)
  obtain ⟨_, rfl, takes⟩ :=
    numbered.numbers ⟨source.toList, options, adapters⟩ (initial (tokenize source)) trivial found
      outcome
  exact takes

/-- The numbers of all operations ascend in the order of the text, also where something is
malformed. -/
theorem parse_ids_ordered (source : String) (options : Options) (adapters : Adapters) :
    ((parse source options adapters).unit.preorder.map (·.id)).Pairwise (· < ·) := by
  rw [Module.ids_eq]
  change (((Parser.run source options adapters).1.getD (none, [])).2.flatMap _).Pairwise _
  cases outcome : (Parser.run source options adapters).1 with
  | none => exact .nil
  | some found => exact (Parser.run_takes outcome).ascends.ordered

/-- If there is no error the operations are numbered from zero on. -/
theorem parse_ids_eq_range {source : String} {options : Options}
    (clean : (parse source options).hasErrors = false) :
    (parse source options).unit.preorder.map (·.id) =
      List.range (parse source options).unit.preorder.length := by
  obtain ⟨clean, -⟩ := (parse_hasErrors source options .structural).1 clean
  have ids : ∃ count, (parse source options).unit.preorder.map (·.id) = List.range count := by
    rw [Module.ids_eq]
    change ∃ count, ((Parser.run source options).1.getD (none, [])).2.flatMap _ = _
    cases outcome : (Parser.run source options).1 with
    | none => exact ⟨0, rfl⟩
    | some found =>
      refine ⟨(Parser.run source options).2.nextId, ?_⟩
      rw [List.range_eq_range']
      exact (Parser.run_takes outcome).all rfl clean
  obtain ⟨count, ids⟩ := ids
  have same := congrArg List.length ids
  rw [List.length_map, List.length_range] at same
  rw [ids, same]

end CirText
