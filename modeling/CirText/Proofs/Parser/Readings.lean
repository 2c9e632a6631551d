import CirText.Proofs.Parser.Headway

/-!
# The order of readings

Each type or attribute is asked for behind all that have been asked for before, whether those could
be read or not. What has been read moves the cursor on. What could not be read leaves the cursor
where it was, but then the operation around it fails, and the next one to be tried starts with a
token that is not a type or an attribute.
-/

namespace CirText.Parser

variable {α β σ : Type}

/-- Whether the readings of a state stand in order, all of them before the place that is `slack`
tokens ahead. -/
def State.Asked (slack : Nat) (state : State) : Prop :=
  ((state.cursor.position + slack) :: state.readings.map (·.position)).Pairwise (· > ·)

theorem State.asked_iff {slack : Nat} {state : State} :
    state.Asked slack ↔
      (∀ reading ∈ state.readings, reading.position < state.cursor.position + slack) ∧
      (state.readings.map (·.position)).Pairwise (· > ·) := by
  simp [State.Asked]

theorem State.Asked.mono {slack more : Nat} {before after : State} (asked : before.Asked slack)
    (same : after.readings = before.readings)
    (further : before.cursor.position + slack ≤ after.cursor.position + more) :
    after.Asked more := by
  rw [State.asked_iff, same] at *
  exact ⟨fun reading member => Nat.lt_of_lt_of_le (asked.1 reading member) further, asked.2⟩

/-- What is asked for comes behind everything that has been asked for. -/
theorem State.Asked.ask {slack : Nat} {before after : State} {language : Sublanguage}
    (asked : before.Asked 0)
    (same : after.readings = ⟨language, before.cursor.position⟩ :: before.readings)
    (further : before.cursor.position < after.cursor.position + slack) : after.Asked slack := by
  have earlier := (State.asked_iff.1 asked).1
  rw [State.asked_iff, same]
  constructor
  · intro reading member
    rcases List.mem_cons.1 member with rfl | old
    · exact further
    · exact Nat.lt_trans (earlier reading old) further
  · exact asked

/-- Whether a parser asks for types and attributes in order: started where all readings are before
the place `slack` tokens ahead, it ends so with as many tokens as its result says, and with one if
it fails. -/
def AsksInOrder (slack : Nat) (left : α → Nat) (parser : Parser α) : Prop :=
  ∀ (input : Input) (state : State), state.Asked slack →
    (parser input state).2.Asked ((parser input state).1.elim 1 left)

/-- The slack after a step of a loop: the same again, or what the result says. -/
def Step.left (slack : Nat) (left : β → Nat) : Step σ β → Nat
  | .again _ => slack
  | .done b => left b

namespace AsksInOrder

variable {slack more : Nat} {parser : Parser α} {next : α → Parser β} {middle : α → Nat}
    {left : β → Nat}

theorem weaken {less : α → Nat} (inOrder : AsksInOrder slack less parser) (fewer : more ≤ slack)
    {above : α → Nat} (atLeast : ∀ a, less a ≤ above a) : AsksInOrder more above parser := by
  intro input state asked
  have ran := inOrder input state (asked.mono rfl (Nat.add_le_add_left fewer _))
  cases run : parser input state with
  | mk outcome last =>
    rw [run] at ran
    cases outcome with
    | none => exact ran
    | some a => exact ran.mono rfl (Nat.add_le_add_left (atLeast a) _)

theorem ran (input : Input) {state : State} {less : α → Nat}
    (inOrder : AsksInOrder slack less parser)
    (asked : state.Asked slack) (few : ∀ a, less a ≤ 1) : (parser input state).2.Asked 1 := by
  have last := inOrder.weaken (Nat.le_refl _) few input state asked
  cases run : parser input state with
  | mk outcome after =>
    rw [run] at last
    cases outcome <;> exact last

theorem of_eq (few : slack ≤ 1)
    (silent : ∀ input state, (parser input state).2.readings = state.readings)
    (forward : Forward parser) : AsksInOrder slack (fun _ => slack) parser := by
  intro input state asked
  have further := (forward input state).position_le
  refine asked.mono (silent input state) ?_
  cases (parser input state).1 with
  | none => exact Nat.add_le_add further few
  | some a => exact Nat.add_le_add_right further _

theorem pure (a : α) : AsksInOrder slack (fun _ => slack) (Pure.pure a : Parser α) :=
  fun _ _ asked => asked

theorem pure_of_le {b : β} (enough : slack ≤ left b) : AsksInOrder slack left (Pure.pure b) :=
  fun _ _ asked => asked.mono rfl (Nat.add_le_add_left enough _)

theorem bind (first : AsksInOrder slack middle parser)
    (second : ∀ a, AsksInOrder (middle a) left (next a)) :
    AsksInOrder slack left (parser >>= next) := by
  intro input state asked
  have ran := first input state asked
  rw [bind_run]
  cases run : parser input state with
  | mk outcome later =>
    rw [run] at ran
    cases outcome with
    | none => exact ran
    | some a => exact second a input later ran

theorem ite {condition : Prop} [Decidable condition] {yes no : Parser β}
    (first : condition → AsksInOrder slack left yes)
    (second : ¬condition → AsksInOrder slack left no) :
    AsksInOrder slack left (if condition then yes else no) := by
  split
  · exact first ‹_›
  · exact second ‹_›

theorem attempt {left : α → Nat} (inOrder : AsksInOrder slack left parser) :
    AsksInOrder slack (·.elim 1 left) (Parser.attempt parser) :=
  inOrder

theorem inScope {left : α → Nat} (inOrder : AsksInOrder slack left parser) :
    AsksInOrder slack left (Parser.inScope parser) :=
  fun input state asked => inOrder input { state with tracker := state.tracker.push } asked

theorem naming {left : α → Nat} (construct : String) (inOrder : AsksInOrder slack left parser) :
    AsksInOrder slack left (Parser.naming construct parser) :=
  fun input state asked => inOrder input { state with construct } asked

theorem iterate {step : σ → Parser (Step σ β)} (few : slack ≤ 1)
    (steps : ∀ accumulated, AsksInOrder slack (Step.left slack left) (step accumulated))
    (accumulated : σ) : AsksInOrder slack left (Parser.iterate step accumulated) := by
  intro input state asked
  induction accumulated, state using iterate_induction step input with
  | failed accumulated state final run ran | done accumulated state result final run ran =>
    have stepped := steps accumulated input state asked
    rw [run] at stepped
    rw [ran]
    exact stepped
  | stuck accumulated state further final run fewer ran =>
    have stepped := steps accumulated input state asked
    rw [run] at stepped
    rw [ran]
    exact stepped.mono rfl (Nat.add_le_add_left few _)
  | again accumulated state further next run fewer ran ih =>
    have stepped := steps accumulated input state asked
    rw [run] at stepped
    rw [ran]
    exact ih stepped

/-! ## Tokens -/

theorem satisfying {condition : Token → Bool} (what : String)
    (real : ∀ offset, condition (.endAt offset) = false) :
    AsksInOrder 1 (fun _ => 0) (Parser.satisfying condition what) := by
  intro input state asked
  have strides : Strides (fun _ => True) (Parser.satisfying condition what) := .satisfying what real
  have fewer := strides input state
  have reaches := inherited_forward.satisfying condition what input state
  rw [satisfying_run] at *
  split
  · rename_i satisfied
    rw [if_pos satisfied] at fewer reaches
    exact asked.mono rfl (reaches.position_lt (fewer _ rfl trivial))
  · exact asked

theorem token {wanted : TokenKind} (what : String) (real : wanted ≠ .endOfInput) :
    AsksInOrder 1 (fun _ => 0) (Parser.token wanted what) :=
  satisfying what fun _ => beq_eq_false_iff_ne.2 real.symm

theorem punct (mark : Punct) : AsksInOrder 1 (fun _ => 0) (Parser.punct mark) :=
  satisfying _ fun _ => rfl

/-! ## Types and attributes -/

theorem embed {language : Sublanguage} {adapter : Adapters → Adapter α} :
    AsksInOrder 0 (fun _ => 0) (Parser.embed language adapter) := by
  intro input state asked
  have fewer := @Strides.embed _ (fun _ => True) language adapter input state
  have reaches := forward_embed language adapter input state
  unfold Parser.embed at *
  cases found : (adapter input.adapters).read input.source state.cursor with
  | ok value =>
    rw [found] at fewer reaches
    exact asked.ask rfl (reaches.position_lt (fewer _ rfl trivial))
  | error error => exact asked.ask rfl (Nat.lt_succ_self _)

/-- Asking in order from the next token on is inherited. -/
theorem inherited : InheritedInside fun parser => AsksInOrder 0 (fun _ => 0) parser where
  pure := pure
  fail := of_eq (Nat.zero_le 1) (fun _ _ => rfl) inherited_forward.fail
  cursor := of_eq (Nat.zero_le 1) (fun _ _ => rfl) inherited_forward.cursor
  skip := of_eq (Nat.zero_le 1) (fun _ _ => rfl) inherited_forward.skip
  reportExpected what :=
    of_eq (Nat.zero_le 1) (fun _ _ => rfl) (inherited_forward.reportExpected what)
  reportAmbiguous _ _ _ _ :=
    of_eq (Nat.zero_le 1) (fun _ _ => rfl) (inherited_forward.reportAmbiguous _ _ _ _)
  reportRepeated _ _ _ :=
    of_eq (Nat.zero_le 1) (fun _ _ => rfl) (inherited_forward.reportRepeated _ _ _)
  noteUse kind found :=
    of_eq (Nat.zero_le 1) (fun _ _ => rfl) (inherited_forward.noteUse kind found)
  define kind found := of_eq (Nat.zero_le 1) (fun _ _ => rfl) (inherited_forward.define kind found)
  type := embed
  attributeOf _ := embed
  bind := bind
  inScope := inScope
  iterate steps := iterate (Nat.zero_le 1) fun accumulated =>
    (steps accumulated).weaken (Nat.le_refl _) (by rintro (_ | _) <;> exact Nat.le_refl _)

theorem parse {R : Type} {region : RegionKind → Bool → Parser R}
    (regions : ∀ kind implicitTerminator,
      AsksInOrder 0 (fun _ => 0) (region kind implicitTerminator))
    (start : Cursor) (grammar : Grammar R α) :
    AsksInOrder 0 (fun _ => 0) (grammar.parse start region) :=
  inherited.grammar start grammar fun _ => ⟨fun opcode message span => by
    refine of_eq (Nat.zero_le 1) (fun input state => ?_)
      (forward_warnDeprecated opcode message span)
    rw [warnDeprecated_run]
    dsimp only
    split <;> rfl, regions⟩

theorem expected {what : String} (few : slack ≤ 1) :
    AsksInOrder slack left (Parser.expected what) :=
  fun _ _ asked => asked.mono rfl (Nat.add_le_add_left few _)

theorem fail (few : slack ≤ 1) : AsksInOrder slack left Parser.fail :=
  fun _ _ asked => asked.mono rfl (Nat.add_le_add_left few _)

theorem cursor (few : slack ≤ 1) : AsksInOrder slack (fun _ => slack) Parser.cursor :=
  of_eq few (fun _ _ => rfl) inherited_forward.cursor

theorem skip (few : slack ≤ 1) : AsksInOrder slack (fun _ => slack) Parser.skip :=
  of_eq few (fun _ _ => rfl) inherited_forward.skip

theorem halted (few : slack ≤ 1) : AsksInOrder slack (fun _ => slack) (Parser.look (·.halted)) :=
  of_eq few (fun _ _ => rfl) inherited_forward.halted

theorem mapM_define (few : slack ≤ 1) (names : List Token) :
    AsksInOrder slack (fun _ => slack) (names.mapM (Parser.define .value)) := by
  suffices loop : ∀ done,
      AsksInOrder slack (fun _ => slack) (List.mapM.loop (Parser.define .value) names done) from
    loop []
  induction names with
  | nil => exact fun done => pure _
  | cons name names ih =>
    exact fun done => bind (of_eq few (fun _ _ => rfl) (inherited_forward.define _ _)) fun _ => ih _

theorem resynchronize (start : Cursor) :
    AsksInOrder 1 (fun _ => 1) (Parser.resynchronize start) := by
  refine of_eq (Nat.le_refl 1) (fun input state => ?_) (forward_resynchronize start)
  unfold Parser.resynchronize change
  dsimp only
  split <;> rfl

theorem checkHalted (few : slack ≤ 1) : AsksInOrder slack (fun _ => slack) Parser.checkHalted := by
  refine of_eq few (fun input state => ?_) forward_checkHalted
  rw [checkHalted_run]
  split
  · rfl
  · split <;> rfl

/-! ## Operations -/

section Operations

variable {region : RegionKind → Bool → Parser (Region Operation)}
  (regions : ∀ kind implicitTerminator, AsksInOrder 0 (fun _ => 0) (region kind implicitTerminator))

include regions

theorem afterKeyword (start : Cursor) (opcode : Opcode) :
    AsksInOrder 0 (fun _ => 0) (Parser.afterKeyword region start opcode) := by
  refine bind (of_eq (Nat.zero_le 1) (fun _ _ => rfl) inherited_forward.takeId) fun _ => naming _ ?_
  exact bind (inherited.chooseForm opcode) fun _ => bind (parse regions start _) fun _ => pure _

/-- No operation starts with a type or an attribute. -/
theorem fromKeyword : AsksInOrder 1 (fun _ => 0) (Parser.fromKeyword region) := by
  intro input state asked
  rcases fromKeyword_cases region input state with ⟨opcode, more, run⟩ | ⟨diagnostics, run⟩
  · have skipped : State.Asked 0 { state with cursor := state.cursor.next } :=
      asked.mono rfl ((Cursor.Reaches.next _).position_lt (length_next_lt more))
    rw [run]
    exact afterKeyword regions state.cursor opcode input _ skipped
  · rw [run]
    exact asked

omit regions in
theorem resultNames : AsksInOrder 1 (fun _ => 1) Parser.resultNames := by
  have names : AsksInOrder 1 (fun _ => 0)
      (Parser.separated (Parser.token .value "a result name")) :=
    bind (token _ (by rintro ⟨⟩)) fun _ =>
      inherited.bind (inherited.tail (inherited.token _ _)) fun _ => pure _
  refine bind (cursor (Nat.le_refl 1)) fun _ => ite (fun _ => ?_) fun _ => pure _
  refine weaken ?_ (Nat.le_refl 1) fun _ => Nat.zero_le 1
  exact bind names fun _ => inherited.bind (inherited.punct _) fun _ => pure _

theorem operation : AsksInOrder 1 (fun _ => 1) (Parser.operation region) := by
  refine bind (cursor (Nat.le_refl 1)) fun start => bind resultNames fun names => ?_
  refine bind (attempt (fromKeyword regions)) fun read => ?_
  cases read with
  | none => exact bind (mapM_define (Nat.le_refl 1) names) fun _ => fail (Nat.le_refl 1)
  | some found =>
    refine bind (mapM_define (Nat.zero_le 1) names) fun _ => ?_
    exact weaken (inherited.bind inherited.cursor fun _ => pure _) (Nat.le_refl 0) fun _ =>
      Nat.zero_le 1

theorem declaration : AsksInOrder 1 (fun _ => 1) (Parser.declaration region) :=
  bind (of_eq (Nat.le_refl 1) (fun _ _ => rfl) inherited_forward.peek) fun _ =>
    ite (fun _ => operation regions) fun _ => expected (Nat.le_refl 1)

theorem blockHeader : AsksInOrder 1 (fun _ => 0) (Parser.blockHeader region) := by
  refine bind (cursor (Nat.le_refl 1)) fun start => ?_
  have label : AsksInOrder 1 (fun _ => 0)
      ((Grammar.definition .label).parse (R := Region Operation) start region) :=
    bind (token _ (by rintro ⟨⟩)) fun _ => inherited.define _ _
  have args : AsksInOrder 1 (fun _ => 0)
      ((Grammar.seq (.definition .label) Grammar.blockArguments).parse start region) :=
    bind label fun _ => inherited.bind (parse regions start _) fun _ => pure _
  have header : AsksInOrder 1 (fun _ => 0) (Grammar.blockHeader.parse start region) :=
    bind (bind args fun _ => inherited.bind (parse regions start _) fun _ => pure _) fun _ => pure _
  exact bind header fun _ => inherited.bind inherited.cursor fun _ => pure _

omit regions in
theorem place (kind : RegionKind) (progress : Progress) (op : Operation) :
    AsksInOrder 1 (fun _ => 1) (Parser.place kind progress op) := by
  have terminator : AsksInOrder 1 (fun _ => 1) (do
      if op.isTerminator && !kind.accepts op then reportTerminator kind op
      Pure.pure (progress.push op)) :=
    ite (fun _ => bind (of_eq (Nat.le_refl 1) (fun _ _ => rfl) (inherited_forward.report rfl))
      fun _ => pure _) fun _ => pure _
  exact ite (fun _ =>
    bind (of_eq (Nat.le_refl 1) (fun _ _ => rfl) (inherited_forward.report rfl)) fun _ =>
    terminator) fun _ => terminator

/-- A step through the blocks of a region may go on at what could not be read, but the closing brace
is behind it. -/
theorem blockStep (kind : RegionKind) (opening : Span) (progress : Progress) :
    AsksInOrder 1 (Step.left 1 fun _ => 0) (Parser.blockStep region kind opening progress) := by
  intro input state asked
  have resumed : AsksInOrder 1 (Step.left 1 fun _ => 0) (skipUnit state.cursor progress) :=
    bind (resynchronize _) fun _ => pure _
  rw [blockStep_run]
  split
  · exact asked
  · split
    · rename_i brace
      have more := Cursor.rest_ne_nil (·.isPunct .rightBrace) (fun _ => rfl) brace
      exact asked.mono rfl ((Cursor.Reaches.next _).position_lt (length_next_lt more))
    · split
      · exact asked
      · split
        · refine bind (attempt (blockHeader regions)) (fun read => ?_) input state asked
          cases read with
          | none => exact resumed
          | some draft => exact pure_of_le (Nat.zero_le 1)
        · refine bind (attempt (operation regions)) (fun read => ?_) input state asked
          cases read with
          | none => exact resumed
          | some op => exact bind (place kind progress op) fun _ => pure _

theorem blocks (kind : RegionKind) (implicitTerminator : Bool) (opening : Span) :
    AsksInOrder 0 (fun _ => 0) (Parser.blocks region kind implicitTerminator opening) := by
  refine bind (of_eq (Nat.zero_le 1) (fun _ _ => rfl) inherited_forward.scope) fun _ => ?_
  refine inherited.bind inherited.peek fun _ => ?_
  have loop : ∀ progress,
      AsksInOrder 0 (fun _ => 0) (Parser.iterate (Parser.blockStep region kind opening) progress) :=
    fun progress => weaken (iterate (Nat.le_refl 1) (blockStep regions kind opening) progress)
    (Nat.zero_le 1) fun _ => Nat.le_refl 0
  refine bind (loop _) fun found => bind (of_eq (Nat.zero_le 1) (fun input state => ?_) ?_) fun _ =>
    pure _
  · unfold reportUnterminated
    split <;> rfl
  · exact inherited_forward.reportUnterminated kind implicitTerminator _ _

end Operations

theorem regionWithin (levels : Nat) (kind : RegionKind) (implicitTerminator : Bool) :
    AsksInOrder 0 (fun _ => 0) (Parser.regionWithin levels kind implicitTerminator) := by
  induction levels generalizing kind implicitTerminator with
  | zero =>
    refine bind (checkHalted (Nat.zero_le 1)) fun _ => ite (fun _ => inherited.fail) fun _ => ?_
    exact fun _ _ asked => asked.mono rfl (Nat.le_succ _)
  | succ levels ih =>
    refine bind (checkHalted (Nat.zero_le 1)) fun _ => ite (fun _ => inherited.fail) fun _ => ?_
    exact inherited.bind (inherited.punct _) fun _ => blocks ih kind implicitTerminator _

/-! ## Source units -/

theorem itemStep {region : RegionKind → Bool → Parser (Region Operation)}
    (regions : ∀ kind implicitTerminator,
      AsksInOrder 0 (fun _ => 0) (region kind implicitTerminator))
    (braced : Bool) : AsksInOrder 1 (fun _ => 1) (Parser.itemStep region braced) := by
  refine bind (checkHalted (Nat.le_refl 1)) fun _ => bind (cursor (Nat.le_refl 1)) fun start => ?_
  refine ite (fun _ => pure _) fun _ => bind (attempt (declaration regions)) fun read => ?_
  cases read with
  | none => exact bind (resynchronize start) fun _ => bind (halted (Nat.le_refl 1)) fun _ => pure _
  | some op => exact pure _

theorem items {region : RegionKind → Bool → Parser (Region Operation)}
    (regions : ∀ kind implicitTerminator,
      AsksInOrder 0 (fun _ => 0) (region kind implicitTerminator))
    (braced : Bool) : AsksInOrder 1 (fun _ => 1) (Parser.items region braced) := by
  have steps : ∀ earlier,
      AsksInOrder 1 (Step.left 1 fun _ => 1) (collectItem region braced earlier) :=
    fun earlier => weaken (bind (itemStep regions braced) fun _ => pure _) (Nat.le_refl 1)
      (by rintro (_ | _) <;> exact Nat.le_refl 1)
  exact bind (iterate (Nat.le_refl 1) steps []) fun _ => pure _

theorem unitHeader (start : Cursor) : AsksInOrder 0 (fun _ => 1) (Parser.unitHeader start) := by
  have ended : ∀ name attributes, AsksInOrder 1 (fun _ => 1) (do
      Pure.pure ({ name, attributes, span := start.spanBetween (← Parser.cursor) } :
        ModuleHeader)) :=
    fun _ _ => bind (cursor (Nat.le_refl 1)) fun _ => pure _
  have rest : ∀ name, AsksInOrder 0 (fun _ => 1) (restOfHeader start name) := by
    intro name
    refine bind (cursor (Nat.zero_le 1)) fun _ => ite (fun _ => ?_) fun _ => ?_
    · refine bind (skip (Nat.zero_le 1)) fun _ => ?_
      refine bind (weaken (attempt (inherited.attributeOf .dictionary)) (Nat.le_refl 0) ?_) fun _ =>
        ended name _
      rintro (_ | _)
      · exact Nat.le_refl 1
      · exact Nat.zero_le 1
    · exact bind (pure _) fun _ => weaken (ended name none) (Nat.zero_le 1) fun _ => Nat.le_refl 1
  rw [unitHeader_eq]
  refine bind (cursor (Nat.zero_le 1)) fun _ => ite (fun _ => ?_) fun _ => rest _
  exact bind (skip (Nat.zero_le 1)) fun _ => rest _

theorem moduleEnd (opening : Token) : AsksInOrder 1 (fun _ => 1) (Parser.moduleEnd opening) := by
  refine bind (cursor (Nat.le_refl 1)) fun _ => ite (fun _ => ?_) fun _ => ?_
  · refine bind (skip (Nat.le_refl 1)) fun _ => bind (cursor (Nat.le_refl 1)) fun _ => ?_
    refine ite (fun _ => ?_) fun _ => pure _
    exact of_eq (Nat.le_refl 1) (fun _ _ => rfl) (inherited_forward.reportExpected _)
  · exact of_eq (Nat.le_refl 1) (fun _ _ => rfl) (inherited_forward.report rfl)

theorem sourceUnit {region : RegionKind → Bool → Parser (Region Operation)}
    (regions : ∀ kind implicitTerminator,
      AsksInOrder 0 (fun _ => 0) (region kind implicitTerminator)) :
    AsksInOrder 0 (fun _ => 1) (Parser.sourceUnit region) := by
  refine bind (cursor (Nat.zero_le 1)) fun start => ite (fun _ => ?_) fun _ => ?_
  · refine bind (skip (Nat.zero_le 1)) fun _ => bind (unitHeader start) fun _ => ?_
    have brace : AsksInOrder 1 (fun _ => 1) (Parser.attempt (Parser.punct .leftBrace)) :=
      attempt (weaken (punct _) (Nat.le_refl 1) fun _ => Nat.zero_le 1) |>.weaken (Nat.le_refl 1)
        (by rintro (_ | _) <;> exact Nat.le_refl 1)
    refine bind brace fun opening => bind (items regions _) fun ops => ?_
    cases opening with
    | none => exact pure _
    | some brace =>
      refine bind (halted (Nat.le_refl 1)) fun _ => ite (fun _ => ?_) fun _ => pure _
      exact bind (moduleEnd brace) fun _ => pure _
  · exact bind (weaken (items regions false) (Nat.zero_le 1) fun _ => Nat.le_refl 1) fun _ => pure _

end AsksInOrder

/-- The types and attributes that are asked for while a source unit is read stand in order, and none
of them is asked for twice. -/
theorem readings_sourceUnit (levels : Nat) (input : Input) (lexed : Tokenized) :
    ((sourceUnit (regionWithin levels) input (initial lexed)).2.readings.map (·.position)).Pairwise
      (· > ·) := by
  have started : (initial lexed).Asked 0 := List.pairwise_singleton _ _
  exact (State.asked_iff.1
    ((AsksInOrder.sourceUnit (AsksInOrder.regionWithin levels)).ran input started fun _ =>
    Nat.le_refl 1)).2

end CirText.Parser
