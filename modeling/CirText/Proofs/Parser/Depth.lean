import CirText.Proofs.Grammar.Limited

/-!
# Source units under a nesting limit

The region that is too deep fails, and with it everything around it up to an item of the source
unit. The items that were complete by then are the first ones of the deep run.
-/

namespace CirText.Parser

namespace LimitedWith

variable {shallow deep : RegionKind → Bool → Parser (Region Operation)}

/-- Parsers of regions of which the second ones read deeper ones. -/
def Regions (shallow deep : RegionKind → Bool → Parser (Region Operation)) : Prop :=
  ∀ kind implicitTerminator,
    Limited (shallow kind implicitTerminator) (deep kind implicitTerminator)

/-! ## Operations -/

theorem resultNames : Limited Parser.resultNames Parser.resultNames := by
  apply look
  intro here
  apply ite _ pure
  apply (separated (token rfl)).bind
  intro found
  exact bindSteady (punct .equal) fun _ => pure

theorem takeId : Limited Parser.takeId Parser.takeId :=
  quiet (fun _ _ => ⟨id, rfl⟩) fun _ _ _ => rfl

/-- What is expected where no form of an operation can be selected. -/
theorem namesNoLimit_choose {opcode : Opcode} {cursor : Cursor} {what : String}
    (failed : Form.choose opcode cursor = .error what) : namesNoLimit what = true := by
  have rules : ∀ rule : Form.Rule, rule.choose cursor = .error what →
      (∀ start other expected, rule = .parensOr start other expected →
        namesNoLimit expected = true) → namesNoLimit what = true := by
    intro rule chosen named
    cases rule with
    | parensOr start other expected =>
      have here := named start other expected rfl
      simp only [Form.Rule.choose] at chosen
      repeat' split at chosen
      all_goals cases chosen
      exact here
    | _ =>
      simp only [Form.Rule.choose] at chosen
      repeat' split at chosen
      all_goals cases chosen
      all_goals rfl
  apply rules (Form.ruleOf opcode) failed
  intro start other expected same
  cases opcode
  all_goals cases same
  all_goals rfl

theorem chooseForm (opcode : Opcode) :
    Limited (Parser.chooseForm opcode) (Parser.chooseForm opcode) := by
  apply look
  intro here
  cases chosen : Form.choose opcode here with
  | ok form => exact pure
  | error what =>
    have other : ∀ (found : Token) limit, (Diagnostic.error
        (.ambiguousForm opcode what found.describe) found.span).isTooDeep limit = false :=
      fun found limit => beq_eq_false_iff_ne.2 (ne_depthText (namesNoLimit_choose chosen) limit)
    exact look fun found => (report (other found)).bind fun _ => fail

theorem fromKeyword (regions : Regions shallow deep) :
    Limited (Parser.fromKeyword shallow) (Parser.fromKeyword deep) := by
  apply look
  intro start
  apply ite _ (expected rfl)
  cases Opcode.ofKeyword? start.peek.text with
  | none => exact bindSteady (report fun _ => rfl) fun _ => fail
  | some opcode =>
    apply bindSteady skip
    intro _
    apply takeId.bind
    intro id
    apply naming
    apply (chooseForm opcode).bind
    intro form
    apply (Grammar.parse_limited start regions _ (Grammar.body_namesNoLimit opcode form)).bind
    exact fun _ => pure

theorem mapM_define {gives : Option (List Definition) → Option (List Definition) → Prop}
    (names : List Token) :
    LimitedWith gives (names.mapM (Parser.define .value)) (names.mapM (Parser.define .value)) := by
  suffices loop : ∀ done, LimitedWith gives (List.mapM.loop (Parser.define .value) names done)
      (List.mapM.loop (Parser.define .value) names done) from
    loop []
  induction names with
  | nil => exact fun done => pure
  | cons name names ih => exact fun done => bindSteady (define .value name) fun _ => ih _

/-- The names before an operation are defined also if the operation is too deep, but then it
fails. -/
theorem operation (regions : Regions shallow deep) :
    Limited (Parser.operation shallow) (Parser.operation deep) := by
  apply look
  intro start
  apply resultNames.bind
  intro names
  apply recover (fromKeyword regions)
  · intro read
    apply bindSteady (mapM_define names)
    intro results
    rcases read with _ | ⟨id, form, body⟩
    · exact fail
    · exact look fun now => pure
  · intro input state _
    change ((names.mapM (Parser.define .value) >>= fun results => endOperation start results none)
      input state).1 = none
    rw [bind_run]
    split <;> rfl
  · exact fun _ => rfl

/-! ## Regions -/

theorem blockHeader (regions : Regions shallow deep) :
    Limited (Parser.blockHeader shallow) (Parser.blockHeader deep) := by
  apply look
  intro start
  apply (Grammar.parse_limited start regions Grammar.blockHeader rfl).bind
  rintro ⟨label, args⟩
  exact look fun now => pure

theorem resynchronize {gives : Option Unit → Option Unit → Prop} (start : Cursor) :
    LimitedWith gives (Parser.resynchronize start) (Parser.resynchronize start) := by
  apply change
  · intro state halted
    simp only [halted, if_true]
  · intro state
    split <;> rfl

theorem reportUnterminated (kind : RegionKind) (implicitTerminator : Bool)
    (blocks : List (Block Operation)) (closing : Span) :
    Limited (Parser.reportUnterminated kind implicitTerminator blocks closing)
      (Parser.reportUnterminated kind implicitTerminator blocks closing) := by
  apply quiet
  · intro input state
    have none_ : ∀ limit, ((blocks.filter (·.terminator.isNone)).map
        (unterminatedBlock kind closing)).countP (·.isTooDeep limit) = 0 := by
      intro limit
      apply List.countP_eq_zero.2
      intro diagnostic member
      obtain ⟨block, _, rfl⟩ := List.mem_map.1 member
      exact Bool.false_ne_true
    unfold Parser.reportUnterminated
    split
    · exact .refl _ _
    · refine ⟨id, ?_⟩
      simp only [State.excesses, Parser.change, Diagnostics.append, Array.toList_appendList,
        List.countP_append, none_, Nat.add_zero]
  · intro input limit state
    unfold Parser.reportUnterminated
    split <;> rfl

theorem reportUnclosed (kind : RegionKind) (opening : Span) :
    Limited (Parser.reportUnclosed kind opening) (Parser.reportUnclosed kind opening) :=
  look fun _ => bindSteady (report fun _ => rfl) fun _ => change (fun _ _ => rfl) fun _ => rfl

theorem place (kind : RegionKind) (progress : Progress) (op : Operation) :
    Limited (Parser.place kind progress op) (Parser.place kind progress op) := by
  have label : LimitedWith (fun _ _ => False) (Parser.reportAfterTerminator kind op)
      (Parser.reportAfterTerminator kind op) :=
    report fun limit => beq_eq_false_iff_ne.2 (ne_depthText rfl limit)
  have terminator : LimitedWith (fun _ _ => False) (Parser.reportTerminator kind op)
      (Parser.reportTerminator kind op) :=
    report fun _ => rfl
  apply ite
  · apply label.bindSteady
    intro _
    exact ite (terminator.bindSteady fun _ => pure) pure
  · exact ite (terminator.bindSteady fun _ => pure) pure

/-- A step through the blocks of a region that comes upon a region that is too deep ends them. -/
theorem blockStep (regions : Regions shallow deep) (kind : RegionKind) (opening : Span)
    (progress : Progress) :
    LimitedWith (fun cut _ => Ends (Parser.blockStep shallow kind opening) cut none)
      (Parser.blockStep shallow kind opening progress)
      (Parser.blockStep deep kind opening progress) := by
  have stalls : Ends (Parser.blockStep shallow kind opening) (some (.again progress)) none :=
    .stalls progress fun progress input state halted =>
      InterruptibleWith.blockStep_halted kind opening progress input state halted
  have resumes : ∀ {gives : Option (Step Progress (List (Block Operation) × Span)) →
      Option (Step Progress (List (Block Operation) × Span)) → Prop} start,
      LimitedWith gives (skipUnit start progress) (skipUnit start progress) :=
    fun start => (resynchronize start).bindSteady fun _ => pure
  apply look
  intro start
  apply look
  intro halted
  apply ite fail
  apply ite
  · exact bindSteady skip fun _ => pure
  apply ite
  · exact (reportUnclosed kind opening).bindWith (fun _ => fail) fun _ => .fails
  apply ite
  · apply recover (blockHeader regions)
    · rintro (_ | block)
      · exact resumes start
      · exact pure
    · exact fun input state _ => rfl
    · exact fun _ => stalls
  · apply recover (operation regions)
    · rintro (_ | op)
      · exact resumes start
      · exact (place kind progress op).bindWith (fun _ => pure) fun _ => .fails
    · exact fun input state _ => rfl
    · exact fun _ => stalls

theorem blocks (regions : Regions shallow deep) (kind : RegionKind) (implicitTerminator : Bool)
    (opening : Span) :
    Limited (Parser.blocks shallow kind implicitTerminator opening)
      (Parser.blocks deep kind implicitTerminator opening) := by
  apply look
  intro scope
  apply look
  intro first
  apply (iterate fun progress => blockStep regions kind opening progress).bind
  rintro ⟨blocks, closing⟩
  exact (reportUnterminated kind implicitTerminator blocks closing).bind fun _ => pure

/-- A region that is too deep for the limit. -/
theorem tooDeep_exceeds (input : Input) (state : State) :
    (Parser.tooDeep input state).1 = none ∧ Exceeds input state (Parser.tooDeep input state).2 := by
  refine ⟨rfl, rfl, ?_⟩
  change (state.diagnostics.items.push _).toList.countP _ = _
  rw [Array.toList_push, List.countP_append, List.countP_singleton]
  rw [if_pos (by exact beq_self_eq_true (depthText input.options.maxDepth))]
  rfl

theorem tooDeep (deep : Parser (Region Operation)) :
    Limited (unlessHalted Parser.tooDeep) (unlessHalted deep) where
  halts input state halted := by
    rw [unlessHalted_run, if_pos halted]
    exact .refl _ _
  runs input limit state := by
    rw [unlessHalted_run, unlessHalted_run]
    split
    · exact .inl ⟨rfl, .refl _ _⟩
    · change (if input.stops state then (none, state.stopped) else Parser.tooDeep input state) =
          (if input.stops state then (none, state.stopped)
            else deep (input.limited limit) state) ∧ _ ∨ _
      split
      · exact .inl ⟨rfl, rests_stopped input state⟩
      · exact .inr (tooDeep_exceeds input state)

/-- Regions go alike up to the smaller one of two numbers of levels. -/
theorem regionWithin {levels more : Nat} (le : levels ≤ more) :
    Regions (Parser.regionWithin levels) (Parser.regionWithin more) := by
  induction levels generalizing more with
  | zero =>
    intro kind implicitTerminator
    cases more with
    | zero => exact tooDeep Parser.tooDeep
    | succ more => exact tooDeep _
  | succ levels ih =>
    intro kind implicitTerminator
    obtain ⟨more, rfl⟩ := Nat.exists_eq_add_one_of_ne_zero (Nat.ne_of_gt (Nat.lt_of_lt_of_le
      (Nat.succ_pos levels) le))
    apply checkingHalted
    apply bindSteady (punct .leftBrace)
    intro opening
    exact blocks (ih (Nat.le_of_succ_le_succ le)) kind implicitTerminator opening.span

/-! ## Items -/

variable {braced : Bool}

theorem declaration (regions : Regions shallow deep) :
    Limited (Parser.declaration shallow) (Parser.declaration deep) :=
  look fun _ => ite (operation regions) (expected rfl)

/-- A step through the items that comes upon a region that is too deep gives no item and ends the
loop. -/
theorem nextItem (regions : Regions shallow deep) (halted : Bool) :
    LimitedWith (fun cut _ => cut = some (none, false)) (Parser.nextItem shallow braced halted)
      (Parser.nextItem deep braced halted) := by
  apply look
  intro start
  apply ite pure
  apply recover (declaration regions)
  · rintro (_ | op)
    · apply (resynchronize start).bindSteady
      intro _
      exact look fun _ => pure
    · exact pure
  · intro input state halted
    have stays : Parser.resynchronize start input state = (some (), state) := by
      simp only [Parser.resynchronize, Parser.change, halted, if_true]
    change (afterItem start none input state).1 = _
    rw [afterItem, bind_run, stays]
    change some (none, !state.halted) = _
    rw [halted]
  · exact fun _ => rfl

theorem itemStep (regions : Regions shallow deep) :
    LimitedWith (fun cut _ => cut = some (none, false)) (Parser.itemStep shallow braced)
      (Parser.itemStep deep braced) where
  halts input state halted := by
    rw [itemStep_run, if_pos halted]
    exact .refl _ _
  runs input limit state := by
    rw [itemStep_run, itemStep_run]
    split
    · exact .inl ⟨rfl, .refl _ _⟩
    · change (if input.stops state then (some (none, false), state.stopped)
          else Parser.nextItem shallow braced false input state) =
            (if input.stops state then (some (none, false), state.stopped)
              else Parser.nextItem deep braced false (input.limited limit) state) ∧ _ ∨ _
      split
      · exact .inl ⟨rfl, rests_stopped input state⟩
      · exact (nextItem regions false).runs input limit state

/-- The items of the shallow run are the first ones of the deep run. -/
theorem items (regions : Regions shallow deep) (read : InterruptibleWith.Regions deep) :
    LimitedWith (fun cut full => ∃ ops more, cut = some ops ∧ full = some (ops ++ more))
      (Parser.items shallow braced) (Parser.items deep braced) := by
  rw [items_eq, items_eq]
  have steps : ∀ earlier, LimitedWith
      (fun cut _ => Ends (collectItem shallow braced) cut (some earlier))
      (collectItem shallow braced earlier) (collectItem deep braced earlier) := by
    intro earlier
    apply (itemStep regions).mapWith
    rintro cut full rfl
    exact .done earlier
  have loop : LimitedWith
      (fun cut full => ∃ earlier more, cut = some earlier ∧ full = some (more ++ earlier))
      (Parser.iterate (collectItem shallow braced) [])
      (Parser.iterate (collectItem deep braced) []) := by
    apply iterateWith steps
    intro earlier input state
    obtain ⟨more, given⟩ := @iterate_collectItem _ braced read earlier input state
    exact ⟨earlier, more, rfl, given⟩
  apply loop.mapWith
  rintro cut full ⟨earlier, more, rfl, rfl⟩
  refine ⟨earlier.reverse, more.reverse, rfl, ?_⟩
  rw [Option.map_some, List.reverse_append]

/-! ## Source units -/

theorem unitHeader (start : Cursor) :
    LimitedWith (fun _ _ => False) (Parser.unitHeader start) (Parser.unitHeader start) := by
  have attributes : LimitedWith (fun _ _ => False)
      (Parser.attempt (Parser.attributeOf .dictionary))
      (Parser.attempt (Parser.attributeOf .dictionary)) :=
    attempt (attributeOf .dictionary)
  have rest : ∀ name : Option Lexeme, LimitedWith (fun _ _ => False) (restOfHeader start name)
      (restOfHeader start name) := by
    intro name
    apply look
    intro now
    apply ite
    · apply bindSteady skip
      intro _
      exact attributes.bindSteady fun _ => look fun _ => pure
    · exact bindSteady pure fun _ => look fun _ => pure
  rw [unitHeader_eq]
  apply look
  intro here
  exact ite (bindSteady skip fun _ => rest _) (rest none)

theorem moduleEnd (opening : Token) :
    LimitedWith (fun _ _ => False) (Parser.moduleEnd opening) (Parser.moduleEnd opening) := by
  apply look
  intro here
  apply ite
  · apply bindSteady skip
    intro _
    exact look fun now => ite (reportExpected rfl) pure
  · exact report fun _ => rfl

theorem closeModule_steady {α : Type} (result : α) (brace : Token) :
    LimitedWith (fun _ _ => False) (closeModule result brace) (closeModule result brace) := by
  apply look
  intro halted
  exact ite ((moduleEnd brace).bindSteady fun _ => pure) pure

/-- A source unit that nests too deep gives its header and its first items. -/
theorem sourceUnit (regions : Regions shallow deep) (read : InterruptibleWith.Regions deep) :
    LimitedWith
      (fun cut full => ∃ header ops more, cut = some (header, ops) ∧
        full = some (header, ops ++ more))
      (Parser.sourceUnit shallow) (Parser.sourceUnit deep) := by
  apply look
  intro start
  apply ite
  · apply bindSteady skip
    intro _
    apply (unitHeader start).bindSteady
    intro header
    apply bindSteady (attempt (punct .leftBrace))
    rintro (_ | brace)
    · apply (items regions read).mapWith
      rintro cut full ⟨ops, more, rfl, rfl⟩
      exact ⟨some header, ops, more, rfl, rfl⟩
    · apply (items regions read).thenClose fun ops => closeModule_steady (some header, ops) brace
      · intro ops input state
        rw [closeModule_run]
      · rintro cut full ⟨ops, more, rfl, rfl⟩
        exact ⟨some header, ops, more, rfl, rfl⟩
  · apply (items regions read).mapWith
    rintro cut full ⟨ops, more, rfl, rfl⟩
    exact ⟨none, ops, more, rfl, rfl⟩

end LimitedWith

end CirText.Parser
