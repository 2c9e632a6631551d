import CirText.Proofs.Parser.Cancelled

/-!
# Cancelled source units

A source unit of which the reading is cancelled gives the items that were complete by then. The run
without the cancellation gives the same items first: it goes on from there, and since each further
item makes headway over the tokens, it comes to an end too.
-/

namespace CirText.Parser

variable {α β : Type}

/-! ## Headway -/

/-- What a parser leaves to be read is no more than there was. -/
theorem Traced.length_le {parser : Parser α} {post : List Reference → α → Prop}
    (traced : Traced parser post) (input : Input) (state : State) :
    (parser input state).2.cursor.rest.length ≤ state.cursor.rest.length := by
  obtain ⟨tokens, uses, found, trail, _⟩ := traced input state
  rw [trail.rest, List.length_append]
  exact Nat.le_add_left _ _

/-- The place of a cursor tells how much it leaves to be read. -/
theorem Traced.position {parser : Parser α} {post : List Reference → α → Prop}
    (traced : Traced parser post) (input : Input) (state : State) :
    (parser input state).2.cursor.position + (parser input state).2.cursor.rest.length =
      state.cursor.position + state.cursor.rest.length := by
  obtain ⟨tokens, uses, found, trail, _⟩ := traced input state
  obtain ⟨count, moved⟩ := trail.moved
  rw [moved, Cursor.position_add_length_advance]

theorem length_next_lt {cursor : Cursor} (more : cursor.rest ≠ []) :
    cursor.next.rest.length < cursor.rest.length := by
  rw [Cursor.rest_next, List.length_drop]
  have := List.length_pos_iff.2 more
  omega

/-- Whether a parser reads something whenever it gives something. -/
def Advances (parser : Parser α) : Prop :=
  ∀ input state a, (parser input state).1 = some a →
    (parser input state).2.cursor.rest.length < state.cursor.rest.length

namespace Advances

theorem bind_right {parser : Parser α} {next : α → Parser β}
    (first : Traced parser fun _ _ => True) (second : ∀ a, Advances (next a)) :
    Advances (parser >>= next) := by
  intro input state b given
  have noLonger := first.length_le input state
  rw [bind_run] at given ⊢
  cases run : parser input state with
  | mk outcome middle =>
    rw [run] at given noLonger
    cases outcome with
    | none => cases given
    | some a => exact Nat.lt_of_lt_of_le (second a input middle b given) noLonger

theorem fails {parser : Parser α} (h : ∀ input state, (parser input state).1 = none) :
    Advances parser := by
  intro input state a given
  rw [h] at given
  cases given

variable {region : RegionKind → Bool → Parser (Region Operation)}

/-- An operation from its keyword on reads at least the keyword. -/
theorem fromKeyword (regions : InterruptibleWith.Regions region) :
    Advances (Parser.fromKeyword region) := by
  intro input state found given
  by_cases isKeyword : state.cursor.peek.kind = .keyword
  · have more : state.cursor.rest ≠ [] := by
      intro none
      rw [Cursor.peek, none] at isKeyword
      cases isKeyword
    cases known : Opcode.ofKeyword? state.cursor.peek.text with
    | none =>
      simp only [Parser.fromKeyword, bind_run, Parser.look, Parser.cursor, isKeyword,
        known] at given
      cases given
    | some opcode =>
      have run : Parser.fromKeyword region input state =
          afterKeyword region state.cursor opcode input
            { state with cursor := state.cursor.next } := by
        simp only [Parser.fromKeyword, bind_run, Parser.look, Parser.cursor, isKeyword, known]
        rfl
      rw [run]
      exact Nat.lt_of_le_of_lt
        ((InterruptibleWith.afterKeyword_interruptible regions state.cursor opcode).traced.length_le
          input { state with cursor := state.cursor.next }) (length_next_lt more)
  · have other : (state.cursor.peek.kind == .keyword) = false := by simpa using isKeyword
    simp only [Parser.fromKeyword, bind_run, Parser.look, Parser.cursor, other] at given
    cases given

theorem operation (regions : InterruptibleWith.Regions region) :
    Advances (Parser.operation region) := by
  apply bind_right (.look fun _ => .pure trivial)
  intro start
  apply bind_right Traced.resultNames
  intro names input state op given
  have keywordRead := fromKeyword regions input state
  rw [attempt_bind_run] at given ⊢
  cases run : Parser.fromKeyword region input state with
  | mk outcome middle =>
    rw [run] at given keywordRead
    cases outcome with
    | none =>
      rw [bind_run] at given
      split at given <;> cases given
    | some found =>
      have rest : Traced (names.mapM (define .value) >>= fun results => do
          let now ← Parser.cursor
          Pure.pure <| Operation.of
            { id := found.1, results, payload := found.2.2.payload, form := found.2.1,
              extra := found.2.2.extra, span := start.spanBetween now }) fun _ _ => True :=
        (Traced.mapM_define names).andThen fun _ _ => .look fun _ => .pure trivial
      exact Nat.lt_of_le_of_lt (rest.length_le input middle) (keywordRead found rfl)

theorem declaration (regions : InterruptibleWith.Regions region) :
    Advances (Parser.declaration region) := by
  apply bind_right (.look fun _ => .pure trivial)
  intro first
  split
  · exact operation regions
  · exact fails fun _ _ => rfl

end Advances

/-! ## Items -/

section Items

variable {region : RegionKind → Bool → Parser (Region Operation)} {braced : Bool}

theorem itemStep_run (input : Input) (state : State) :
    itemStep region braced input state =
      if state.halted then (some (none, false), state)
      else if input.stops state then (some (none, false), state.stopped)
      else nextItem region braced false input state := by
  rw [itemStep, bind_run, checkHalted_run]
  by_cases halted : state.halted = true
  · simp only [halted, if_true]
    rfl
  · by_cases stops : input.stops state = true
    · simp only [halted, stops, if_true]
      rfl
    · simp only [halted, stops]
      rfl

namespace InterruptibleWith

theorem declaration (regions : Regions region) :
    Interruptible false (Parser.declaration region) :=
  look fun _ => ite (operation regions) (expected _)

/-- Giving no item and not going on. -/
theorem nextItem (regions : Regions region) (halted : Bool) :
    InterruptibleWith (fun cut _ => cut = some (none, false)) false
      (Parser.nextItem region braced halted) := by
  apply look
  intro start
  apply ite pure
  apply recover (declaration regions)
  · rintro (_ | op)
    · apply (resynchronize start).bindSteady
      intro _
      exact look fun _ => pure
    · exact pure
  · intro input state halted
    have stays : Parser.resynchronize start input state = (some (), state) := by
      simp only [Parser.resynchronize, Parser.change, halted, if_true]
    have given : ((some (none, !state.halted), state) : Option (Option Operation × Bool) × State) =
        (some (none, false), state) := by
      rw [halted]
      rfl
    change (Parser.resynchronize start >>= _) input state = _
    rw [bind_run, stays]
    exact given
  · exact fun _ => rfl

/-- A step through the items that is stopped gives no item and ends the loop. -/
theorem itemStep (regions : Regions region) :
    InterruptibleWith (fun cut _ => cut = some (none, false)) false
      (Parser.itemStep region braced) where
  traced := Traced.checkHalted.andThen fun _ halted => (nextItem regions halted).traced
  within input state sound := by
    rw [itemStep_run]
    split
    · exact .refl _
    · split
      · exact .refl _
      · exact (nextItem regions false).within input state sound
  calm input state uncancelled := by
    have never : input.stops state = false := by
      rw [Input.stops, uncancelled]
      rfl
    rw [itemStep_run, never]
    split
    · rfl
    · exact (nextItem regions false).calm input state uncancelled
  runs input state sound := by
    rw [itemStep_run, itemStep_run, stops_uncancelled]
    split
    · exact .inl rfl
    · split
      · exact .inr ⟨rfl, stopped_stopped
          ((nextItem regions false).within input.uncancelled state sound)
          ((nextItem regions false).traced.reports input.uncancelled state)⟩
      · exact (nextItem regions false).runs input state sound

end InterruptibleWith

/-- Skipping to where parsing can go on skips at least one token after what has failed. -/
theorem length_resynchronize_lt {start : Cursor} {input : Input} {state : State}
    (live : state.halted = false) (more : start.rest ≠ [])
    (forward : state.cursor.rest.length ≤ start.rest.length)
    (place : state.cursor.position + state.cursor.rest.length =
      start.position + start.rest.length) :
    (resynchronize start input state).2.cursor.rest.length < start.rest.length := by
  have boundary : ∀ cursor : Cursor, cursor.toBoundary.rest.length ≤ cursor.rest.length := by
    intro cursor
    rw [Cursor.toBoundary, Cursor.advanceTo, Cursor.rest_advance, List.length_drop]
    exact Nat.sub_le _ _
  simp only [resynchronize, change, live, Bool.false_eq_true, if_false]
  by_cases same : state.cursor.position = start.position
  · rw [if_pos same]
    have unmoved : state.cursor.rest.length = start.rest.length := by omega
    have nonempty : state.cursor.rest ≠ [] := by
      rw [← List.length_pos_iff] at more ⊢
      omega
    exact Nat.lt_of_le_of_lt (boundary _) (unmoved ▸ length_next_lt nonempty)
  · rw [if_neg same]
    have shorter : state.cursor.rest.length < start.rest.length := by omega
    exact Nat.lt_of_le_of_lt (boundary _) shorter

theorem nextItem_run (input : Input) (state : State) :
    nextItem region braced false input state =
      if state.cursor.atEnd || braced && state.cursor.atPunct .rightBrace then
        (some (none, false), state)
      else
        afterItem state.cursor (declaration region input state).1 input
          (declaration region input state).2 := by
  change (if state.cursor.atEnd || braced && state.cursor.atPunct .rightBrace then
      pure (none, false)
    else attempt (declaration region) >>= afterItem state.cursor : Parser _) input state = _
  split
  · rfl
  · rfl

theorem nextItem_headway (regions : InterruptibleWith.Regions region) (input : Input)
    (state : State) :
    ∃ item goesOn, (nextItem region braced false input state).1 = some (item, goesOn) ∧
      (goesOn = true → (nextItem region braced false input state).2.cursor.rest.length <
        state.cursor.rest.length) := by
  have traced := (InterruptibleWith.declaration regions).traced
  have consumed := Advances.declaration regions input state
  have forward := traced.length_le input state
  have place := traced.position input state
  rw [nextItem_run]
  split
  · exact ⟨none, false, rfl, by rintro ⟨⟩⟩
  · rename_i inside
    cases outcome : declaration region input state with
    | mk result middle =>
      rw [outcome] at consumed forward place
      cases result with
      | some op => exact ⟨some op, true, rfl, fun _ => consumed op rfl⟩
      | none =>
        refine ⟨none, !(resynchronize state.cursor input middle).2.halted, rfl, ?_⟩
        intro goesOn
        have live : middle.halted = false := by
          cases halted : middle.halted with
          | false => rfl
          | true =>
            simp only [resynchronize, change, halted, if_true] at goesOn
            cases goesOn
        have more : state.cursor.rest ≠ [] := by
          intro none
          simp [Cursor.atEnd, none] at inside
        exact @length_resynchronize_lt state.cursor input middle live more forward place

/-- A step through the items does not fail, and it goes on only if it has read something. -/
theorem itemStep_headway (regions : InterruptibleWith.Regions region) (input : Input)
    (state : State) :
    ∃ item goesOn, (itemStep region braced input state).1 = some (item, goesOn) ∧
      (goesOn = true →
        (itemStep region braced input state).2.cursor.rest.length < state.cursor.rest.length) := by
  rw [itemStep_run]
  split
  · exact ⟨none, false, rfl, by rintro ⟨⟩⟩
  · split
    · exact ⟨none, false, rfl, by rintro ⟨⟩⟩
    · exact nextItem_headway regions input state

/-- The loop through the items does not fail, and it only adds items. -/
theorem iterate_collectItem (regions : InterruptibleWith.Regions region)
    (earlier : List Operation) (input : Input) (state : State) :
    ∃ more, (iterate (collectItem region braced) earlier input state).1 =
      some (more ++ earlier) := by
  have step : ∀ earlier state, ∃ (item : Option Operation) (goesOn : Bool) (final : State),
      collectItem region braced earlier input state =
        (some (if goesOn then .again (item.toList ++ earlier) else .done (item.toList ++ earlier)),
          final) ∧ (goesOn = true → final.cursor.rest.length < state.cursor.rest.length) := by
    intro earlier state
    obtain ⟨item, goesOn, given, headway⟩ := @itemStep_headway _ braced regions input state
    refine ⟨item, goesOn, _, ?_, headway⟩
    rw [collectItem, map_run, given]
    rfl
  induction earlier, state using iterate_induction (collectItem region braced) input with
  | failed earlier state final run ran =>
    obtain ⟨_, _, _, given, _⟩ := step earlier state
    cases run.symm.trans given
  | done earlier state result final run ran =>
    obtain ⟨item, goesOn, _, given, _⟩ := step earlier state
    rw [ran]
    cases goesOn <;> cases run.symm.trans given
    exact ⟨item.toList, rfl⟩
  | stuck earlier state further final run stuck ran =>
    obtain ⟨item, goesOn, _, given, headway⟩ := step earlier state
    cases goesOn <;> cases run.symm.trans given
    exact absurd (headway rfl) stuck
  | again earlier state further next run fewer ran ih =>
    obtain ⟨item, goesOn, _, given, _⟩ := step earlier state
    cases goesOn <;> cases run.symm.trans given
    obtain ⟨more, result⟩ := ih
    refine ⟨more ++ item.toList, ?_⟩
    rw [ran, result, List.append_assoc]

namespace InterruptibleWith

/-- The items of a cancelled run are the first ones of the other run. -/
theorem items (regions : Regions region) :
    InterruptibleWith
      (fun cut full => ∃ ops more, cut = some ops ∧ full = some (ops ++ more)) false
      (Parser.items region braced) := by
  rw [items_eq]
  have steps : ∀ earlier, InterruptibleWith
      (fun cut _ => Ends (collectItem region braced) cut (some earlier)) false
      (collectItem region braced earlier) := by
    intro earlier
    apply (itemStep regions).mapWith
    rintro cut full rfl
    exact .done earlier
  have loop : InterruptibleWith
      (fun cut full => ∃ earlier more, cut = some earlier ∧ full = some (more ++ earlier)) false
      (Parser.iterate (collectItem region braced) []) := by
    apply iterateWith steps
    intro earlier input state
    obtain ⟨more, given⟩ := @iterate_collectItem _ braced regions earlier input state
    exact ⟨earlier, more, rfl, given⟩
  apply loop.mapWith
  rintro cut full ⟨earlier, more, rfl, rfl⟩
  refine ⟨earlier.reverse, more.reverse, rfl, ?_⟩
  rw [Option.map_some, List.reverse_append]

/-! ## Source units -/

theorem unitHeader {contained : Bool} (start : Cursor) :
    InterruptibleWith (fun _ _ => False) contained (Parser.unitHeader start) := by
  have attributes : InterruptibleWith (fun _ _ => False) contained
      (Parser.attempt (Parser.attributeOf .dictionary)) :=
    attempt (attributeOf .dictionary) fun _ _ => rfl
  have rest : ∀ name : Option Lexeme, InterruptibleWith (fun _ _ => False) contained
      (restOfHeader start name) := by
    intro name
    apply look
    intro now
    apply ite
    · apply bindSteady skip
      intro _
      exact attributes.bindSteady fun _ => look fun _ => pure
    · exact bindSteady pure fun _ => look fun _ => pure
  rw [unitHeader_eq]
  apply look
  intro here
  exact ite (bindSteady skip fun _ => rest _) (rest none)

theorem moduleEnd {contained : Bool} (opening : Token) :
    InterruptibleWith (fun _ _ => False) contained (Parser.moduleEnd opening) := by
  apply look
  intro here
  apply ite
  · apply bindSteady skip
    intro _
    exact look fun now => ite (reportExpected _) pure
  · exact report rfl rfl

theorem closeModule_steady {contained : Bool} (result : α) (brace : Token) :
    InterruptibleWith (fun _ _ => False) contained (closeModule result brace) := by
  apply look
  intro halted
  exact ite ((moduleEnd brace).bindSteady fun _ => pure) pure

/-- A source unit of which the reading is cancelled gives its header and its first items. -/
theorem sourceUnit (regions : Regions region) :
    InterruptibleWith
      (fun cut full => ∃ header ops more, cut = some (header, ops) ∧ full =
        some (header, ops ++ more))
      false (Parser.sourceUnit region) := by
  have brace : InterruptibleWith (fun _ _ => False) false
      (Parser.attempt (Parser.punct .leftBrace)) :=
    attempt (punct .leftBrace) fun input state => by
      rw [Parser.punct, satisfying_run, satisfying_run]
      rfl
  apply look
  intro start
  apply ite
  · apply bindSteady skip
    intro _
    apply (unitHeader start).bindSteady
    intro header
    apply brace.bindSteady
    rintro (_ | brace)
    · apply (items regions).mapWith
      rintro cut full ⟨ops, more, rfl, rfl⟩
      exact ⟨some header, ops, more, rfl, rfl⟩
    · apply (items regions).thenClose fun ops => closeModule_steady (some header, ops) brace
      · intro ops input state
        rw [closeModule_run]
      · intro ops input state halted
        rw [closeModule_run, halted]
        rfl
      · rintro cut full ⟨ops, more, rfl, rfl⟩
        exact ⟨some header, ops, more, rfl, rfl⟩
  · apply (items regions).mapWith
    rintro cut full ⟨ops, more, rfl, rfl⟩
    exact ⟨none, ops, more, rfl, rfl⟩

end InterruptibleWith

end Items

end CirText.Parser
