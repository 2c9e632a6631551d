import CirText.Proofs.Grammar.Contained
import CirText.Proofs.Parser.Reports

/-!
# Cancelled operations and regions

A cancellation that is noticed in a region makes everything around it fail: the region, the
operation that it belongs to, the region around that one, and so on outwards to an item of the
source unit. The results of the operations that fail on the way are still defined, and what is
reported about them is reported by the run without the cancellation too.
-/

namespace CirText.Parser

variable {α β : Type}

/-! ## Results of operations that fail -/

/-- Whether two trackers are in the same scope with the same definitions in it. -/
structure SameScope (cut full : Tracker) : Prop where
  scope : cut.scope = full.scope
  here : cut.table.scope cut.scope = full.table.scope full.scope

/-- A value that is defined in both runs. -/
theorem Lags.defineValue {cut full : State} (lags : Lags cut full)
    (same : SameScope cut.tracker full.tracker)
    (soundCut : cut.tracker.Sound) (soundFull : full.tracker.Sound) (input other : Input)
    (found : Token) :
    Lags (define .value found input cut).2 (define .value found other full).2 ∧
      SameScope (define .value found input cut).2.tracker
        (define .value found other full).2.tracker := by
  have clashes : cut.tracker.clash? .value found.name = full.tracker.clash? .value found.name := by
    simp only [Tracker.clash?, SymbolTable.valueIn, same.here]
  have within : full.tracker.Within false (define .value found other full).2.tracker :=
    .define soundFull Bool.noConfusion found.name found.span
  cases clash : full.tracker.clash? .value found.name with
  | some earlier =>
    rw [clash] at clashes
    have cutRun : define .value found input cut =
        (some ⟨.value, found.name, found.span, cut.tracker.scope⟩,
          { cut with
            diagnostics := cut.diagnostics.push <|
              .ofDuplicate ⟨.value, found.name, found.span, cut.tracker.scope⟩ earlier }) := by
      simp only [define, Tracker.define, clashes]
    have fullRun : define .value found other full =
        (some ⟨.value, found.name, found.span, full.tracker.scope⟩,
          { full with
            diagnostics := full.diagnostics.push <|
              .ofDuplicate ⟨.value, found.name, found.span, full.tracker.scope⟩ earlier }) := by
      simp only [define, Tracker.define, clash]
    rw [cutRun, fullRun]
    refine ⟨⟨lags.halted, lags.tracker, ?_⟩, same⟩
    intro diagnostic member
    simp only [Diagnostics.push, Array.toList_push, List.mem_append, List.mem_singleton] at member ⊢
    rcases member with before | rfl
    · rcases lags.diagnostics diagnostic before with cancelled | both | overtaken
      · exact .inl cancelled
      · exact .inr (.inl (.inl both))
      · exact .inr (.inr overtaken)
    · rw [same.scope]
      exact .inr (.inl (.inr rfl))
  | none =>
    rw [clash] at clashes
    let defined : Definition := ⟨.value, found.name, found.span, full.tracker.scope⟩
    have cutRun : define .value found input cut =
        (some defined, { cut with
          tracker := { cut.tracker with table := cut.tracker.table.insert defined } }) := by
      simp only [define, Tracker.define, clashes, Tracker.home, same.scope, defined]
    have fullRun : define .value found other full =
        (some defined, { full with
          tracker := { full.tracker with table := full.tracker.table.insert defined } }) := by
      simp only [define, Tracker.define, clash, Tracker.home, defined]
    have insideCut : defined.scope < cut.tracker.table.scopes.size := by
      change full.tracker.scope < _
      rw [← same.scope]
      exact soundCut.inside
    have insideFull : defined.scope < full.tracker.table.scopes.size := soundFull.inside
    rw [fullRun] at within
    rw [cutRun, fullRun]
    constructor
    · refine ⟨lags.halted, ?_, ?_⟩
      · have behind := lags.tracker.extend within
        exact ⟨behind.waiting, behind.symbolUses⟩
      · intro diagnostic member
        rcases lags.diagnostics diagnostic member with cancelled | both | ⟨verdict, eq, overtaken⟩
        · exact .inl cancelled
        · exact .inr (.inl both)
        · refine .inr (.inr ⟨verdict, eq, overtaken.kind, ?_, within.knows _ overtaken.knows⟩)
          rw [SymbolTable.labelIn_insert_of_ne insideCut (by rintro ⟨⟩)]
          exact overtaken.undefined
    · refine ⟨same.scope, ?_⟩
      change (cut.tracker.table.insert defined).scope cut.tracker.scope =
        (full.tracker.table.insert defined).scope full.tracker.scope
      rw [SymbolTable.scope_insert insideCut, SymbolTable.scope_insert insideFull, same.here,
        same.scope]

/-- The values that are defined in both runs. -/
theorem Lags.defineValues (names : List Token) {cut full : State} (lags : Lags cut full)
    (same : SameScope cut.tracker full.tracker) (soundCut : cut.tracker.Sound)
    (soundFull : full.tracker.Sound) (input other : Input) :
    Lags (names.mapM (define .value) input cut).2 (names.mapM (define .value) other full).2 := by
  suffices loop : ∀ done undone,
      Lags (List.mapM.loop (define .value) names done input cut).2
        (List.mapM.loop (define .value) names undone other full).2 from
    loop [] []
  induction names generalizing cut full with
  | nil => exact fun _ _ => lags
  | cons name names ih =>
    intro done undone
    obtain ⟨lagsNext, sameNext⟩ := lags.defineValue same soundCut soundFull input other name
    exact ih lagsNext sameNext ((Traced.define (by decide) name).sound input soundCut)
      ((Traced.define (by decide) name).sound other soundFull) _ _

/-! ## Going on after a failure -/

namespace InterruptibleWith

variable {contained : Bool} {gives : Option β → Option β → Prop}

/-- A stopped part after which parsing goes on, although nothing is done any more. -/
theorem recover {parser : Parser α} {next : Option α → Parser β} {given : Option β}
    (first : Interruptible contained parser)
    (second : ∀ result, InterruptibleWith gives contained (next result))
    (stays : ∀ input state, state.halted = true → next none input state = (given, state))
    (related : ∀ full, gives given full) :
    InterruptibleWith gives contained (Parser.attempt parser >>= next) where
  traced := first.traced.attempt.weaken.andThen fun _ result => (second result).traced
  within input state sound :=
    (first.within input state sound).trans
      ((second _).within input _ (first.traced.sound input sound))
  calm input state uncancelled :=
    ((second _).calm input _ uncancelled).trans (first.calm input state uncancelled)
  runs input state sound := by
    have middleSound := first.traced.sound input.uncancelled sound
    rw [attempt_bind_run, attempt_bind_run]
    rcases first.runs input state sound with same | ⟨failed, stopped⟩
    · rw [same]
      rcases (second (parser input.uncancelled state).1).runs input _ middleSound with
        alike | ⟨related, later⟩
      · exact .inl alike
      · exact .inr ⟨related,
          later.counted.trans (congrArg (· + 1) (first.calm input.uncancelled state rfl)),
          later.lags⟩
    · rw [failed, stays input _ stopped.lags.halted]
      exact .inr ⟨related _, stopped.counted,
        stopped.lags.extend ((second _).within input.uncancelled _ middleSound)
          ((second _).traced.reports input.uncancelled _)⟩

theorem resynchronize {gives : Option Unit → Option Unit → Prop} (start : Cursor) :
    InterruptibleWith gives contained (Parser.resynchronize start) := by
  apply quiet (.resynchronize start)
  · intro input state
    unfold Parser.resynchronize Parser.change
    simp only
    split <;> rfl
  · intro input state
    unfold Parser.resynchronize Parser.change
    simp only
    split <;> rfl
  · exact fun _ _ => rfl

/-- Nothing is skipped any more once parsing has come to an early end. -/
theorem resynchronize_halted {result : β} (start : Cursor) (input : Input) {state : State}
    (halted : state.halted = true) :
    (do Parser.resynchronize start; Pure.pure result) input state = (some result, state) := by
  simp only [Parser.resynchronize, Parser.change, bind_run, halted, if_true]
  rfl

/-! ## Operations -/

variable {region : RegionKind → Bool → Parser (Region Operation)}

/-- A parser of regions that is interruptible. -/
def Regions (region : RegionKind → Bool → Parser (Region Operation)) : Prop :=
  ∀ kind implicitTerminator, Interruptible false (region kind implicitTerminator)

theorem resultNames : Interruptible contained Parser.resultNames := by
  apply look
  intro here
  apply ite _ pure
  apply (separated (token _ _)).bind
  rintro ⟨head, tail⟩
  exact (punct .equal).bind fun _ => pure

theorem takeId : Interruptible contained Parser.takeId :=
  quiet .takeId (fun _ _ => rfl) (fun _ _ => rfl) fun _ _ => rfl

theorem chooseForm (opcode : Opcode) : Interruptible contained (Parser.chooseForm opcode) := by
  apply look
  intro here
  cases Form.choose opcode here with
  | ok form => exact pure
  | error what => exact look fun found => (report rfl rfl).bind fun _ => fail

theorem afterKeyword_interruptible (regions : Regions region) (start : Cursor) (opcode : Opcode) :
    Interruptible true (afterKeyword region start opcode) := by
  apply takeId.bind
  intro id
  apply naming
  apply (chooseForm opcode).bind
  intro form
  have body : Interruptible true _ := Grammar.parse_interruptible start regions
    (Grammar.body opcode form) fun _ => Grammar.body_contained opcode form
  exact body.bind fun _ => pure

/-- An operation from its keyword on leaves the scope in which it stands as it is. -/
theorem fromKeyword (regions : Regions region) :
    Interruptible true (Parser.fromKeyword region) := by
  apply look
  intro start
  apply ite _ (expected _)
  cases Opcode.ofKeyword? start.peek.text with
  | none => exact (report rfl rfl).bind fun _ => fail
  | some opcode => exact skip.bind fun _ => afterKeyword_interruptible regions start opcode

theorem mapM_define (names : List Token) :
    Interruptible false (names.mapM (Parser.define .value)) := by
  suffices loop : ∀ done,
      Interruptible false (List.mapM.loop (Parser.define .value) names done) from
    loop []
  induction names with
  | nil => exact fun done => pure
  | cons name names ih =>
    exact fun done => (define (by decide) Bool.noConfusion name).bind fun _ => ih _

/-- The names before an operation are defined in both runs, also if the operation fails. -/
theorem thenDefine {parser : Parser α} {names : List Token}
    {next : Option α → List Definition → Parser β} (first : Interruptible true parser)
    (second : ∀ read results, Interruptible false (next read results))
    (fails : ∀ results input state, next none results input state = (none, state)) :
    Interruptible false (do
      let read ← Parser.attempt parser
      let results ← names.mapM (Parser.define .value)
      next read results) := by
  have rest : ∀ read, Interruptible false (names.mapM (Parser.define .value) >>= next read) :=
    fun read => (mapM_define names).bind fun results => second read results
  constructor
  case traced => exact first.traced.attempt.weaken.andThen fun _ read => (rest read).traced
  case within =>
    intro input state sound
    exact (first.within input state sound).weaken.trans
      ((rest _).within input _ (first.traced.sound input sound))
  case calm =>
    intro input state uncancelled
    exact ((rest _).calm input _ uncancelled).trans (first.calm input state uncancelled)
  case runs =>
    intro input state sound
    have middleSound := first.traced.sound input.uncancelled sound
    rw [attempt_bind_run, attempt_bind_run]
    rcases first.runs input state sound with same | ⟨failed, stopped⟩
    · rw [same]
      rcases (rest (parser input.uncancelled state).1).runs input _ middleSound with
        alike | ⟨failed, later⟩
      · exact .inl alike
      · exact .inr ⟨failed,
          later.counted.trans (congrArg (· + 1) (first.calm input.uncancelled state rfl)),
          later.lags⟩
    · -- Neither run has changed the current scope, so the names clash in both or in none.
      have cutSound := first.traced.sound input sound
      have cutWithin := first.within input state sound
      have fullWithin := first.within input.uncancelled state sound
      have same : SameScope (parser input state).2.tracker
          (parser input.uncancelled state).2.tracker := by
        constructor
        · rw [cutWithin.scope, fullWithin.scope]
        · rw [cutWithin.scope, fullWithin.scope, cutWithin.here rfl, fullWithin.here rfl]
      have defined := stopped.lags.defineValues names same cutSound middleSound input
        input.uncancelled
      have counted :
          (names.mapM (Parser.define .value) input (parser input state).2).2.cancellations =
          state.cancellations + 1 := by
        obtain ⟨_, _, _, define⟩ := mapM_define_run names (parser input state).2.tracker
        rw [define input _ rfl, ← define input.uncancelled _ rfl]
        exact ((mapM_define names).calm input.uncancelled _ rfl).trans stopped.counted
      have cutRun : (names.mapM (Parser.define .value) >>= next (parser input state).1) input
          (parser input state).2 =
            (none, (names.mapM (Parser.define .value) input (parser input state).2).2) := by
        rw [bind_run, failed]
        split
        · rename_i results middle run
          rw [fails, run]
        · rename_i middle run
          rw [run]
      have lastSound := (mapM_define names).traced.sound input.uncancelled middleSound
      rw [cutRun]
      refine .inr ⟨rfl, counted, ?_⟩
      rw [bind_run]
      cases run : names.mapM (Parser.define .value) input.uncancelled
          (parser input.uncancelled state).2 with
      | mk outcome last =>
        rw [run] at defined lastSound
        cases outcome with
        | none => exact defined
        | some results =>
          exact defined.extend ((second _ results).within input.uncancelled last lastSound)
            ((second _ results).traced.reports input.uncancelled last)

theorem operation (regions : Regions region) : Interruptible false (Parser.operation region) := by
  apply look
  intro start
  apply resultNames.bind
  intro names
  apply thenDefine (fromKeyword regions)
  · rintro (_ | ⟨id, form, body⟩) results
    · exact fail
    · exact look fun now => pure
  · exact fun _ _ _ => rfl

/-! ## Regions -/

theorem blockHeader (regions : Regions region) :
    Interruptible false (Parser.blockHeader region) := by
  apply look
  intro start
  apply (Grammar.parse_interruptible start regions Grammar.blockHeader Bool.noConfusion).bind
  rintro ⟨label, args⟩
  exact look fun now => pure

theorem reportUnterminated (kind : RegionKind) (implicitTerminator : Bool)
    (blocks : List (Block Operation)) (closing : Span) :
    Interruptible contained
      (Parser.reportUnterminated kind implicitTerminator blocks closing) := by
  apply quiet (.reportUnterminated kind implicitTerminator blocks closing)
  · intro input state
    unfold Parser.reportUnterminated
    split <;> rfl
  · intro input state
    have none_ : ((blocks.filter (·.terminator.isNone)).map
        (unterminatedBlock kind closing)).countP Diagnostic.isCancelled = 0 := by
      apply List.countP_eq_zero.2
      intro diagnostic member
      obtain ⟨block, _, rfl⟩ := List.mem_map.1 member
      exact Bool.false_ne_true
    unfold Parser.reportUnterminated
    split
    · rfl
    · simp only [State.cancellations, Parser.change, Diagnostics.append, Array.toList_appendList,
        List.countP_append, none_, Nat.add_zero]
  · intro input state
    unfold Parser.reportUnterminated
    split <;> rfl

theorem reportUnclosed (kind : RegionKind) (opening : Span) :
    Interruptible contained (Parser.reportUnclosed kind opening) :=
  look fun _ => (report rfl rfl).bind fun _ => halt

theorem place (kind : RegionKind) (progress : Progress) (op : Operation) :
    Interruptible contained (Parser.place kind progress op) := by
  apply ite
  · apply (report rfl rfl).bind
    intro _
    exact ite ((report rfl rfl).bind fun _ => pure) pure
  · exact ite ((report rfl rfl).bind fun _ => pure) pure

/-- Nothing is read of a region any more once parsing has come to an early end. -/
theorem blockStep_halted (kind : RegionKind) (opening : Span) (progress : Progress) (input : Input)
    (state : State) (halted : state.halted = true) :
    Parser.blockStep region kind opening progress input state = (none, state) := by
  unfold Parser.blockStep
  simp only [bind_run, Parser.look, Parser.cursor, halted, if_true]
  rfl

/-- A step through the blocks of a region that is stopped ends them. -/
theorem blockStep (regions : Regions region) (kind : RegionKind) (opening : Span)
    (progress : Progress) :
    InterruptibleWith (fun cut _ => Ends (Parser.blockStep region kind opening) cut none) false
      (Parser.blockStep region kind opening progress) := by
  have stalls : Ends (Parser.blockStep region kind opening) (some (.again progress)) none :=
    .stalls progress fun progress input state halted =>
      blockStep_halted kind opening progress input state halted
  apply look
  intro start
  apply look
  intro halted
  apply ite fail
  apply ite
  · exact skip.bindWith (fun _ => pure) fun _ => .fails
  apply ite
  · exact (reportUnclosed kind opening).bindWith (fun _ => fail) fun _ => .fails
  apply ite
  · apply recover (blockHeader regions)
    · rintro (_ | block)
      · exact (resynchronize start).bindWith (fun _ => pure) fun _ => .fails
      · exact pure
    · exact fun input state halted => resynchronize_halted start input halted
    · exact fun _ => stalls
  · apply recover (operation regions)
    · rintro (_ | op)
      · exact (resynchronize start).bindWith (fun _ => pure) fun _ => .fails
      · exact (place kind progress op).bindWith (fun _ => pure) fun _ => .fails
    · exact fun input state halted => resynchronize_halted start input halted
    · exact fun _ => stalls

theorem blocks (regions : Regions region) (kind : RegionKind) (implicitTerminator : Bool)
    (opening : Span) :
    Interruptible false (Parser.blocks region kind implicitTerminator opening) := by
  apply look
  intro scope
  apply look
  intro first
  apply (iterate fun progress => blockStep regions kind opening progress).bind
  rintro ⟨blocks, closing⟩
  exact (reportUnterminated kind implicitTerminator blocks closing).bind fun _ => pure

theorem tooDeep : Interruptible contained Parser.tooDeep :=
  quiet .tooDeep (fun _ _ => rfl) (fun _ _ => cancellations_push rfl rfl) fun _ _ => rfl

/-- Regions are interruptible to any depth, since each of them asks for a cancellation first. -/
theorem regionWithin (levels : Nat) : Regions (Parser.regionWithin levels) := by
  induction levels with
  | zero => exact fun kind implicitTerminator => checkingHalted tooDeep
  | succ levels ih =>
    intro kind implicitTerminator
    apply checkingHalted
    apply (punct .leftBrace).bind
    intro opening
    exact blocks ih kind implicitTerminator opening.span

end InterruptibleWith

end CirText.Parser
