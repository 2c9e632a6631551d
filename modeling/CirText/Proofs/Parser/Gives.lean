import CirText.Proofs.Parser.Uses

/-!
# What parsers give

`Gives` says that whatever a parser gives satisfies a condition, wherever parsing has got to and
whatever has been reported on the way. So what holds of the form and the body of every operation
that is read holds of all operations of a source unit, also where other parts of it are malformed.
-/

namespace CirText

/-! ## All operations inside -/

/-- Whether something holds of the form and the body of an operation and of all operations inside
it. -/
def Operation.Everywhere (holds : Form → Body (Region Operation) → Prop) (op : Operation) : Prop :=
  ∀ inner ∈ op.preorder, holds inner.form ⟨inner.payload, inner.extra⟩

/-- Whether something holds everywhere in a region. -/
def Region.Everywhere (holds : Form → Body (Region Operation) → Prop) (region : Region Operation) :
    Prop :=
  ∀ op ∈ region.ops, op.Everywhere holds

theorem Operation.everywhere_iff {holds : Form → Body (Region Operation) → Prop} {op : Operation} :
    op.Everywhere holds ↔
      holds op.form ⟨op.payload, op.extra⟩ ∧ ∀ region ∈ op.payload.regions,
        region.Everywhere holds := by
  rw [Everywhere, preorder_eq, List.forall_mem_cons]
  refine and_congr_right fun _ => ?_
  constructor
  · intro below region inOp child inRegion inner inside
    exact below inner <|
      List.mem_flatMap.2 ⟨child, List.mem_flatMap.2 ⟨region, inOp, inRegion⟩, inside⟩
  · intro regions inner inside
    obtain ⟨child, isChild, inside⟩ := List.mem_flatMap.1 inside
    obtain ⟨region, inOp, inRegion⟩ := List.mem_flatMap.1 isChild
    exact regions region inOp child inRegion inner inside

namespace Parser

variable {α β σ : Type}

/-- Whether whatever the parser gives satisfies a condition. -/
def Gives (parser : Parser α) (post : α → Prop) : Prop :=
  ∀ input state a, (parser input state).1 = some a → post a

namespace Gives

variable {parser : Parser α} {post : α → Prop}

theorem ofTraced (h : Traced parser fun _ a => post a) : Gives parser post := by
  intro input state a given
  obtain ⟨_, _, _, _, result⟩ := h input state
  exact result a given

theorem traced (h : Gives parser post) (trail : Traced parser fun _ _ => True) :
    Traced parser fun _ a => post a := by
  intro input state
  obtain ⟨tokens, uses, found, trail, _⟩ := trail input state
  exact ⟨tokens, uses, found, trail, h input state⟩

theorem pure {a : α} (h : post a) : Gives (Pure.pure a) post := by
  rintro input state _ ⟨⟩
  exact h

theorem fail : Gives (Parser.fail : Parser α) post := by
  rintro input state _ ⟨⟩

theorem bind {next : α → Parser β} {then_ : β → Prop} (first : Gives parser post)
    (second : ∀ a, post a → Gives (next a) then_) : Gives (parser >>= next) then_ := by
  intro input state b given
  rw [bind_run] at given
  cases run : parser input state with
  | mk outcome middle =>
    rw [run] at given
    cases outcome with
    | none => cases given
    | some a => exact second a (first input state a (by rw [run])) input middle b given

/-- A part whose result does not matter, before another one. -/
theorem andThen {next : α → Parser β} {then_ : β → Prop} (second : ∀ a, Gives (next a) then_) :
    Gives (parser >>= next) then_ := by
  have first : Gives parser fun _ => True := fun _ _ _ _ => trivial
  exact first.bind fun a _ => second a

theorem map {f : α → β} {then_ : β → Prop} (h : Gives parser post)
    (implies : ∀ a, post a → then_ (f a)) : Gives (f <$> parser) then_ :=
  h.bind fun a holds => pure (implies a holds)

theorem ite {condition : Prop} [Decidable condition] {other : Parser α} (yes : Gives parser post)
    (no : Gives other post) : Gives (if condition then parser else other) post := by
  split
  · exact yes
  · exact no

theorem attempt (h : Gives parser post) :
    Gives (Parser.attempt parser) fun result => ∀ a ∈ result, post a := by
  rintro input state _ ⟨⟩ a given
  exact h input state a given

theorem naming {construct : String} (h : Gives parser post) :
    Gives (Parser.naming construct parser) post :=
  fun input state => h input { state with construct }

/-- What a step of a loop gives: something to go on with, or the result of the loop. -/
def Outcome (invariant : σ → Prop) (then_ : β → Prop) : Step σ β → Prop
  | .again accumulated => invariant accumulated
  | .done result => then_ result

/-- A loop keeps an invariant if each of its steps does. -/
theorem iterate {step : σ → Parser (Step σ β)} {invariant : σ → Prop} {then_ : β → Prop}
    (steps : ∀ accumulated, invariant accumulated →
      Gives (step accumulated) (Outcome invariant then_))
    {accumulated : σ} (start : invariant accumulated) :
    Gives (Parser.iterate step accumulated) then_ := by
  intro input state
  induction accumulated, state using iterate_induction step input with
  | failed accumulated state final run ran | stuck accumulated state further final run fewer ran =>
    rw [ran]
    rintro _ ⟨⟩
  | done accumulated state result final run ran =>
    have stepped := steps accumulated start input state
    rw [run] at stepped
    rw [ran]
    rintro _ ⟨⟩
    exact stepped _ rfl
  | again accumulated state further next run fewer ran ih =>
    have stepped := steps accumulated start input state
    rw [run] at stepped
    rw [ran]
    exact ih (stepped _ rfl)

theorem collect {step : Parser (Option α × Bool)}
    (h : Gives step fun found => ∀ a ∈ found.1, post a) :
    Gives (Parser.collect step) fun items => ∀ a ∈ items, post a := by
  let allHold : List α → Prop := fun items => ∀ a ∈ items, post a
  have start : allHold [] := by simp [allHold]
  have stepped : ∀ items, allHold items → Gives (step >>= fun found =>
      Pure.pure (if found.2 then Step.again (found.1.toList ++ items) else Step.done
        (found.1.toList ++ items)))
      (Outcome allHold allHold) := by
    intro items all
    refine h.bind ?_
    rintro ⟨item, goesOn⟩ found
    have added : ∀ a ∈ item.toList ++ items, post a := by
      intro a member
      rcases List.mem_append.1 member with new | old
      · exact found a (Option.mem_toList.1 new)
      · exact all a old
    cases goesOn
    · exact pure added
    · exact pure added
  refine (iterate stepped start).map fun items all a member => ?_
  exact all a (List.mem_reverse.1 member)

/-! ## Operations -/

variable {holds : Form → Body (Region Operation) → Prop}
  {region : RegionKind → Bool → Parser (Region Operation)}

/-- Whether something holds everywhere in the regions that a parser gives. -/
def OfRegions (holds : Form → Body (Region Operation) → Prop)
    (region : RegionKind → Bool → Parser (Region Operation)) : Prop :=
  ∀ kind implicitTerminator, Gives (region kind implicitTerminator) (Region.Everywhere holds)

/-- Whether something holds of all bodies that are read in a form that the tokens have selected. -/
def OfBodies (holds : Form → Body (Region Operation) → Prop) : Prop :=
  ∀ opcode form start cursor region, Traced.Regions region → Form.choose opcode cursor = .ok form →
    Gives ((Grammar.body opcode form).parse start region) fun body => holds (body.form form) body

theorem chooseForm (opcode : Opcode) :
    Gives (Parser.chooseForm opcode) fun form => ∃ cursor, Form.choose opcode cursor =
      .ok form := by
  intro input state form given
  cases chosen : Form.choose opcode state.cursor with
  | ok selected =>
    simp only [Parser.chooseForm, bind_run, Parser.cursor, Parser.look, chosen, pure_run,
      Option.some.injEq] at given
    exact ⟨state.cursor, given ▸ chosen⟩
  | error what =>
    simp only [Parser.chooseForm, bind_run, Parser.cursor, Parser.look, chosen] at given
    cases given

theorem regions_of_body (regions : OfRegions holds region) (traced : Traced.Regions region)
    (start : Cursor) (opcode : Opcode) (form : Form) :
    Gives ((Grammar.body opcode form).parse start region) fun body =>
      ∀ inner ∈ body.payload.regions, inner.Everywhere holds := by
  have everywhere : ∀ kind implicitTerminator,
      (region kind implicitTerminator).Traced fun _ inner => inner.Everywhere holds :=
    fun kind implicitTerminator => (regions kind implicitTerminator).traced (traced _ _).weaken
  refine ofTraced <| (Grammar.parse_traced start (fun _ _ _ same _ => same) everywhere _
    (Grammar.body_lawful opcode form)).mono ?_
  rintro uses body ⟨built, known⟩ inner member
  refine known (.region inner) ?_
  rw [((Grammar.body_describes opcode form).mentions _ built).mem_iff]
  simp [Payload.mentions, member]

theorem fromKeyword (bodies : OfBodies holds) (regions : OfRegions holds region)
    (traced : Traced.Regions region) :
    Gives (Parser.fromKeyword region) fun found =>
      holds found.2.1 found.2.2 ∧ ∀ inner ∈ found.2.2.payload.regions, inner.Everywhere holds := by
  refine andThen fun start => ite ?_ (andThen fun _ => fail)
  cases Opcode.ofKeyword? start.peek.text with
  | none => exact andThen fun _ => fail
  | some opcode =>
    refine andThen fun _ => andThen fun id => naming ?_
    refine (chooseForm opcode).bind ?_
    rintro form ⟨cursor, chosen⟩
    have both : Gives ((Grammar.body opcode form).parse start region) fun body =>
        holds (body.form form) body ∧ ∀ inner ∈ body.payload.regions, inner.Everywhere holds :=
      fun input state body given =>
        ⟨bodies opcode form start cursor region traced chosen input state body given,
          regions_of_body regions traced start opcode form input state body given⟩
    exact both.bind fun body found => pure found

theorem operation (bodies : OfBodies holds) (regions : OfRegions holds region)
    (traced : Traced.Regions region) :
    Gives (Parser.operation region) (Operation.Everywhere holds) := by
  refine andThen fun start => andThen fun names => ?_
  refine (fromKeyword bodies regions traced).attempt.bind fun read found =>
    andThen fun results => ?_
  cases read with
  | none => exact fail
  | some read =>
    obtain ⟨id, form, body⟩ := read
    exact andThen fun now => pure (Operation.everywhere_iff.2 (found _ rfl))

/-! ## Regions -/

/-- Whether something holds everywhere in the blocks read so far. -/
def OfProgress (holds : Form → Body (Region Operation) → Prop) (progress : Progress) : Prop :=
  (∀ block ∈ progress.closed, ∀ op ∈ block.ops, op.Everywhere holds) ∧
    ∀ op ∈ progress.current.ops, op.Everywhere holds

variable {progress : Progress}

theorem ofProgress_next {draft : BlockDraft} (known : OfProgress holds progress)
    (fresh : draft.ops = []) : OfProgress holds (progress.next draft) := by
  constructor
  · intro block member op inside
    rcases List.mem_cons.1 member with rfl | old
    · exact known.2 op (List.mem_reverse.1 inside)
    · exact known.1 block old op inside
  · change ∀ op ∈ draft.ops, _
    simp [fresh]

theorem ofProgress_nextLabeled {draft : BlockDraft} (known : OfProgress holds progress)
    (fresh : draft.ops = []) : OfProgress holds (progress.nextLabeled draft) := by
  unfold Progress.nextLabeled
  split
  · exact ⟨known.1, by simp [fresh]⟩
  · exact ofProgress_next known fresh

theorem ofProgress_push {op : Operation} (known : OfProgress holds progress)
    (new : op.Everywhere holds) : OfProgress holds (progress.push op) := by
  have pushed : ∀ {progress : Progress}, OfProgress holds progress →
      OfProgress holds { progress with current := progress.current.push op } :=
    fun known => ⟨known.1, List.forall_mem_cons.2 ⟨new, known.2⟩⟩
  unfold Progress.push
  split
  · exact pushed (ofProgress_next known rfl)
  · exact pushed known

theorem place (kind : RegionKind) (known : OfProgress holds progress) {op : Operation}
    (new : op.Everywhere holds) : Gives (Parser.place kind progress op) (OfProgress holds) := by
  have pushed := ofProgress_push known new
  refine ite (andThen fun _ => ?_) ?_
  · exact ite (andThen fun _ => pure pushed) (pure pushed)
  · exact ite (andThen fun _ => pure pushed) (pure pushed)

theorem blockHeader : Gives (Parser.blockHeader region) fun draft => draft.ops = [] := by
  refine andThen fun start => andThen fun found => ?_
  obtain ⟨label, args⟩ := found
  exact andThen fun now => pure rfl

theorem blockStep (bodies : OfBodies holds) (regions : OfRegions holds region)
    (traced : Traced.Regions region) (kind : RegionKind) (opening : Span)
    (known : OfProgress holds progress) :
    Gives (Parser.blockStep region kind opening progress)
      (Outcome (OfProgress holds) fun found => ∀ block ∈ found.1, ∀ op ∈ block.ops,
        op.Everywhere holds) := by
  refine andThen fun start => andThen fun halted => ite fail ?_
  refine ite (andThen fun _ => pure ?_) ?_
  · intro block member op inside
    rcases List.mem_cons.1 (List.mem_reverse.1 member) with rfl | closed
    · exact known.2 op (List.mem_reverse.1 inside)
    · exact known.1 block closed op inside
  refine ite (andThen fun _ => fail) (ite ?_ ?_)
  · refine blockHeader.attempt.bind fun read fresh => ?_
    cases read with
    | none => exact andThen fun _ => pure known
    | some draft => exact pure (ofProgress_nextLabeled known (fresh draft rfl))
  · refine (operation bodies regions traced).attempt.bind fun read new => ?_
    cases read with
    | none => exact andThen fun _ => pure known
    | some op => exact (place kind known (new op rfl)).map fun _ further => further

theorem blocks (bodies : OfBodies holds) (regions : OfRegions holds region)
    (traced : Traced.Regions region) (kind : RegionKind) (implicitTerminator : Bool)
    (opening : Span) :
    Gives (Parser.blocks region kind implicitTerminator opening) (Region.Everywhere holds) := by
  refine andThen fun scope => andThen fun first => ?_
  have start : OfProgress holds { current := .startingAt first.span.start } :=
    ⟨by simp, by simp [BlockDraft.startingAt]⟩
  refine (iterate (fun progress known => blockStep bodies regions traced kind opening known)
    start).bind ?_
  rintro ⟨blocks, closing⟩ found
  refine andThen fun _ => pure fun op inside => ?_
  obtain ⟨block, member, inBlock⟩ := List.mem_flatMap.1 inside
  exact found block member op inBlock

theorem regionWithin (bodies : OfBodies holds) (levels : Nat) :
    OfRegions holds (Parser.regionWithin levels) := by
  induction levels with
  | zero =>
    intro kind implicitTerminator
    exact andThen fun _ => ite fail (andThen fun _ => andThen fun _ => andThen fun _ => fail)
  | succ levels ih =>
    intro kind implicitTerminator
    refine andThen fun _ => ite fail (andThen fun opening => ?_)
    exact blocks bodies ih (Traced.regionWithin levels) kind implicitTerminator opening.span

/-! ## Source units -/

theorem items (bodies : OfBodies holds) (regions : OfRegions holds region)
    (traced : Traced.Regions region) (braced : Bool) :
    Gives (Parser.items region braced) fun items => ∀ op ∈ items, op.Everywhere holds := by
  refine collect (andThen fun halted => andThen fun start => ite (pure (by simp)) ?_)
  have declaration : Gives (Parser.declaration region) (Operation.Everywhere holds) :=
    andThen fun _ => ite (operation bodies regions traced) (andThen fun _ => fail)
  refine declaration.attempt.bind fun read found => ?_
  cases read with
  | none => exact andThen fun _ => andThen fun _ => pure (by simp)
  | some op => exact pure found

theorem sourceUnit (bodies : OfBodies holds) (regions : OfRegions holds region)
    (traced : Traced.Regions region) :
    Gives (Parser.sourceUnit region) fun found => ∀ op ∈ found.2, op.Everywhere holds := by
  refine andThen fun start => ite ?_ ?_
  · refine andThen fun _ => andThen fun header => andThen fun opening => ?_
    refine (items bodies regions traced opening.isSome).bind fun ops found => ?_
    cases opening with
    | none => exact pure found
    | some brace => exact andThen fun halted => ite (andThen fun _ => pure found) (pure found)
  · exact (items bodies regions traced false).bind fun ops found => pure found

end Gives

end Parser

/-- What holds of all bodies that are read holds of all operations of the module. -/
theorem parse_everywhere {holds : Form → Body (Region Operation) → Prop}
    (bodies : Parser.Gives.OfBodies holds) (source : String) (options : Options)
    (adapters : Adapters) :
    ∀ op ∈ (parse source options adapters).unit.preorder, holds op.form ⟨op.payload, op.extra⟩ := by
  intro op member
  obtain ⟨item, isItem, inside⟩ := List.mem_flatMap.1 member
  change item ∈ ((Parser.run source options adapters).1.getD (none, [])).2 at isItem
  cases outcome : (Parser.run source options adapters).1 with
  | none =>
    rw [outcome] at isItem
    cases isItem
  | some found =>
    rw [outcome] at isItem
    exact Parser.Gives.sourceUnit bodies (Parser.Gives.regionWithin bodies options.maxDepth)
      (Parser.Traced.regionWithin options.maxDepth) _ _ found outcome item isItem op inside

end CirText
