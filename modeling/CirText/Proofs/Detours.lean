import CirText.Proofs.Operation.Detour
import CirText.Proofs.Reread.Units

/-!
# Source units across a detour

If junk stands in front of an item of a source unit, or in a region of one, the items are the same
but for their places, and so is the source unit. One diagnostic is reported.
-/

namespace CirText

open CirText.Parser

/-! ## Items -/

namespace Parser

variable {parser : RegionKind → Bool → Parser (Region Operation)}
  {region : RegionKind → Bool → Meaning (Region Operation)} {input : Input} {state next : State}
  {braced : Bool}
  {earlier ops : List Operation}

/-- A step at the end of the items. -/
theorem collectItem_end (live : state.halted = false) (uncancelled : input.stops state = false)
    (ends : (state.cursor.atEnd || braced && state.cursor.atPunct .rightBrace) = true) :
    collectItem parser braced earlier input state = (some (.done earlier), state) := by
  rw [collectItem, map_run, itemStep_run, live, uncancelled]
  simp only [Bool.false_eq_true, if_false]
  rw [nextItem_run, if_pos ends]
  rfl

/-- A step that reads an item. -/
theorem collectItem_item {op : Operation} (live : state.halted = false)
    (uncancelled : input.stops state = false)
    (inside : (state.cursor.atEnd || braced && state.cursor.atPunct .rightBrace) = false)
    (starts : startsDeclaration state.cursor.peek = true)
    (ran : operation parser input state = (some op, next)) :
    collectItem parser braced earlier input state = (some (.again (op :: earlier)), next) := by
  have declared : declaration parser input state = (some op, next) := by
    rw [← ran]
    change (if startsDeclaration state.cursor.peek then operation parser else _ : Parser Operation)
      input state = _
    rw [if_pos starts]
  rw [collectItem, map_run, itemStep_run, live, uncancelled]
  simp only [Bool.false_eq_true, if_false]
  rw [nextItem_run, inside, declared]
  rfl

/-- Parsing goes on wherever the items of a source unit do. -/
theorem ItemsRead.resumes {source : List Char} {before after : Stage}
    (reads : ItemsRead region braced source before ops after) : Cursor.Resumes before.rest := by
  cases reads with
  | nil ends =>
    rcases Bool.or_eq_true_iff.1 ends with atEnd | closes
    · rw [show before.rest = [] from List.isEmpty_iff.1 atEnd]
      rfl
    · obtain ⟨brace, isBrace, passes⟩ := Stage.passes_of_atPunct (Bool.and_eq_true_iff.1 closes).2
      rw [passes.1]
      exact Cursor.resumes_of_rightBrace isBrace
  | cons _ _ first => exact Cursor.resumes_of_startsUnit first.startsUnit

end Parser

namespace Detour

variable {detour : Detour} {parser : RegionKind → Bool → Parser (Region Operation)}
  {region : RegionKind → Bool → Meaning (Region Operation)} {hit : Region Operation → Prop}
  {braced : Bool}
  {before middle after : Stage} {ops earlier : List Operation}

theorem uncancelled (detour : Detour) (state : State) : detour.input.stops state = false :=
  detour.never _ _

/-- Whether items have been found behind earlier ones that are the same as the given ones but for
their places. -/
def Collects (earlier ops found : List Operation) : Prop :=
  ∃ again, found = again.reverse ++ earlier ∧ List.Forall₂ Operation.Matches ops again

theorem Collects.cons {op again : Operation} (same : op.Matches again) {found : List Operation}
    (collects : Collects (again :: earlier) ops found) : Collects earlier (op :: ops) found := by
  obtain ⟨others, rfl, matches_⟩ := collects
  exact ⟨again :: others, by simp, .cons same matches_⟩

/-- Where an item comes next in the first text, it does so in the second text as well if the texts
go on together. -/
theorem Ahead.startsItem {taken : List Token} {stage : Stage} {state : State}
    (here : detour.Ahead taken stage state)
    (shared : taken ≠ [])
    (inside : (stage.cursor.atEnd || braced && stage.cursor.atPunct .rightBrace) = false)
    (starts : startsDeclaration stage.cursor.peek = true) :
    (state.cursor.atEnd || braced && state.cursor.atPunct .rightBrace) = false ∧
      startsDeclaration state.cursor.peek = true := by
  have noBrace : state.cursor.atPunct .rightBrace = stage.cursor.atPunct .rightBrace :=
    here.abreast.holds_eq (.punct .rightBrace) fun parted => absurd parted shared
  obtain ⟨token, tokens, rfl⟩ := List.exists_cons_of_ne_nil shared
  obtain ⟨next, nextTwin⟩ := here.abreast.peek_eq
  constructor
  · rw [here.atEnd_eq, noBrace]
    exact (Bool.or_eq_false_iff.1 inside).2
  · rw [show state.cursor.peek = _ from nextTwin, ← next]
    exact starts

section Items

variable (regions : detour.Regions parser region hit)

include regions

/-- Behind the junk the same items are read in both texts. -/
theorem items_past {state : State} (here : detour.Past before state)
    (reads : ItemsRead region braced detour.ahead.source before ops after)
    (calm : ∀ op ∈ ops, op.Calm detour.options) (earlier : List Operation) :
    ∃ found final, iterate (collectItem parser braced) earlier detour.input state =
      (some found, final) ∧ Collects earlier ops found ∧ detour.Past after final ∧
        final.diagnostics = state.diagnostics := by
  have sameEnd : ∀ {stage : Stage} {state : State}, detour.Past stage state →
      (state.cursor.atEnd || braced && state.cursor.atPunct .rightBrace) =
        (stage.cursor.atEnd || braced && stage.cursor.atPunct .rightBrace) := by
    intro stage state here
    have brace : state.cursor.atPunct .rightBrace = stage.cursor.atPunct .rightBrace :=
      here.follows.atPunct_eq .rightBrace
    rw [here.atEnd_eq, brace]
  induction reads generalizing earlier state with
  | nil ends =>
    refine ⟨earlier, state, ?_, ⟨[], rfl, .nil⟩, here, rfl⟩
    rw [iterate_run,
      collectItem_end here.live.live (detour.uncancelled _) ((sameEnd here).trans ends)]
  | @cons before middle after op ops inside starts first rest ih =>
    obtain ⟨calmFirst, calmRest⟩ := List.forall_mem_cons.1 calm
    obtain ⟨again, between, run, same, midway, kept⟩ := here.reads (.operation regions.regular)
      (Relocation.carries_operation regions.past) first fun _ same => same.calm calmFirst
    obtain ⟨found, final, rests, collects, done, keptRest⟩ := ih midway calmRest (again :: earlier)
    have startsAgain : startsDeclaration state.cursor.peek = true := by
      obtain ⟨kind, text⟩ := here.follows.peek_eq
      rw [startsDeclaration, show state.cursor.peek.kind = _ from kind,
        show state.cursor.peek.text = _ from text]
      exact starts
    refine ⟨found, final, ?_, collects.cons same, done, keptRest.trans kept⟩
    rw [iterate_next
      (collectItem_item here.live.live (detour.uncancelled _) ((sameEnd here).trans inside)
      startsAgain run), rests]
    rw [midway.length_rest, here.length_rest]
    exact Means.progresses_operation regions.regular.means _ _ _ _ first

/-- The items are read in both texts if an unknown operation and the junk come next. -/
theorem straddles_items_here (plain : detour.opening = [])
    (isKeyword : detour.refused.kind = .keyword)
    (rest : before.rest = detour.left)
    (reads : ItemsRead region braced detour.ahead.source before ops after)
    (calm : ∀ op ∈ ops, op.Calm detour.options) :
    detour.Straddles (iterate (collectItem parser braced) earlier) before after
      (Collects earlier ops) := by
  have shared : before.rest = [] ++ detour.ahead.behind := by
    rw [rest, detour.behind, plain]
    rfl
  refine ⟨⟨[], shared⟩, fun {taken state} here => ?_⟩
  obtain rfl : taken = [] := here.abreast.left_unique shared
  have twin : state.cursor.rest =
      detour.refused :: (detour.junk ++ detour.left.map (.move detour.origin detour.target)) := by
    rw [show state.cursor.rest = _ from here.abreast.there, detour.beyond, plain]
    rfl
  have unknown : Opcode.ofKeyword? detour.refused.text = none := by
    have refuses := detour.refuses
    rw [Parser.refuses, isKeyword] at refuses
    exact Option.isNone_iff_eq_none.1 refuses
  have past := Past.of_junk rest twin here.live here.abreast.tracker here.abreast.nextId
  obtain ⟨found, final, run, collects, done, kept⟩ := items_past regions past reads calm earlier
  refine ⟨found, final, state.refusal, ?_, collects, done,
    reports_refusal (Cursor.peek_of_cons twin), kept⟩
  rw [items_junk here.live.live (detour.uncancelled _) twin isKeyword unknown detour.isJunk
    ((rest ▸ reads.resumes).move _ _), run]

/-- The items are read in both texts if the one that comes next has the junk inside it. -/
theorem straddles_items_inside {op : Operation}
    (inside : (before.cursor.atEnd || braced && before.cursor.atPunct .rightBrace) = false)
    (starts : startsDeclaration before.cursor.peek = true)
    (first : OperationReads region detour.ahead.source before op middle)
    (crosses : detour.Crosses (operation parser) before middle op.Matches)
    (reads : ItemsRead region braced detour.ahead.source middle ops after)
    (calm : ∀ op ∈ ops, op.Calm detour.options) :
    detour.Straddles (iterate (collectItem parser braced) earlier) before after
      (Collects earlier (op :: ops)) := by
  obtain ⟨comes, runs⟩ := crosses
  have step : detour.Runs (collectItem parser braced earlier) before middle fun result =>
      ∃ onward, result = .again onward ∧ ∃ twin, onward = twin :: earlier ∧ op.Matches twin := by
    intro taken state here
    obtain ⟨twin, between, diagnostic, run, same, midway, reported⟩ := runs here
    have shared : taken ≠ [] := by
      refine comes.ne_nil here.abreast.here ?_
      have isKeyword : before.cursor.peek.kind = .keyword :=
        beq_iff_eq.1 (Bool.and_eq_true_iff.1 starts).1
      rw [Cursor.atPunct, Token.isPunct, isKeyword]
      rfl
    obtain ⟨insideAgain, startsAgain⟩ := here.startsItem shared inside starts
    exact ⟨_, between, diagnostic,
      collectItem_item here.live.live (detour.uncancelled _) insideAgain startsAgain run,
      ⟨_, rfl, twin, rfl, same⟩, midway, reported⟩
  have fewer := Means.progresses_operation regions.regular.means _ _ _ _ first
  refine ⟨comes.imp fun _ => And.left, step.iterate fewer fun {_ state} goesOn midway => ?_⟩
  obtain ⟨twin, rfl, same⟩ := goesOn
  obtain ⟨found, final, rests, collects, done, kept⟩ :=
    items_past regions midway reads calm (twin :: earlier)
  exact ⟨found, final, rests, collects.cons same, done, kept⟩

/-- The items are read in both texts if one comes before the junk. -/
theorem straddles_items_cons {op : Operation}
    (inside : (before.cursor.atEnd || braced && before.cursor.atPunct .rightBrace) = false)
    (starts : startsDeclaration before.cursor.peek = true)
    (first : OperationReads region detour.ahead.source before op middle)
    (calm : op.Calm detour.options)
    (others : detour.Straddles (iterate (collectItem parser braced) (op :: earlier)) middle after
      (Collects (op :: earlier) ops)) :
    detour.Straddles (iterate (collectItem parser braced) earlier) before after
      (Collects earlier (op :: ops)) := by
  have fewer := Means.progresses_operation regions.regular.means _ _ _ _ first
  have toMiddle := (Means.operation regions.regular.means).leads _ _ _ _ first
  refine Straddles.mono (others.behind toMiddle fewer fun {taken left state} here shared rest => ?_)
    fun _ holds => holds.cons (.refl op)
  obtain ⟨between, run, midway, kept⟩ := operation_ahead regions here first rest calm
  obtain ⟨insideAgain, startsAgain⟩ := here.startsItem shared inside starts
  exact ⟨between, collectItem_item here.live.live (detour.uncancelled _) insideAgain startsAgain
    run, midway, kept⟩

/-- The items are read in both texts if the junk stands in a region of one of them. -/
theorem straddles_items_within
    (reads : ItemsRead region braced detour.ahead.source before ops after)
    (within : before.rest <:+ detour.tokens) (calm : ∀ op ∈ ops, op.Calm detour.options)
    (isHit : ∃ op ∈ ops, ∃ inner ∈ op.payload.regions, hit inner) (earlier : List Operation) :
    detour.Straddles (iterate (collectItem parser braced) earlier) before after
      (Collects earlier ops) := by
  induction reads generalizing earlier with
  | nil =>
    obtain ⟨_, ⟨⟩, _⟩ := isHit
  | @cons before middle after op ops inside starts first rest ih =>
    have toMiddle := (Means.operation regions.regular.means).leads _ _ _ _ first
    obtain ⟨calmFirst, calmRest⟩ := List.forall_mem_cons.1 calm
    by_cases inFirst : ∃ inner ∈ op.payload.regions, hit inner
    · have crosses := crosses_operation regions first within inFirst calmFirst
      exact straddles_items_inside regions inside starts first crosses rest calmRest
    · have later := ((List.exists_mem_cons_iff _ _ _).1 isHit).resolve_left inFirst
      exact straddles_items_cons regions inside starts first calmFirst
        (ih (toMiddle.suffix.trans within) calmRest later (op :: earlier))

/-- The items are read in both texts if an unknown operation and the junk stand in front of one of
them or behind the last one. -/
theorem straddles_items_own (plain : detour.opening = [])
    (isKeyword : detour.refused.kind = .keyword)
    (reads : ItemsRead region braced detour.ahead.source before ops after)
    (within : before.rest <:+ detour.tokens)
    (calm : ∀ op ∈ ops, op.Calm detour.options)
    (place : after.rest = detour.left ∨ ∃ op ∈ ops, detour.left.head?.map (·.span.start) =
      some op.span.start)
    (earlier : List Operation) :
    detour.Straddles (iterate (collectItem parser braced) earlier) before after
      (Collects earlier ops) := by
  have means := regions.regular.means
  induction reads generalizing earlier with
  | nil ends =>
    have last := place.resolve_right (by rintro ⟨_, ⟨⟩, _⟩)
    exact straddles_items_here regions plain isKeyword last (.nil ends) calm
  | @cons before middle after op ops inside starts first rest ih =>
    by_cases here : before.rest = detour.left
    · exact straddles_items_here regions plain isKeyword here (.cons inside starts first rest) calm
    · have toMiddle := (Means.operation means).leads _ _ _ _ first
      obtain ⟨calmFirst, calmRest⟩ := List.forall_mem_cons.1 calm
      have notFirst : ¬detour.left.head?.map (·.span.start) = some op.span.start := by
        intro starts
        refine here (rest_eq_left plain starts within ?_
          (first.start_eq means regions.regular.forward detour.ordered within))
        exact List.isEmpty_eq_false_iff.1 (Bool.or_eq_false_iff.1 inside).1
      have later : after.rest = detour.left ∨
          ∃ op ∈ ops, detour.left.head?.map (·.span.start) = some op.span.start := by
        refine place.imp_right ?_
        rintro ⟨found, member, starts⟩
        rcases List.mem_cons.1 member with rfl | member
        · exact absurd starts notFirst
        · exact ⟨found, member, starts⟩
      exact straddles_items_cons regions inside starts first calmFirst
        (ih (toMiddle.suffix.trans within) calmRest later (op :: earlier))

end Items

end Detour

/-! ## Modules with braces -/

namespace Fork

variable {fork : Fork} {start twinStart before after twin : Stage} {begun taken left : List Token}
    {tame : Prop}

/-- The optional name of a module. -/
theorem unitName : fork.Persists UnitNameReads tame := by
  intro before after twin name taken left reads abreast rest _
  have same : twin.cursor.atKind .symbol = before.cursor.atKind .symbol :=
    abreast.holds_eq (.kind .symbol) fun _ => decides_of_foreign rfl
  unfold UnitNameReads at reads ⊢
  rw [same]
  split at reads
  · rename_i isSymbol
    simp only [if_pos isSymbol]
    obtain ⟨rfl, rfl⟩ := reads
    have passes := ((Stage.passes_iff (·.kind == .symbol) fun _ => rfl).1 ⟨isSymbol, rfl, rfl⟩).2
    obtain ⟨_, ⟨there, rfl⟩, done⟩ := abreast.passes passes rest
    rw [Cursor.peek_of_cons (show twin.cursor.rest = _ from there)]
    exact ⟨twin.next, ⟨rfl, rfl⟩, done⟩
  · rename_i noSymbol
    simp only [if_neg noSymbol]
    obtain ⟨rfl, rfl⟩ := reads
    obtain rfl := abreast.left_unique rest
    exact ⟨twin, ⟨rfl, rfl⟩, abreast⟩

/-- The optional attributes of a module. -/
theorem unitAttributes : fork.Persists UnitAttributesRead tame := by
  intro before after twin found taken left reads abreast rest isTame
  unfold UnitAttributesRead at reads ⊢
  rw [abreast.atWord_eq]
  split at reads
  · rename_i isWord
    simp only [if_pos isWord]
    obtain ⟨value, reads, rfl⟩ := reads
    have passes := ((Stage.passes_iff (·.isWord "attributes") fun _ => rfl).1 ⟨isWord, rfl, rfl⟩).2
    obtain ⟨shared, restNext, _⟩ :=
      left_of_leads ((Means.attributeReads .dictionary).leads _ _ _ _ reads) rest
    obtain ⟨_, ⟨_, rfl⟩, next⟩ := abreast.passes passes restNext
    obtain ⟨last, again, done⟩ := Persists.attributeOf .dictionary reads next rest isTame
    exact ⟨last, ⟨value, again, rfl⟩, done⟩
  · rename_i noWord
    simp only [if_neg noWord]
    obtain ⟨rfl, rfl⟩ := reads
    obtain rfl := abreast.left_unique rest
    exact ⟨twin, ⟨rfl, rfl⟩, abreast⟩

/-- The header of a module, from the word that starts it on. -/
theorem unitHeader {header : ModuleHeader} (atStart : fork.Abreast begun start twinStart)
    (shared : begun ≠ []) (reads : UnitHeaderReads start.cursor fork.source before header after)
    (abreast : fork.Abreast taken before twin)
    (rest : after.rest = left ++ fork.behind) :
    ∃ last, UnitHeaderReads twinStart.cursor fork.other twin header last ∧
      fork.Abreast left after last := by
  obtain ⟨name, middle, named, attributes, attributed, rfl⟩ := reads
  have toAfter : middle.Leads after := by
    unfold UnitAttributesRead at attributed
    split at attributed
    · obtain ⟨_, reads, _⟩ := attributed
      exact (Stage.leads_next _).trans ((Means.attributeReads .dictionary).leads _ _ _ _ reads)
    · rw [attributed.2]
      exact .refl middle
  obtain ⟨more, restMiddle, _⟩ := left_of_leads toAfter rest
  obtain ⟨between, namedAgain, midway⟩ := unitName named abreast restMiddle fun _ => trivial
  obtain ⟨last, attributedAgain, done⟩ := unitAttributes attributed midway rest fun _ => trivial
  exact ⟨last, ⟨name, between, namedAgain, attributes, attributedAgain,
    by rw [atStart.spanBetween_eq shared done]⟩, done⟩

end Fork

/-! ## Source units -/

namespace Parser

variable {parser : RegionKind → Bool → Parser (Region Operation)} {input : Input}
  {state named inside last : State} {found : List Operation}

/-- The run of a source unit without a header. -/
theorem sourceUnit_bare (bare : state.cursor.atWord "module" = false)
    (ran : iterate (collectItem parser false) [] input state = (some found, last)) :
    sourceUnit parser input state = (some (none, found.reverse), last) := by
  have read : items parser false input state = (some found.reverse, last) := by
    rw [items_eq, map_run, ran]
    rfl
  change (if state.cursor.atWord "module" then _ else items parser false >>= fun ops =>
    Pure.pure (none, ops) : Parser (Option ModuleHeader × List Operation)) input state = _
  rw [bare, if_neg Bool.false_ne_true, bind_run, read]
  rfl

/-- The run of a module with braces up to the end of input. -/
theorem sourceUnit_module {header : ModuleHeader} {brace : Token}
    (isModule : state.cursor.atWord "module" = true)
    (headed : unitHeader state.cursor input { state with cursor := state.cursor.next } =
      (some header, named))
    (opened : punct .leftBrace input named = (some brace, inside))
    (ran : iterate (collectItem parser true) [] input inside = (some found, last))
    (live : last.halted = false)
    (closes : last.cursor.atPunct .rightBrace = true) (ends : last.cursor.next.atEnd = true) :
    sourceUnit parser input state =
      (some (some header, found.reverse), { last with cursor := last.cursor.next }) := by
  have read : items parser true input inside = (some found.reverse, last) := by
    rw [items_eq, map_run, ran]
    rfl
  have closed : moduleEnd brace input last =
      (some (), { last with cursor := last.cursor.next }) := by
    change (if last.cursor.atPunct .rightBrace then skip >>= fun _ => cursor >>= fun now =>
      if !now.atEnd then reportExpected _ else Pure.pure () else _ : Parser Unit) input last = _
    rw [if_pos closes, bind_run]
    change (if !last.cursor.next.atEnd then _ else Pure.pure () : Parser Unit) input _ = _
    rw [ends]
    rfl
  change (if state.cursor.atWord "module" then skip >>= fun _ => unitHeader state.cursor >>=
    fun header =>
      attempt (punct .leftBrace) >>= fun opening => items parser opening.isSome >>= fun ops => _
    else _ : Parser (Option ModuleHeader × List Operation)) input state = _
  rw [if_pos isModule, bind_run]
  change (unitHeader state.cursor >>= _) input { state with cursor := state.cursor.next } = _
  rw [bind_run, headed]
  dsimp only
  rw [attempt_bind_run, opened]
  dsimp only
  rw [bind_run, Option.isSome_some, read]
  change closeModule (some header, found.reverse) brace input last = _
  rw [closeModule_run, closed, if_neg (by rw [live]; exact Bool.false_ne_true)]

end Parser

/-- A source unit is read in both texts if its items are. -/
theorem Detour.runs_sourceUnit {detour : Detour}
    {parser : RegionKind → Bool → Parser (Region Operation)}
    {region : RegionKind → Bool → Meaning (Region Operation)} {before after : Stage}
    {found : Option ModuleHeader × List Operation}
    (reads : SourceUnitReads region detour.ahead.source before found after)
    (within : before.rest <:+ detour.tokens)
    (straddles : ∀ {inside last : Stage},
      ItemsRead region found.1.isSome detour.ahead.source inside found.2 last →
      inside.rest <:+ detour.tokens → last.rest.length = found.1.toList.length →
        detour.Straddles (iterate (collectItem parser found.1.isSome) []) inside last
        (Collects [] found.2)) : detour.Runs (sourceUnit parser) before after (SameUnit found) := by
  intro taken state here
  have sameWord : state.cursor.atWord "module" = before.cursor.atWord "module" :=
    here.abreast.atWord_eq "module"
  unfold SourceUnitReads at reads
  split at reads
  · rename_i isModule
    obtain ⟨header, middle, headed, brace, inside, ⟨isBrace, toInside⟩, ops, last, reads, closes,
        rfl, ends, rfl⟩ :=
      reads
    obtain ⟨isWord, passes⟩ :=
      (Stage.passes_iff (·.isWord "module") fun _ => rfl).1 ⟨isModule, rfl, rfl⟩
    have toMiddle := (Means.unitHeader before.cursor).leads _ _ _ _ headed
    have restLast : last.rest.length = 1 := by
      obtain ⟨closing, _, toLast⟩ := Stage.passes_of_atPunct closes
      rw [toLast.1, List.length_cons, show last.next.rest = [] from List.isEmpty_iff.1 ends]
      rfl
    have toItems : before.Leads inside := (passes.leads.trans toMiddle).trans toInside.leads
    obtain ⟨⟨left, restInside⟩, runs⟩ := straddles reads (toItems.suffix.trans within) restLast
    have restMiddle : middle.rest = (brace :: left) ++ detour.ahead.behind := by
      rw [toInside.1, restInside, List.cons_append]
    obtain ⟨more, restNext, _⟩ := Fork.left_of_leads toMiddle restMiddle
    have shared : taken ≠ [] := here.abreast.ne_nil restNext (Grammar.progresses_passes passes)
    obtain ⟨_, ⟨_, rfl⟩, next⟩ := here.abreast.passes passes restNext
    obtain ⟨_, headedAgain, midway⟩ := Fork.unitHeader here.abreast shared headed next restMiddle
    have live : State.Live { state with cursor := state.cursor.next } detour.first :=
      ⟨here.live.live, here.live.reached.trans (.next _)⟩
    obtain ⟨named, runHeader, rfl, kept, liveMiddle⟩ :
        Reads detour.first (unitHeader state.cursor) detour.input
        { state with cursor := state.cursor.next } header _ :=
      (@Silent.unitHeader detour.options detour.first state.cursor).reads rfl detour.never live
      headedAgain trivial
    obtain ⟨begun, opened, inner, keptBrace⟩ :=
      Ahead.reads ⟨midway, liveMiddle⟩ (.punct .leftBrace) .satisfying
      ⟨isBrace, toInside⟩ restInside (fun _ => trivial) trivial
    obtain ⟨_, final, diagnostic, run, ⟨again, rfl, same⟩, done, reports, reported⟩ := runs inner
    have closing : final.cursor.atPunct .rightBrace = true :=
      (done.follows.atPunct_eq .rightBrace).trans closes
    have past : detour.Past last.next { final with cursor := final.cursor.next } :=
      ⟨done.follows.next, done.live.live, done.live.reached.trans (.next _)⟩
    refine ⟨(some header, again), { final with cursor := final.cursor.next }, diagnostic, ?_,
      ⟨rfl, same⟩, past, reports, reported.trans (by rw [keptBrace, kept])⟩
    rw [sourceUnit_module (sameWord.trans isModule) runHeader opened run done.live.live closing
      (past.atEnd_eq.trans ends)]
    simp
  · rename_i noModule
    obtain ⟨ops, reads, rfl⟩ := reads
    have restAfter : after.rest.length = 0 := by
      have ends := reads.ends
      rw [Bool.false_and, Bool.or_false] at ends
      exact List.length_eq_zero_iff.2 (List.isEmpty_iff.1 ends)
    obtain ⟨_, final, diagnostic, run, ⟨again, rfl, same⟩, done, reports, reported⟩ :=
      (straddles reads within restAfter).runs here
    refine ⟨(none, again), final, diagnostic, ?_, ⟨rfl, same⟩, done, reports, reported⟩
    rw [sourceUnit_bare (sameWord.trans (Bool.eq_false_iff.2 noModule)) run]
    simp

end CirText
