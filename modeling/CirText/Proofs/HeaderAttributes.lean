import CirText.Proofs.Parser.Refusals
import CirText.Proofs.Parser.Sight
import CirText.Proofs.Resolution

/-!
# Attributes of a module that cannot be read

The head of a module may have attributes in braces. If they cannot be read, an error is reported and
the module has none, but they are not skipped: the brace that they start with is taken for the one
that opens the module. So the functions and globals are looked for inside of the attributes, the
module ends with a brace in there, and its body is never read.
-/

namespace CirText

/-! ## Rejected attributes -/

/-- Whether tokens close the given number of braces and all those that they open themselves. -/
def closesBraces (depth : Nat) : List Token → Bool
  | [] => depth == 0
  | token :: rest =>
    if token.isPunct .leftBrace then closesBraces (depth + 1) rest
    else if token.isPunct .rightBrace then
      match depth with
      | 0 => false
      | depth + 1 => closesBraces depth rest
    else closesBraces depth rest

/-- The head of a module with a group in braces for its attributes, from which no dictionary can be
read. -/
structure RejectedAttributes (tokens : List Token) where
  /-- The word that starts a module. -/
  word : Token
  /-- The name of the module. -/
  name : Option Token
  /-- The word in front of the attributes. -/
  clause : Token
  /-- The brace that opens the group. -/
  opening : Token
  /-- The tokens of the group. -/
  inside : List Token
  /-- The brace that closes the group. -/
  closing : Token
  /-- What comes behind the group: the body of the module. -/
  behind : List Token
  /-- What is wrong with the group as a dictionary. -/
  mismatch : Reader.Mismatch
  tokens_eq : tokens = word :: (name.toList ++ clause :: opening :: (inside ++ closing :: behind))
  isModule : word.isWord "module" = true
  isName : ∀ token ∈ name, token.kind = .symbol
  isClause : clause.isWord "attributes" = true
  opens : opening.isPunct .leftBrace = true
  closes : closing.isPunct .rightBrace = true
  balanced : closesBraces 0 inside = true
  rejected : Reader.dictionary (opening :: (inside ++ closing :: behind)) = .error mismatch

/-! ## Braces -/

theorem closesBraces_tail {depth : Nat} {token : Token} {rest : List Token}
    (balanced : closesBraces depth (token :: rest) = true) :
    ∃ depth, closesBraces depth rest = true := by
  rw [closesBraces.eq_def] at balanced
  dsimp only at balanced
  split at balanced
  · exact ⟨_, balanced⟩
  · split at balanced
    · cases depth with
      | zero => cases balanced
      | succ depth => exact ⟨_, balanced⟩
    · exact ⟨_, balanced⟩

/-- Skipping does not leave a group: it ends inside of it, or at the brace that closes it. -/
theorem Cursor.fromBoundary_inside {closing : Token} (closes : closing.isPunct .rightBrace = true)
    (behind : List Token) {tokens : List Token} {depth count : Nat}
    (balanced : closesBraces depth tokens = true) (fewer : count ≤ depth) :
    ∃ depth later, later <:+ tokens ∧ closesBraces depth later = true ∧
      fromBoundary count (tokens ++ closing :: behind) = later ++ closing :: behind := by
  induction tokens generalizing depth count with
  | nil =>
    obtain rfl : depth = 0 := beq_iff_eq.1 balanced
    obtain rfl : count = 0 := Nat.le_zero.1 fewer
    exact ⟨0, [], List.suffix_rfl, rfl, Cursor.resumes_of_rightBrace closes⟩
  | cons token tokens ih =>
    have whole := balanced
    rw [closesBraces.eq_def] at balanced
    rw [List.cons_append, fromBoundary.eq_def]
    dsimp only at balanced ⊢
    have goesOn : ∀ {depth count : Nat}, closesBraces depth tokens = true → count ≤ depth →
        ∃ depth later, later <:+ token :: tokens ∧ closesBraces depth later = true ∧
          fromBoundary count (tokens ++ closing :: behind) = later ++ closing :: behind := by
      intro depth count balanced fewer
      obtain ⟨after, later, suffix, rest, skipped⟩ := ih balanced fewer
      exact ⟨after, later, suffix.trans (List.suffix_cons _ _), rest, skipped⟩
    have stops : ∃ depth later, later <:+ token :: tokens ∧ closesBraces depth later = true ∧
        token :: (tokens ++ closing :: behind) = later ++ closing :: behind :=
      ⟨depth, token :: tokens, List.suffix_rfl, whole, rfl⟩
    split at balanced
    · rename_i opens
      rw [if_pos opens]
      exact goesOn balanced (Nat.succ_le_succ fewer)
    · rename_i notOpen
      rw [if_neg notOpen]
      split at balanced
      · rename_i isClosing
        rw [if_pos isClosing]
        cases depth with
        | zero => cases balanced
        | succ depth =>
          cases count with
          | zero => exact stops
          | succ count => exact goesOn balanced (Nat.le_of_succ_le_succ fewer)
      · rename_i notClosing
        rw [if_neg notClosing]
        split
        · exact stops
        · exact goesOn balanced fewer

theorem Cursor.toBoundary_inside {cursor : Cursor} {closing : Token} {tokens behind : List Token}
    {depth : Nat} (closes : closing.isPunct .rightBrace = true)
    (here : cursor.rest = tokens ++ closing :: behind)
    (balanced : closesBraces depth tokens = true) :
    ∃ depth later, later <:+ tokens ∧ closesBraces depth later = true ∧
      cursor.toBoundary.rest = later ++ closing :: behind := by
  obtain ⟨after, later, suffix, remaining, skipped⟩ :=
    fromBoundary_inside closes behind balanced (Nat.zero_le depth)
  refine ⟨after, later, suffix, remaining, ?_⟩
  rw [toBoundary, here, skipped, Parser.Sees.advanceTo_rest]
  rw [here]
  obtain ⟨before, rfl⟩ := suffix
  exact ⟨before, (List.append_assoc ..).symm⟩

namespace Parser

variable {region : RegionKind → Bool → Parser (Region Operation)} {input : Input} {state : State}

/-! ## Groups without declarations -/

/-- Inside of braces without functions and globals there are no items, and what comes behind the
braces is not reached. -/
theorem iterate_collectItem_barren {closing : Token} {inside behind : List Token} {depth : Nat}
    (closes : closing.isPunct .rightBrace = true) (balanced : closesBraces depth inside = true)
    (barren : ∀ token ∈ inside, token.declares = false) (earlier : List Operation)
    (same : state.cursor.rest = inside ++ closing :: behind) :
    (iterate (collectItem region true) earlier input state).1 = some earlier := by
  -- Each step that goes on leaves a shorter piece of the group.
  induction size : inside.length using Nat.strong_induction_on generalizing inside depth state with
  | _ size ih =>
    have ends : ∀ final : State, itemStep region true input state = (some (none, false), final) →
        (iterate (collectItem region true) earlier input state).1 = some earlier := by
      intro final stopped
      rw [iterate_run, collectItem, map_run, stopped]
      rfl
    have step := @itemStep_run region true input state
    cases halted : state.halted with
    | true => exact ends _ (by rw [step, halted]; rfl)
    | false =>
    cases stops : input.stops state with
    | true => exact ends _ (by rw [step, halted, stops]; rfl)
    | false =>
    cases atBrace : state.cursor.atEnd || true && state.cursor.atPunct .rightBrace with
    | true => exact ends state (by rw [step, halted, stops, nextItem_run, atBrace]; rfl)
    | false =>
    cases inside with
    | nil =>
      have closed : state.cursor.atPunct .rightBrace = true := by
        rw [Cursor.atPunct, Cursor.peek, same]
        exact closes
      simp [closed] at atBrace
    | cons first rest =>
      have next : state.cursor.peek = first := Cursor.peek_of_cons same
      obtain ⟨diagnostic, _, _, goesOn⟩ := @itemStep_run_of_not_declares region _ _ _ halted stops
        atBrace (next ▸ barren first List.mem_cons_self)
      obtain ⟨inner, opened⟩ := closesBraces_tail balanced
      have behindFirst : state.cursor.next.rest = rest ++ closing :: behind :=
        Cursor.rest_next_of_cons same
      obtain ⟨after, later, suffix, remaining, left⟩ :=
        Cursor.toBoundary_inside closes behindFirst opened
      have shorter := suffix.length_le
      have fewer : state.cursor.next.toBoundary.rest.length < state.cursor.rest.length := by
        rw [left, same]
        simp only [List.length_append, List.length_cons]
        omega
      rw [iterate_run, collectItem, map_run, goesOn]
      simp only [Option.map_some, if_true, fewer]
      refine ih later.length ?_ remaining ?_ left rfl
      · rw [← size, List.length_cons]
        omega
      · exact fun token member => barren token (List.mem_cons_of_mem _ (suffix.mem member))

/-! ## Dictionaries -/

/-- Behind the name of an entry there is an equals sign, a comma or the closing brace. -/
theorem dictionary_mismatch {opening name next : Token} {rest : List Token}
    {mismatch : Reader.Mismatch}
    (isName : Reader.isEntryName name = true) (noMark : ∀ mark, next.isPunct mark = false)
    (opens : opening.isPunct .leftBrace = true)
    (rejected : Reader.dictionary (opening :: name :: next :: rest) = .error mismatch) :
    mismatch.rest = next :: rest := by
  have noBrace : name.isPunct .rightBrace = false := by
    rw [Token.isPunct]
    apply beq_eq_false_iff_ne.2
    intro same
    rw [Reader.isEntryName, same] at isName
    cases isName
  have value : Reader.entryValue (next :: rest) = .ok ⟨next :: rest, Nat.le_refl _⟩ := by
    rw [Reader.entryValue, noMark]
    rfl
  have entries : Reader.entries (name :: next :: rest) =
      .error ⟨"expected `,` or `\x7d` in attribute dictionary, found " ++ next.describe,
        next :: rest⟩ := by
    rw [Reader.entries, noBrace, isName, value]
    simp only [noMark]
    rfl
  rw [Reader.dictionary, opens, entries] at rejected
  cases rejected
  rfl

/-! ## The head of a module -/

/-- The error about attributes that cannot be read as a dictionary. -/
def State.rejection (state : State) (mismatch : Reader.Mismatch) : Diagnostic :=
  let span := state.cursor.spanAt mismatch.rest
  .error (.sublanguage ⟨.attribute, mismatch.message, span⟩) span

/-- Attributes that are rejected are not skipped. -/
theorem restOfHeader_rejected {clause : Token} {group : List Token} {mismatch : Reader.Mismatch}
    (structural : input.adapters = .structural)
    (same : state.cursor.rest = clause :: group) (isClause : clause.isWord "attributes" = true)
    (rejected : Reader.dictionary group = .error mismatch) (start : Cursor) (name : Option Lexeme) :
    ∃ (header : ModuleHeader) (after : State), restOfHeader start name input state =
      (some header, after) ∧ header.name = name ∧ header.attributes = none ∧
        after.cursor.rest = group ∧
      after.halted = state.halted ∧
      after.diagnostics = state.diagnostics.push (after.rejection mismatch) := by
  have atClause : state.cursor.atWord "attributes" = true := by
    rw [Cursor.atWord, Cursor.peek, same]
    exact isClause
  obtain rfl : state.cursor.next.rest = group := Cursor.rest_next_of_cons same
  have read : state.cursor.next.readAttribute input.source .dictionary =
      .error ⟨.attribute, mismatch.message, state.cursor.next.spanAt mismatch.rest⟩ := by
    rw [Cursor.readAttribute, Reader.ofForm, rejected]
  refine ⟨⟨name, none, start.spanBetween state.cursor.next⟩,
    { state with
      cursor := state.cursor.next
      readings := ⟨.attribute, state.cursor.next.position⟩ :: state.readings
      diagnostics := state.diagnostics.push
        (State.rejection { state with cursor := state.cursor.next } mismatch) },
    ?_, rfl, rfl, rfl, rfl, rfl⟩
  simp only [restOfHeader, bind_run, cursor, look, atClause, if_true, skip, change,
    attempt, attributeOf, embed, structural, Adapters.read_structural_attributes, read, pure_run]
  rfl

theorem unitHeader_rejected {name : Option Token} {clause : Token} {group : List Token}
    {mismatch : Reader.Mismatch} (structural : input.adapters = .structural)
    (same : state.cursor.rest = name.toList ++ clause :: group)
    (isName : ∀ token ∈ name, token.kind = .symbol) (isClause : clause.isWord "attributes" = true)
    (rejected : Reader.dictionary group = .error mismatch) (start : Cursor) :
    ∃ (header : ModuleHeader) (after : State), unitHeader start input state = (some header, after) ∧
      header.name = name.map (fun token => ⟨token.text, token.span⟩) ∧ header.attributes = none ∧
      after.cursor.rest = group ∧ after.halted = state.halted ∧
      after.diagnostics = state.diagnostics.push (after.rejection mismatch) := by
  rw [unitHeader_eq]
  cases name with
  | none =>
    have noName : state.cursor.atKind .symbol = false := by
      rw [Token.isWord, Bool.and_eq_true] at isClause
      rw [Cursor.atKind, Cursor.peek, same]
      change (clause.kind == .symbol) = false
      rw [beq_iff_eq.1 isClause.1]
      rfl
    change ∃ header after,
      (if state.cursor.atKind .symbol then _ else _ : Parser ModuleHeader) input state = _ ∧ _
    rw [noName]
    exact restOfHeader_rejected structural same isClause rejected start none
  | some name =>
    have next : state.cursor.peek = name := Cursor.peek_of_cons same
    have atName : state.cursor.atKind .symbol = true := by
      rw [Cursor.atKind, next, isName name rfl]
      rfl
    have behind : state.cursor.next.rest = clause :: group := Cursor.rest_next_of_cons same
    change ∃ header after,
      (if state.cursor.atKind .symbol then _ else _ : Parser ModuleHeader) input state = _ ∧ _
    rw [atName, next]
    exact @restOfHeader_rejected _ { state with cursor := state.cursor.next } _ _ _ structural
      behind isClause rejected start (some ⟨name.text, name.span⟩)

section Head

variable {tokens : List Token} (head : RejectedAttributes tokens)

/-- The brace of rejected attributes is taken for the brace of the module. -/
theorem sourceUnit_rejected (structural : input.adapters = .structural)
    (here : state.cursor.rest = tokens) :
    ∃ (header : ModuleHeader) (before entered : State),
      sourceUnit region input state =
        (items region true >>= fun ops => closeModule (some header, ops) head.opening)
          input entered ∧ header.name = head.name.map (fun token => ⟨token.text, token.span⟩) ∧
            header.attributes = none ∧
      entered.cursor.rest = head.inside ++ head.closing :: head.behind ∧ entered.halted =
        state.halted ∧ entered.diagnostics =
          state.diagnostics.push (before.rejection head.mismatch) := by
  have same := here.trans head.tokens_eq
  have atModule : state.cursor.atWord "module" = true := by
    rw [Cursor.atWord, Cursor.peek, same]
    exact head.isModule
  have behind : state.cursor.next.rest = head.name.toList ++ head.clause :: head.opening ::
      (head.inside ++ head.closing :: head.behind) :=
    Cursor.rest_next_of_cons same
  obtain ⟨header, after, run, named, attributes, rest, halted, rejected⟩ :=
    @unitHeader_rejected input { state with cursor := state.cursor.next } _ _ _ _ structural behind
      head.isName head.isClause head.rejected state.cursor
  have next : after.cursor.peek = head.opening := Cursor.peek_of_cons rest
  have brace : attempt (punct .leftBrace) input after =
      (some (some head.opening), { after with cursor := after.cursor.next }) := by
    rw [attempt, punct, satisfying_run, next, head.opens]
    rfl
  refine ⟨header, after, { after with cursor := after.cursor.next }, ?_, named, attributes, ?_,
    halted, rejected⟩
  · change (if state.cursor.atWord "module" then skip >>= _ else _ : Parser _) input state = _
    rw [if_pos atModule]
    change (unitHeader state.cursor >>= _) input { state with cursor := state.cursor.next } = _
    rw [bind_run, run]
    dsimp only
    rw [bind_run, brace]
    rfl
  · exact Cursor.rest_next_of_cons rest

/-- The group of rejected attributes is not empty, and it does not start with a closing brace. -/
theorem inside_eq_cons :
    ∃ first rest, head.inside = first :: rest ∧ first.isPunct .rightBrace = false := by
  have rejected := head.rejected
  have balanced := head.balanced
  cases inside : head.inside with
  | nil =>
    have empty : Reader.entries (head.closing :: head.behind) =
        .ok ⟨head.behind, Nat.lt_succ_self _⟩ := by
      rw [Reader.entries, head.closes]
      rfl
    rw [inside, Reader.dictionary, head.opens, List.nil_append, empty] at rejected
    cases rejected
  | cons first rest =>
    refine ⟨first, rest, rfl, ?_⟩
    cases closes : first.isPunct .rightBrace with
    | false => rfl
    | true =>
      have notOpening : first.isPunct .leftBrace = false := by
        rw [Token.isPunct, beq_iff_eq.1 closes]
        rfl
      rw [inside, closesBraces, notOpening, closes] at balanced
      cases balanced

/-- Somewhere inside of the group an error is reported. -/
theorem items_blame_inside (regions : InterruptibleWith.Regions region) {before : State}
    (live : state.halted = false)
    (visible : ∀ token ∈ head.inside, token.span.start ≤ token.span.stop)
    (same : state.cursor.rest = head.inside ++ head.closing :: head.behind)
    (reported : before.rejection head.mismatch ∈ state.diagnostics.items.toList) :
    ∃ token ∈ head.inside ++ [head.closing], (items region true input state).2.Blames token := by
  have steps : ∀ earlier, Traced (collectItem region true earlier) fun _ _ => True := fun earlier =>
    (InterruptibleWith.itemStep regions).traced.map fun _ _ _ => trivial
  have kept : ∀ {token : Token}, (itemStep region true input state).2.Blames token →
      (items region true input state).2.Blames token := by
    intro token blamed
    rw [items_eq, map_run]
    refine iterate_blames steps ?_
    rw [collectItem, map_run]
    exact blamed
  obtain ⟨first, rest, inside, notClosing⟩ := inside_eq_cons head
  rw [inside, List.cons_append] at same ⊢
  have firstVisible := visible first (inside ▸ List.mem_cons_self)
  cases declares : first.declares with
  | false =>
    exact ⟨first, List.mem_cons_self,
      kept (itemStep_blames_first live same firstVisible notClosing declares)⟩
  | true =>
    -- A function or a global is not named by a mark, and an entry of a dictionary goes on with one.
    obtain ⟨second, others, more, isSecond⟩ : ∃ second others,
        rest ++ head.closing :: head.behind = second :: others ∧ second ∈ rest ++
        [head.closing] := by
      cases rest with
      | nil => exact ⟨head.closing, head.behind, rfl, List.mem_cons_self⟩
      | cons second rest =>
        exact ⟨second, rest ++ head.closing :: head.behind, rfl, List.mem_cons_self⟩
    rw [more] at same
    by_cases isMark : ∃ mark, second.isPunct mark = true
    · obtain ⟨mark, isMark⟩ := isMark
      obtain ⟨token, member, blamed⟩ :=
        @itemStep_blames_second region input _ _ _ _ _ true live same firstVisible declares isMark
      refine ⟨token, ?_, kept blamed⟩
      rcases List.mem_pair.1 member with rfl | rfl
      · exact List.mem_cons_self
      · exact List.mem_cons_of_mem _ isSecond
    · have noMark : ∀ mark, second.isPunct mark = false := fun mark =>
        Bool.eq_false_iff.2 fun isMark' => isMark ⟨mark, isMark'⟩
      have isName : Reader.isEntryName first = true := by
        rw [Token.declares, Bool.and_eq_true] at declares
        rw [Reader.isEntryName, beq_iff_eq.1 declares.1]
        rfl
      have rejected := head.rejected
      rw [inside, List.cons_append, more] at rejected
      have left := dictionary_mismatch isName noMark head.opens rejected
      have span : (before.rejection head.mismatch).span = second.span := by
        rw [State.rejection, left]
        rfl
      refine ⟨second, List.mem_cons_of_mem _ isSecond,
        (InterruptibleWith.items regions).traced.blames ?_⟩
      exact ⟨_, reported, rfl, span ▸ Nat.le_refl _, span ▸ Nat.le_refl _⟩

end Head

end Parser

/-! ## Source units -/

/-- The text of a token of a group is inside of the braces of the group. -/
theorem RejectedAttributes.within {source : String}
    (head : RejectedAttributes (tokenize source).tokens) :
    ∀ token ∈ head.inside ++ [head.closing], head.opening.span.stop ≤ token.span.start ∧
      token.span.start ≤ token.span.stop ∧ token.span.stop ≤ head.closing.span.stop := by
  have group : head.opening :: (head.inside ++ [head.closing]) <:+: (tokenize source).tokens := by
    refine ⟨head.word :: (head.name.toList ++ [head.clause]), head.behind,
      Eq.trans ?_ head.tokens_eq.symm⟩
    simp
  obtain ⟨offset, ordered⟩ := Lexer.Ordered.infix (ordered_tokens source) group
  intro token member
  obtain ⟨later, single⟩ :=
    Lexer.Ordered.infix ordered.2.2 ((List.singleton_infix_iff _ _).2 member)
  exact ⟨ordered.2.2.start_le token member, single.2.1.le,
    ordered.2.2.stop_le_getLast List.getLast?_concat token member⟩

/-- If the attributes of a module are rejected, the module has no attributes and an error is
reported inside of their braces. The items are looked for in there: if there is no function and no
global, the module has no items, whatever comes behind. -/
theorem parse_rejectedAttributes (source : String) (options : Options)
    (head : RejectedAttributes (tokenize source).tokens) :
    (∃ diagnostic ∈ (parse source options).diagnostics, diagnostic.isError = true ∧
      head.opening.span.stop ≤ diagnostic.span.start ∧
        diagnostic.span.stop ≤ head.closing.span.stop) ∧
    (∃ header, (parse source options).unit.header = some header ∧ header.attributes = none ∧
      header.name = head.name.map fun token => ⟨token.text, token.span⟩) ∧
    ((∀ token ∈ head.inside, token.declares = false) → (parse source options).unit.items = []) := by
  have regions := Parser.InterruptibleWith.regionWithin options.maxDepth
  obtain ⟨header, before, entered, unit, named, attributes, inside, live, rejected⟩ :=
    @Parser.sourceUnit_rejected (Parser.regionWithin options.maxDepth)
      ⟨source.toList, options, .structural⟩ (Parser.initial (tokenize source)) _ head rfl rfl
  obtain ⟨ops, given⟩ :=
    @Parser.iterate_collectItem _ true regions [] ⟨source.toList, options, .structural⟩ entered
  have steady :=
    @Parser.InterruptibleWith.closeModule_steady _ false (some header, ops.reverse) head.opening
  -- The run is that of the items inside of the group, and the end of the module.
  cases items : Parser.items (Parser.regionWithin options.maxDepth) true
    ⟨source.toList, options, .structural⟩ entered with
  | mk outcome middle =>
    have collected : outcome = some ops.reverse := by
      have both := congrArg Prod.fst items
      rw [Parser.items_eq, Parser.map_run, given, List.append_nil] at both
      exact both.symm
    have run : Parser.run source options =
        (some (some header, ops.reverse),
          (Parser.closeModule (some header, ops.reverse) head.opening
            ⟨source.toList, options, .structural⟩ middle).2) := by
      rw [Parser.run, unit, Parser.bind_run, items, collected]
      dsimp only
      rw [Parser.closeModule_run]
    have unitRead : (parse source options).unit.header = some header ∧
        (parse source options).unit.items = ops.reverse := by
      unfold parse
      rw [run]
      exact ⟨rfl, rfl⟩
    refine ⟨?_, ⟨header, unitRead.1, attributes, named⟩, fun barren => ?_⟩
    · have reported : before.rejection head.mismatch ∈ entered.diagnostics.items.toList := by
        rw [rejected, Diagnostics.push, Array.toList_push]
        exact List.mem_append_right _ List.mem_cons_self
      have visible : ∀ token ∈ head.inside, token.span.start ≤ token.span.stop :=
        fun token member =>
        (head.within token (List.mem_append_left _ member)).2.1
      obtain ⟨token, member, blamed⟩ :=
        @Parser.items_blame_inside _ ⟨source.toList, options, .structural⟩ _ _ head regions
        _ live visible inside reported
      rw [items] at blamed
      obtain ⟨diagnostic, reported, isError, first, last⟩ :=
        @Parser.Traced.blames _ ⟨source.toList, options, .structural⟩ _ _ _ _ steady.traced blamed
      have place := head.within token member
      refine ⟨diagnostic, ?_, isError, place.1.trans first, last.trans place.2.2⟩
      rw [(parse_diagnostics_perm source options .structural).mem_iff, run]
      exact List.mem_append_left _ reported
    · rw [unitRead.2]
      have none := @Parser.iterate_collectItem_barren (Parser.regionWithin options.maxDepth)
        ⟨source.toList, options, .structural⟩ _ _ _ _ _ head.closes head.balanced barren [] inside
      rw [given, List.append_nil] at none
      rw [Option.some.inj none]
      rfl

/-- A module with a function, and attributes that are no dictionary. -/
def numberForAttributes : String :=
  "module @m attributes \x7b 1 \x7d \x7b cir.func @f() \x7d"

/-- Its head. -/
def numberForAttributes_head : RejectedAttributes (tokenize numberForAttributes).tokens where
  word := ⟨.identifier, "module", ⟨0, 6⟩⟩
  name := some ⟨.symbol, "@m", ⟨7, 9⟩⟩
  clause := ⟨.identifier, "attributes", ⟨10, 20⟩⟩
  opening := ⟨.punct .leftBrace, "\x7b", ⟨21, 22⟩⟩
  inside := [⟨.integer, "1", ⟨23, 24⟩⟩]
  closing := ⟨.punct .rightBrace, "\x7d", ⟨25, 26⟩⟩
  behind := (tokenize numberForAttributes).tokens.drop 6
  mismatch := ⟨"expected an attribute name, found `1`",
    (tokenize numberForAttributes).tokens.drop 4⟩
  tokens_eq := by cbv
  isModule := by decide
  isName := by simp
  isClause := by decide
  opens := rfl
  closes := rfl
  balanced := rfl
  rejected := by
    rw [Reader.dictionary]
    cbv

theorem parse_rejectedAttributes_number :
    (∀ token ∈ numberForAttributes_head.inside, token.declares = false) ∧
      (parse numberForAttributes {}).unit.items = [] := by
  have barren : ∀ token ∈ numberForAttributes_head.inside, token.declares = false := by
    intro token member
    rw [List.mem_singleton.1 member]
    rfl
  exact ⟨barren,
    (parse_rejectedAttributes numberForAttributes {} numberForAttributes_head).2.2 barren⟩

/-- Without the attributes the same module is read with its function and without diagnostics. -/
theorem rejectedAttributes_loseBody :
    (parse "module @m \x7b cir.func @f() \x7d" {}).diagnostics = [] ∧
      (parse "module @m \x7b cir.func @f() \x7d" {}).unit.items.map (·.opcode) = [.func] ∧
      Nonempty (RejectedAttributes (tokenize numberForAttributes).tokens) ∧
      (parse numberForAttributes {}).unit.items.map (·.opcode) = [] := by
  refine ⟨by cbv, by cbv, ⟨numberForAttributes_head⟩, by cbv⟩

end CirText
