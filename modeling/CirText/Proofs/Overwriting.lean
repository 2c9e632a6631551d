import CirText.Proofs.Detours
import CirText.Proofs.Roundtrip

/-!
# Junk in source texts

Junk that is put in the place of a gap between the tokens of a source text, an unknown operation
with all that belongs to it or other tokens at which no operation starts, is reported once. It
spoils nothing around it. The gap may be empty.
-/

namespace CirText

open CirText.Parser

namespace Text

theorem dropBytes?_append_right (front rest : List Char) (count : Nat) :
    dropBytes? (front ++ rest) (byteSize front + count) = dropBytes? rest count := by
  induction front with
  | nil => rw [byteSize, Nat.zero_add, List.nil_append]
  | cons c front ih =>
    obtain ⟨size, same⟩ := Nat.exists_eq_succ_of_ne_zero (Nat.ne_of_gt c.utf8Size_pos)
    rw [byteSize, same, Nat.succ_add, Nat.succ_add, List.cons_append, dropBytes?, same,
      if_pos (by omega), show size + byteSize front + count + 1 - size.succ =
      byteSize front + count by omega]
    exact ih

theorem slice_of_le (text : List Char) {start stop : Nat} (inOrder : stop ≤ start) :
    slice text start stop = [] := by
  rcases Nat.lt_or_eq_of_le inOrder with less | rfl
  · exact if_neg (Nat.not_le.2 less)
  · rw [slice, if_pos (Nat.le_refl _), Nat.sub_self]
    cases dropBytes? text stop with
    | none => rfl
    | some rest => cases rest <;> rfl

/-- A piece of the end of a text depends on its place in that end only. -/
theorem slice_append_right (front other tail : List Char) {start : Nat} (stop : Nat)
    (behind : byteSize front ≤ start) :
    slice (other ++ tail) (start - byteSize front + byteSize other)
      (stop - byteSize front + byteSize other) =
      slice (front ++ tail) start stop := by
  obtain ⟨first, rfl⟩ := Nat.exists_eq_add_of_le behind
  rw [Nat.add_sub_cancel_left, Nat.add_comm first]
  by_cases inside : byteSize front ≤ stop
  · obtain ⟨last, rfl⟩ := Nat.exists_eq_add_of_le inside
    rw [Nat.add_sub_cancel_left, Nat.add_comm last, slice, slice, dropBytes?_append_right,
      dropBytes?_append_right]
    simp only [Nat.add_le_add_iff_left, Nat.add_sub_add_left]
  · -- The piece ends in front of where it starts.
    rw [slice_of_le _ (by omega), slice_of_le _ (by omega)]

end Text

/-! ## Source texts across a detour -/

theorem hasErrors_of_nil {parsed : Parsed} (clean : parsed.diagnostics = []) :
    parsed.hasErrors = false := by
  rw [Parsed.hasErrors, clean]
  rfl

/-- Source units that are the same but for their places are the same modules without places. -/
theorem Parser.SameUnit.unplaced {unit : Module} {again : Option ModuleHeader × List Operation}
    {table : SymbolTable} (same : SameUnit (unit.header, unit.items) again)
    (symbols : table.unplaced = unit.symbols.unplaced) :
    Module.unplaced ⟨unit.sourceId, again.1, again.2, table⟩ = unit.unplaced := by
  rw [Module.unplaced, Module.unplaced, ← same.header,
    ← map_eq_of_forall₂ same.items fun _ _ => Operation.Matches.unplaced, symbols]

/-- Nothing in a source unit that is parsed without diagnostics is written in a deprecated form, if
warnings of these are wanted. -/
theorem calm_of_parse {source : String} {options : Options}
    (clean : (parse source options).diagnostics = []) :
    ∀ op ∈ (parse source options).unit.items, op.Calm options := by
  intro op member wanted
  have settles := parse_settles wanted (hasErrors_of_nil clean)
  rw [clean] at settles
  exact (Operation.deprecations_eq_nil wanted).1 settles.symm.eq_nil op member wanted

/-- If the items of a source text are read in another one as well, that is parsed as the same source
unit but for its places, with one diagnostic. -/
theorem Detour.parse_eq {detour : Detour} {source other : String} {taken : List Token}
    {header : Option ModuleHeader}
    {items : List Operation} {symbols : SymbolTable}
    (isSource : detour.ahead.source = source.toList)
    (isOther : detour.ahead.other = other.toList)
    (areTokens : detour.tokens = (tokenize source).tokens)
    (lexed : (tokenize other).errors = [])
    (begins : detour.Ahead taken (Stage.atStart source) (initial (tokenize other)))
    (reads : SourceReads detour.options.maxDepth source header items symbols)
    (straddles : ∀ {inside last : Stage},
      ItemsRead (RegionWithinReads detour.options.maxDepth) header.isSome detour.ahead.source
      inside items last → inside.rest <:+ detour.tokens → last.rest.length = header.toList.length →
          detour.Straddles
          (iterate (collectItem (Parser.regionWithin detour.options.maxDepth) header.isSome) [])
          inside last (Collects [] items)) :
    ∃ again table diagnostic, SameUnit (header, items) again ∧ table.unplaced = symbols.unplaced ∧
      detour.Reports diagnostic ∧
        parse other detour.options =
          ⟨⟨detour.options.sourceId, again.1, again.2, table⟩, [diagnostic]⟩ := by
  obtain ⟨_, after, reads, finished⟩ := reads
  obtain ⟨again, final, diagnostic, run, same, done, reports, reported⟩ :=
    runs_sourceUnit (isSource ▸ reads) (by rw [areTokens]; exact List.suffix_refl _)
    straddles begins
  have ran : Parser.run other detour.options = (some again, final) := by
    rw [Parser.run, ← run, Detour.input, isOther]
  obtain ⟨table, finishedAgain, sameTable⟩ :=
    Tracker.finish_of_unplaced done.follows.similar.tracker finished
  have initially : (initial (tokenize other)).diagnostics = {} := by
    rw [initial, lexed]
    rfl
  refine ⟨again, table, diagnostic, same, sameTable, reports, ?_⟩
  rw [parse, ran]
  dsimp only [Option.getD_some]
  rw [show final.tracker.finish = _ from finishedAgain, reported, initially]
  simp [Diagnostics.sorted, Diagnostics.append, Diagnostics.push]

/-! ## Texts with junk -/

/-- Junk, at which no operation starts, that is put in the place of a gap between the tokens of a
source text. -/
structure Overwriting where
  /-- The text in front of the gap. -/
  left : List Char
  /-- The gap. -/
  gap : List Char
  /-- The text of the junk. -/
  words : List Char
  /-- The text behind the gap. -/
  right : List Char
  /-- The tokens in front of the gap. -/
  front : List Token
  /-- The first token of the junk. -/
  refused : Token
  /-- The other tokens of the junk. -/
  junk : List Token
  /-- The tokens behind the gap. -/
  back : List Token
  lexed : (tokenize (.ofList (left ++ words ++ right))).errors = []
  here : (tokenize (.ofList (left ++ gap ++ right))).tokens = front ++ back
  there : (tokenize (.ofList (left ++ words ++ right))).tokens =
    front ++ refused ::
    (junk ++ back.map (.move (Text.byteSize (left ++ gap)) (Text.byteSize (left ++ words))))
  inLeft : ∀ token ∈ front, token.span.stop ≤ Text.byteSize left
  inRight : ∀ token ∈ back, Text.byteSize (left ++ gap) ≤ token.span.start
  refuses : Parser.refuses refused = true
  isJunk : CirText.isJunk 0 junk = true

namespace Overwriting

variable (texts : Overwriting)

/-- The text with the gap. -/
def source : String :=
  .ofList (texts.left ++ texts.gap ++ texts.right)

/-- The text with the junk. -/
def other : String :=
  .ofList (texts.left ++ texts.words ++ texts.right)

theorem toList_source : texts.source.toList = texts.left ++ texts.gap ++ texts.right :=
  String.toList_ofList

theorem toList_other : texts.other.toList = texts.left ++ texts.words ++ texts.right :=
  String.toList_ofList

/-- The tokens behind the junk. -/
def rest : List Token :=
  texts.back.map
    (.move (Text.byteSize (texts.left ++ texts.gap)) (Text.byteSize (texts.left ++ texts.words)))

/-- The texts part behind what they share, in front of an opening brace or of the junk. -/
def fork {opening : List Token}
    (turns : Turns (opening ++ texts.back)
      (opening ++ texts.refused :: (texts.junk ++ texts.rest))) : Fork where
  source := texts.source.toList
  other := texts.other.toList
  behind := opening ++ texts.back
  beyond := opening ++ texts.refused :: (texts.junk ++ texts.rest)
  start := 0
  stop := Text.byteSize texts.left
  origin := 0
  extra := 0
  slices span _ within := by
    rw [Span.slice, Span.slice, toList_source, toList_other, List.append_assoc, List.append_assoc,
      Text.slice_append_left _ within, Text.slice_append_left _ within]
  turns

/-- The texts are the same but for the junk. -/
def detour {options : Options}
    (never : ∀ types attributes, options.cancellation.isSet types attributes = false)
    (clean : (tokenize texts.source).errors = []) {shared opening : List Token}
    (split : texts.front = shared ++ opening)
    (opens : opening = [] ∨ ∃ brace, brace.isPunct .leftBrace = true ∧ opening = [brace])
    (turns : Turns (opening ++ texts.back)
      (opening ++ texts.refused :: (texts.junk ++ texts.rest))) : Detour where
  ahead := texts.fork turns
  tokens := (tokenize texts.source).tokens
  options
  first := .ofTokenized (tokenize texts.other) 0
  opening
  refused := texts.refused
  junk := texts.junk
  left := texts.back
  origin := Text.byteSize (texts.left ++ texts.gap)
  target := Text.byteSize (texts.left ++ texts.words)
  behind := rfl
  beyond := rfl
  opens
  refuses := texts.refuses
  isJunk := texts.isJunk
  ordered := ordered_tokens texts.source
  ends := ⟨shared, by rw [source, texts.here, split, List.append_assoc]; rfl⟩
  braces token member isBrace := by
    have isMark : token.kind = .punct .rightBrace := beq_iff_eq.1 isBrace
    have written := lexed_of_mem clean member
    rw [isMark] at written
    rw [stop_of_mem clean member, written.punct]
    rfl
  within := texts.inRight
  slices span starts := by
    change Text.slice texts.other.toList _ _ = Text.slice texts.source.toList _ _
    rw [toList_source, toList_other]
    exact Text.slice_append_right _ _ texts.right span.stop starts
  never

/-- At their start, the texts are at the same place. -/
theorem begins {options : Options}
    (never : ∀ types attributes, options.cancellation.isSet types attributes = false)
    (clean : (tokenize texts.source).errors = []) {shared opening : List Token}
    (split : texts.front = shared ++ opening)
    (opens : opening = [] ∨ ∃ brace, brace.isPunct .leftBrace = true ∧ opening = [brace])
    (turns : Turns (opening ++ texts.back)
      (opening ++ texts.refused :: (texts.junk ++ texts.rest))) :
    (texts.detour never clean split opens turns).Ahead shared (Stage.atStart texts.source)
      (initial (tokenize texts.other)) where
  abreast :=
    { here := by
        change (tokenize texts.source).tokens = shared ++ (opening ++ texts.back)
        rw [source, texts.here, split, List.append_assoc]
      there := by
        change (tokenize texts.other).tokens = shared ++ (opening ++ _)
        rw [other, texts.there, split, List.append_assoc]
        rfl
      within := fun token member => by
        refine ⟨Nat.zero_le _, texts.inLeft token ?_⟩
        rw [split]
        exact List.mem_append_left _ member
      reached := Nat.zero_le _
      position := rfl
      last := fun _ => rfl
      tracker := rfl
      nextId := rfl }
  live := ⟨rfl, .refl _⟩

end Overwriting

/-! ## Unknown operations -/

/-- Whether the last tokens of a source unit start where an operation may be put in. -/
inductive Module.Boundary (unit : Module) (tokens : List Token) : List Token → Prop where
  /-- In front of an operation or a header in a region, or of its closing brace. The types in the
  headers of the region before that have their parentheses in pairs. -/
  | inRegion {region : Region Operation} {token : Token} {back : List Token}
      (member : region ∈ unit.allRegions)
      (starts : token.span.start ∈ region.boundaries)
      (pairs : ∀ block ∈ region.blocks, block.span.start < token.span.start →
        block.PairsParens tokens) : Boundary unit tokens (token :: back)
  /-- In front of an item. -/
  | item {op : Operation} {token : Token} {back : List Token} (member : op ∈ unit.items)
      (starts : token.span.start = op.span.start) : Boundary unit tokens (token :: back)
  /-- Behind the last item. -/
  | last {back : List Token} (ends : back.length = unit.header.toList.length) :
      Boundary unit tokens back

/-- The items are read in both texts if an unknown operation and the junk stand where an operation
may be put in. -/
theorem Detour.straddles_of_boundary {detour : Detour} {unit : Module} {text : List Char}
    {levels : Nat} {braced : Bool}
    {inside last : Stage} (placed : detour.first.Placed text) (plain : detour.opening = [])
    (isKeyword : detour.refused.kind = .keyword)
    (boundary : unit.Boundary detour.tokens detour.left)
    (reads : ItemsRead (RegionWithinReads levels) braced detour.ahead.source inside unit.items last)
    (within : inside.rest <:+ detour.tokens) (ends : last.rest.length = unit.header.toList.length)
    (calm : ∀ op ∈ unit.items, op.Calm detour.options) :
    detour.Straddles (iterate (collectItem (Parser.regionWithin levels) braced) []) inside last
      (Collects [] unit.items) := by
  have regions : detour.Regions (Parser.regionWithin levels) (RegionWithinReads levels)
      (Region.Holds fun _ => False) :=
    Detour.regionWithin placed (fun _ _ _ _ _ _ _ _ holds => holds.elim) levels
  have leftIn : detour.left <:+ detour.tokens := by
    have ends := detour.ends
    rwa [detour.behind, plain] at ends
  generalize isLeft : detour.left = left at boundary leftIn
  cases boundary with
  | @inRegion region token back member starts pairs =>
    have place : detour.left.head?.map (·.span.start) = some token.span.start := by
      rw [isLeft]
      rfl
    refine straddles_items_within (regions_boundary placed plain place levels) reads
      within calm ?_ []
    exact Module.exists_allRegions_iff.1 ⟨region, member, starts, pairs⟩
  | @item op token back member starts =>
    refine straddles_items_own regions plain isKeyword reads within calm (.inr ⟨op, member, ?_⟩) []
    rw [isLeft, ← starts]
    rfl
  | last same =>
    have toLast := (Means.items (Means.regionWithin levels) braced).leads _ _ _ _ reads
    have lastIn : last.rest <:+ detour.tokens := toLast.suffix.trans within
    have size : last.rest.length = left.length := ends.trans same.symm
    have behind : last.rest = detour.left := by
      rw [isLeft]
      exact (List.suffix_of_suffix_length_le lastIn leftIn size.le).eq_of_length size
    exact straddles_items_own regions plain isKeyword reads within calm (.inl behind) []

/-- An unknown operation that is put in where an operation may stand, with any tokens behind it
whose braces are in pairs and among which no operation or block starts outside of braces, is
reported once and changes nothing else. -/
theorem parse_unknownOperation {texts : Overwriting} {options : Options}
    (never : ∀ types attributes, options.cancellation.isSet types attributes = false)
    (clean : (parse texts.source options).diagnostics = [])
    (isKeyword : texts.refused.kind = .keyword)
    (follows : FollowsOperation texts.back)
    (boundary : (parse texts.source options).unit.Boundary (tokenize texts.source).tokens
      texts.back) :
    (parse texts.other options).unit.unplaced = (parse texts.source options).unit.unplaced ∧
      (parse texts.other options).diagnostics =
        [.error (.unknownOpcode texts.refused.text) texts.refused.span] := by
  have reads := parse_reads (hasErrors_of_nil clean)
  have turns : Turns ([] ++ texts.back) ([] ++ texts.refused :: (texts.junk ++ texts.rest)) := by
    refine .operation follows ?_
    rintro _ ⟨⟩
    simp [isKeyword]
  have split : texts.front = texts.front ++ [] := (List.append_nil _).symm
  let detour := texts.detour never reads.1 split (.inl rfl) turns
  have begins : detour.Ahead texts.front (Stage.atStart texts.source)
      (initial (tokenize texts.other)) :=
    texts.begins never reads.1 split (.inl rfl) turns
  obtain ⟨again, table, diagnostic, same, symbols, reports, parsed⟩ :=
    Detour.parse_eq rfl rfl rfl texts.lexed begins reads fun items within ends =>
      Detour.straddles_of_boundary (Cursor.placed_start texts.other) rfl isKeyword boundary
        items within ends (calm_of_parse clean)
  obtain rfl := reports.unknown isKeyword
  have parsed : parse texts.other options = _ := parsed
  rw [parsed]
  exact ⟨same.unplaced symbols, rfl⟩

/-- An unknown operation with a region, in front of the return of a function. -/
def unknownBeforeReturn : Overwriting where
  left := "cir.func @f() \x7b ^bb(%a : !t): ".toList
  gap := []
  words := "cir.zzz , { cir.x ] } ".toList
  right := "cir.return %a : !t \x7d".toList
  front := (tokenize "cir.func @f() \x7b ^bb(%a : !t): ").tokens
  refused := ⟨.keyword, "cir.zzz", ⟨30, 37⟩⟩
  junk := ((tokenize "cir.func @f() \x7b ^bb(%a : !t): cir.zzz , \x7b cir.x ] \x7d").tokens.drop
    13).take 5
  back := (tokenize "cir.func @f() { ^bb(%a : !t): cir.return %a : !t }").tokens.drop 12
  lexed := by cbv
  here := by cbv
  there := by cbv
  inLeft := by
    have all : (tokenize "cir.func @f() \x7b ^bb(%a : !t): ").tokens.all
        (·.span.stop ≤ Text.byteSize "cir.func @f() \x7b ^bb(%a : !t): ".toList) = true := by
      cbv
    exact fun token member => of_decide_eq_true (List.all_eq_true.1 all token member)
  inRight := by
    have all : ((tokenize "cir.func @f() { ^bb(%a : !t): cir.return %a : !t }").tokens.drop 12).all
        (30 ≤ ·.span.start) = true := by
      cbv
    exact fun token member => of_decide_eq_true (List.all_eq_true.1 all token member)
  refuses := by cbv
  isJunk := by cbv

theorem unknownBeforeReturn_back : ∃ rest, unknownBeforeReturn.back =
    ⟨.keyword, "cir.return", ⟨30, 40⟩⟩ :: rest :=
  ⟨_, by cbv⟩

theorem unknownBeforeReturn_boundary : (parse unknownBeforeReturn.source {}).unit.Boundary
    (tokenize unknownBeforeReturn.source).tokens unknownBeforeReturn.back := by
  obtain ⟨rest, starts⟩ := unknownBeforeReturn_back
  have found : ((parse unknownBeforeReturn.source {}).unit.allRegions.any fun region =>
      region.boundaries.contains 30 && region.blocks.all fun block => block.args.all fun arg =>
        pairsParens 0 (arg.type.span.tokens (tokenize unknownBeforeReturn.source).tokens)) =
          true := by
    cbv
  obtain ⟨region, member, found⟩ := List.any_eq_true.1 found
  obtain ⟨boundary, pairs⟩ := Bool.and_eq_true_iff.1 found
  rw [starts]
  refine .inRegion member (List.contains_iff_mem.1 boundary) fun block inRegion _ arg inBlock => ?_
  exact List.all_eq_true.1 (List.all_eq_true.1 pairs block inRegion) arg inBlock

/-- The function is parsed as without the unknown operation, which is reported. -/
theorem parse_unknownOperation_beforeReturn :
    (parse unknownBeforeReturn.source {}).diagnostics = [] ∧
      (parse unknownBeforeReturn.other {}).unit.unplaced =
        (parse unknownBeforeReturn.source {}).unit.unplaced ∧
        (parse unknownBeforeReturn.other {}).diagnostics =
          [.error (.unknownOpcode "cir.zzz") ⟨30, 37⟩] := by
  have clean : (parse unknownBeforeReturn.source {}).diagnostics = [] := by cbv
  obtain ⟨rest, starts⟩ := unknownBeforeReturn_back
  have starts : StartsOperation unknownBeforeReturn.back := ⟨_, rest, starts, .inl rfl⟩
  exact ⟨clean, parse_unknownOperation (fun _ _ => rfl) clean rfl starts.follows
    unknownBeforeReturn_boundary⟩

/-! ## Other tokens -/

/-- Tokens at which no operation starts, whose braces are in pairs and among which no operation or
block starts outside of braces, are reported once where they are put in behind the opening brace of
a region, and change nothing else. -/
theorem parse_strayTokens {texts : Overwriting} {options : Options}
    (never : ∀ types attributes, options.cancellation.isSet types attributes = false)
    (clean : (parse texts.source options).diagnostics = []) {shared : List Token} {brace : Token}
    (split : texts.front = shared ++ [brace]) (isBrace : brace.isPunct .leftBrace = true)
    (opens : ∃ region ∈ (parse texts.source options).unit.allRegions,
      region.span.start = brace.span.start) :
    (parse texts.other options).unit.unplaced = (parse texts.source options).unit.unplaced ∧
      ∃ diagnostic, (parse texts.other options).diagnostics = [diagnostic] ∧
        diagnostic.span = texts.refused.span := by
  have reads := parse_reads (hasErrors_of_nil clean)
  have turns : Turns ([brace] ++ texts.back)
      ([brace] ++ texts.refused :: (texts.junk ++ texts.rest)) :=
    .brace isBrace isBrace
  let detour := texts.detour never reads.1 split (.inr ⟨brace, isBrace, rfl⟩) turns
  have begins : detour.Ahead shared (Stage.atStart texts.source) (initial (tokenize texts.other)) :=
    texts.begins never reads.1 split (.inr ⟨brace, isBrace, rfl⟩) turns
  have regions : detour.Regions (regionWithin options.maxDepth) (RegionWithinReads options.maxDepth)
      (Region.Holds fun region => region.span.start = brace.span.start) :=
    Detour.regions_start (Cursor.placed_start texts.other) rfl options.maxDepth
  obtain ⟨again, table, diagnostic, same, symbols, reports, parsed⟩ :=
    Detour.parse_eq rfl rfl rfl texts.lexed begins reads fun items within _ =>
      Detour.straddles_items_within regions items within (calm_of_parse clean)
        (Module.exists_allRegions_iff.1 opens) []
  have parsed : parse texts.other options = _ := parsed
  rw [parsed]
  exact ⟨same.unplaced symbols, diagnostic, rfl, reports.span⟩

/-- Tokens of a list that is left open, with a region behind them, at the start of the body of a
function. -/
def strayAtStart : Overwriting where
  left := "cir.func @f() \x7b".toList
  gap := []
  words := ", [ { %x } ".toList
  right := " cir.return \x7d".toList
  front := (tokenize "cir.func @f() \x7b").tokens
  refused := ⟨.punct .comma, ",", ⟨15, 16⟩⟩
  junk := ((tokenize "cir.func @f() \x7b, [ \x7b %x \x7d").tokens.drop 6).take 4
  back := (tokenize "cir.func @f() { cir.return }").tokens.drop 5
  lexed := by cbv
  here := by cbv
  there := by cbv
  inLeft := by
    have all : (tokenize "cir.func @f() \x7b").tokens.all
        (·.span.stop ≤ Text.byteSize "cir.func @f() \x7b".toList) = true := by
      cbv
    exact fun token member => of_decide_eq_true (List.all_eq_true.1 all token member)
  inRight := by
    have all : ((tokenize "cir.func @f() { cir.return }").tokens.drop 5).all (15 ≤ ·.span.start) =
        true := by
      cbv
    exact fun token member => of_decide_eq_true (List.all_eq_true.1 all token member)
  refuses := by cbv
  isJunk := by cbv

/-- The function is parsed as without these tokens, of which the first one is reported. -/
theorem parse_strayTokens_atStart :
    (parse strayAtStart.source {}).diagnostics = [] ∧
      (parse strayAtStart.other {}).unit.unplaced = (parse strayAtStart.source {}).unit.unplaced ∧
        ∃ diagnostic, (parse strayAtStart.other {}).diagnostics = [diagnostic] ∧ diagnostic.span =
          ⟨15, 16⟩ := by
  have clean : (parse strayAtStart.source {}).diagnostics = [] := by cbv
  obtain ⟨shared, split⟩ : ∃ shared, strayAtStart.front =
      shared ++ [⟨.punct .leftBrace, "\x7b", ⟨14, 15⟩⟩] :=
    ⟨(tokenize "cir.func @f()").tokens, by cbv⟩
  have opens : ((parse strayAtStart.source {}).unit.allRegions.any (·.span.start == 14)) =
      true := by cbv
  obtain ⟨region, member, starts⟩ := List.any_eq_true.1 opens
  exact ⟨clean, parse_strayTokens (fun _ _ => rfl) clean split rfl ⟨region, member,
    beq_iff_eq.1 starts⟩⟩

end CirText
