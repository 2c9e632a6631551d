import CirText.Proofs.Parser.ModifierRuns
import CirText.Proofs.Reread.Tables
import CirText.Grammar.Print
import Mathlib

/-!
# Modifiers in any order

At each place where the grammar has modifiers, a run of them is read as a whole. The first one in a
slot counts, and each later one is reported. If no slot repeats, the order does not matter: the
modifiers in another order are read as the same record and printed as the same text.
-/

namespace CirText

/-! ## The places of modifiers -/

/-- The places at which the grammar has modifiers. -/
inductive ModifierPlace where
  | beforeFunctionName
  | afterFunctionSignature
  | afterCall
  | afterTryCall
  | ofMemoryAccess
  | beforeGlobalName
deriving DecidableEq, Repr

namespace ModifierPlace

/-- What the modifiers at a place are collected into. -/
def Record : ModifierPlace → Type
  | beforeFunctionName => FunctionModifiers
  | afterFunctionSignature => FunctionTraits
  | afterCall | afterTryCall => CallModifiers
  | ofMemoryAccess => AccessFlags
  | beforeGlobalName => GlobalModifiers

/-- The modifiers that may come at a place. -/
def table : (place : ModifierPlace) → ModifierTable place.Record
  | beforeFunctionName => .beforeFunctionName
  | afterFunctionSignature => .afterFunctionSignature
  | afterCall => .afterCall
  | afterTryCall => .afterTryCall
  | ofMemoryAccess => .ofMemoryAccess
  | beforeGlobalName => .beforeGlobalName

/-- A record without its places in the text. -/
def unplaced : (place : ModifierPlace) → place.Record → place.Record
  | beforeFunctionName => id
  | afterFunctionSignature => FunctionTraits.unplaced
  | afterCall | afterTryCall => CallModifiers.unplaced
  | ofMemoryAccess => AccessFlags.unplaced
  | beforeGlobalName => GlobalModifiers.unplaced

/-- The parser of the modifiers at a place. -/
def parser (place : ModifierPlace) : Parser place.Record :=
  place.table.collect <$> Parser.modifierRun place.table.rules

/-- Where the grammar has the modifiers of a place, they are read by that parser. -/
theorem parse_modifierRun {R : Type} (place : ModifierPlace) (start : Cursor)
    (region : RegionKind → Bool → Parser R) :
    (Grammar.modifierRun place.table).parse start region = place.parser :=
  rfl

/-- The text of the modifiers of a record. -/
def print (place : ModifierPlace) (record : place.Record) : Layout :=
  (place.table.list record).flatMap Modifier.print

/-- Where the grammar has the modifiers of a place, they are printed as that text. -/
theorem print_modifierRun {R : Type} (place : ModifierPlace) (region : R → Layout)
    (record : place.Record) :
    (Grammar.modifierRun place.table).print region record = place.print record :=
  rfl

/-- The record of a run of modifiers. -/
def record (place : ModifierPlace) (run : List WrittenModifier) : place.Record :=
  place.table.collect (WrittenModifier.kept run)

theorem lawful (place : ModifierPlace) : place.table.Lawful := by
  cases place with
  | beforeFunctionName => exact ModifierTable.beforeFunctionName_lawful
  | afterFunctionSignature => exact ModifierTable.afterFunctionSignature_lawful
  | afterCall => exact ModifierTable.afterCall_lawful
  | afterTryCall => exact ModifierTable.afterTryCall_lawful
  | ofMemoryAccess => exact ModifierTable.ofMemoryAccess_lawful
  | beforeGlobalName => exact ModifierTable.beforeGlobalName_lawful

theorem stable (place : ModifierPlace) : place.table.Stable place.unplaced := by
  cases place with
  | beforeFunctionName => exact ModifierTable.beforeFunctionName_stable
  | afterFunctionSignature => exact ModifierTable.afterFunctionSignature_stable
  | afterCall => exact ModifierTable.afterCall_stable
  | afterTryCall => exact ModifierTable.afterTryCall_stable
  | ofMemoryAccess => exact ModifierTable.ofMemoryAccess_stable
  | beforeGlobalName => exact ModifierTable.beforeGlobalName_stable

theorem plain (place : ModifierPlace) : Parser.Plain place.table.rules := by
  constructor
  · cases place <;> decide
  · cases place <;> decide

end ModifierPlace

/-! ## Reordering a run -/

/-- Where only one entry is searched for, the order does not matter. -/
theorem find?_eq_of_perm {α : Type} {p : α → Bool} {items others : List α}
    (perm : items.Perm others)
    (only : ∀ a ∈ items, ∀ b ∈ items, p a = true → p b = true → a = b) :
    items.find? p = others.find? p := by
  cases found : others.find? p with
  | none =>
    rw [List.find?_eq_none] at found ⊢
    exact fun a member => found a (perm.mem_iff.1 member)
  | some b =>
    have member := perm.mem_iff.2 (List.mem_of_find?_eq_some found)
    cases first : items.find? p with
    | none => exact absurd (List.find?_some found) (List.find?_eq_none.1 first b member)
    | some a =>
      exact congrArg some (only a (List.mem_of_find?_eq_some first) b member (List.find?_some first)
        (List.find?_some found))

namespace ModifierTable

variable {rules : List ModifierRule} {modifiers others : List Modifier}

/-- A slot of a run is filled by one modifier. -/
theorem Run.eq_of_slot (run : Run rules modifiers) {left right : Modifier}
    (inLeft : left ∈ modifiers)
    (inRight : right ∈ modifiers) (same : left.rule.slot = right.rule.slot) : left = right :=
  List.inj_on_of_nodup_map run.distinct inLeft inRight same

theorem Run.filling?_perm (run : Run rules modifiers) (perm : modifiers.Perm others)
    (slot : String) : filling? modifiers slot = filling? others slot :=
  find?_eq_of_perm perm fun _ inLeft _ inRight left right =>
    run.eq_of_slot inLeft inRight ((beq_iff_eq.1 left).trans (beq_iff_eq.1 right).symm)

theorem Run.get?_perm (run : Run rules modifiers) (plain : Parser.Plain rules)
    (perm : modifiers.Perm others) (keyword : String) :
    get? modifiers keyword = get? others keyword := by
  refine find?_eq_of_perm perm fun left inLeft right inRight atLeft atRight => ?_
  have same : left.rule = right.rule :=
    List.inj_on_of_nodup_map plain.keywords (run.fits left inLeft).1 (run.fits right inRight).1
      ((beq_iff_eq.1 atLeft).trans (beq_iff_eq.1 atRight).symm)
  exact run.eq_of_slot inLeft inRight (congrArg ModifierRule.slot same)

end ModifierTable

theorem Modifier.Fits.unplaced {modifier : Modifier} (fits : modifier.Fits) :
    modifier.unplaced.Fits := by
  obtain ⟨rule, _ | argument⟩ := modifier
  · exact fits
  · unfold Modifier.Fits Modifier.unplaced at *
    cases form : rule.argument with
    | none => rw [form] at fits; exact fits
    | some form' =>
      rw [form] at fits
      obtain ⟨kind, _, _⟩ := form'
      cases argument <;> cases kind <;> exact fits

/-- Without its places a run is a run. -/
theorem ModifierTable.Run.unplaced {rules : List ModifierRule} {modifiers : List Modifier}
    (run : Run rules modifiers) : Run rules (modifiers.map Modifier.unplaced) where
  fits modifier member := by
    obtain ⟨placed, inside, rfl⟩ := List.mem_map.1 member
    exact ⟨(run.fits placed inside).1, (run.fits placed inside).2.unplaced⟩
  distinct := by
    rw [List.map_map]
    exact run.distinct

theorem Argument.text_unplaced (argument : Argument) : argument.unplaced.text = argument.text := by
  cases argument <;> rfl

theorem Modifier.print_unplaced (modifier : Modifier) :
    modifier.unplaced.print = modifier.print := by
  obtain ⟨rule, _ | argument⟩ := modifier
  · rfl
  · cases form : rule.argument with
    | none => simp only [Modifier.print, Modifier.unplaced, Option.map_some, form]
    | some form' =>
      simp only [Modifier.print, Modifier.unplaced, Option.map_some, form, argument.text_unplaced]

namespace ModifierPlace

/-- A record is made of what is found for keywords and in slots. -/
theorem collect_congr (place : ModifierPlace) {modifiers others : List Modifier}
    (keywords : ∀ keyword, ModifierTable.get? modifiers keyword = ModifierTable.get? others keyword)
    (slots : ∀ slot, ModifierTable.filling? modifiers slot = ModifierTable.filling? others slot) :
    place.table.collect modifiers = place.table.collect others := by
  have lexemes : ∀ keyword, ModifierTable.lexeme? modifiers keyword =
      ModifierTable.lexeme? others keyword := by
    intro keyword
    rw [ModifierTable.lexeme?, ModifierTable.lexeme?, keywords]
  have attributes : ∀ keyword,
      ModifierTable.attribute? modifiers keyword = ModifierTable.attribute? others keyword := by
    intro keyword
    rw [ModifierTable.attribute?, ModifierTable.attribute?, keywords]
  have linkages : ModifierTable.linkage? modifiers = ModifierTable.linkage? others := by
    rw [ModifierTable.linkage?, ModifierTable.linkage?, slots]
  cases place with
  | beforeFunctionName =>
    simp only [table, ModifierTable.beforeFunctionName, ModifierTable.has, keywords, linkages]
    rfl
  | afterFunctionSignature =>
    simp only [table, ModifierTable.afterFunctionSignature, ModifierTable.symbol?,
      ModifierTable.lexemeIfGiven?,
      keywords, lexemes, attributes]
    rfl
  | afterCall =>
    simp only [table, ModifierTable.afterCall, ModifierTable.collectCall, lexemes, attributes]
    rfl
  | afterTryCall =>
    simp only [table, ModifierTable.afterTryCall, ModifierTable.collectCall, lexemes, attributes]
    rfl
  | ofMemoryAccess =>
    simp only [table, ModifierTable.ofMemoryAccess, ModifierTable.has, keywords, lexemes]
    rfl
  | beforeGlobalName =>
    simp only [table, ModifierTable.beforeGlobalName, ModifierTable.has,
      ModifierTable.addressSpace?,
      ModifierTable.tls?, keywords, lexemes, slots, linkages]
    rfl

/-- The same modifiers in another order, and at other places in the text, are collected into the
same record. -/
theorem unplaced_collect_perm (place : ModifierPlace) {modifiers others : List Modifier}
    (run : ModifierTable.Run place.table.rules modifiers)
    (perm : (modifiers.map Modifier.unplaced).Perm (others.map Modifier.unplaced)) :
    place.unplaced (place.table.collect modifiers) =
      place.unplaced (place.table.collect others) := by
  have same : place.table.collect (modifiers.map Modifier.unplaced) =
      place.table.collect (others.map Modifier.unplaced) :=
    place.collect_congr (run.unplaced.get?_perm place.plain perm) (run.unplaced.filling?_perm perm)
  rw [← place.stable.collect_unplaced, ← place.stable.collect_unplaced, same]

/-- Records that are the same but for their places are printed alike. -/
theorem print_of_unplaced (place : ModifierPlace) {record other : place.Record}
    (same : place.unplaced record = place.unplaced other) :
    place.print record = place.print other := by
  have each : ∀ record, place.print record = place.print (place.unplaced record) := by
    intro record
    rw [print, print, place.stable.list_unplaced, List.flatMap_map]
    exact List.flatMap_congr fun modifier _ => modifier.print_unplaced.symm
  rw [each, each other, same]

/-- Whether what a parser has in front of it is a run of complete modifiers, and nothing that could
be more of it. -/
structure Faces (place : ModifierPlace) (input : Parser.Input) (state : Parser.State)
    (run : List WrittenModifier) (behind : List Token) : Prop where
  structural : input.adapters = .structural
  complete : ∀ written ∈ run, written.Complete place.table.rules input.source state.tracker.scope
  here : state.cursor.rest = run.flatMap (·.tokens) ++ behind
  closed : Parser.Closed place.table.rules behind

variable {place : ModifierPlace} {input otherInput : Parser.Input} {state otherState : Parser.State}
  {run other : List WrittenModifier} {behind otherBehind : List Token}

/-- A run of complete modifiers is read up to what is behind it. -/
theorem Faces.parser_run (faces : place.Faces input state run behind) :
    ∃ after, place.parser input state = (some (place.record run), after) ∧
      after.cursor = state.cursor.advance (run.flatMap (·.tokens)).length ∧
        after.cursor.rest = behind ∧
      after.diagnostics =
        state.diagnostics.append
          (Parser.repetitions state.construct (WrittenModifier.repeated run)) := by
  obtain ⟨after, moves, read⟩ :=
    @Parser.iterate_modifierStep _ _ _ _ faces.structural place.plain [] _ [] faces.complete
    faces.here faces.closed fun _ => rfl
  refine ⟨after, ?_, moves.cursor, ?_, moves.diagnostics⟩
  · rw [parser, Parser.map_run, Parser.modifierRun_eq, read]
    rfl
  · rw [moves.cursor, Cursor.rest_advance, faces.here, List.drop_left]

/-- What a record keeps of a slot is the first modifier that fills it. -/
theorem Faces.filling?_record (faces : place.Faces input state run behind) (slot : String) :
    ModifierTable.filling? (place.table.list (place.record run)) slot =
      (run.find? (·.slot == slot)).map (·.modifier) := by
  have kept := WrittenModifier.run_kept faces.complete
  rw [← WrittenModifier.filling?_kept]
  exact (kept.filling?_perm (place.lawful _ kept).symm slot).symm

/-- Modifiers that are the same but for their order and their places fill the same slots. -/
theorem nodup_slots_of_perm (distinct : (run.map (·.slot)).Nodup)
    (perm : (other.map (·.modifier.unplaced)).Perm (run.map (·.modifier.unplaced))) :
    (other.map (·.slot)).Nodup := by
  have slots := perm.map (·.rule.slot)
  rw [List.map_map, List.map_map] at slots
  exact slots.nodup_iff.2 distinct

/-- At every place, a run of complete modifiers is read up to what is behind it. In each slot the
first one of the run counts, and the others are reported, each once and where it stands. If no slot
repeats, the same modifiers in any order, wherever they stand, are read without a report as the same
record but for its places, and are printed as the same text. -/
theorem modifiers_inAnyOrder (faces : place.Faces input state run behind) :
    (∃ after, place.parser input state = (some (place.record run), after) ∧
      after.cursor = state.cursor.advance (run.flatMap (·.tokens)).length ∧
        after.cursor.rest = behind ∧
      after.diagnostics =
        state.diagnostics.append
          (Parser.repetitions state.construct (WrittenModifier.repeated run))) ∧
    (∀ slot, ModifierTable.filling? (place.table.list (place.record run)) slot =
      (run.find? (·.slot == slot)).map (·.modifier)) ∧
    (WrittenModifier.firsts run ++ (WrittenModifier.repeated run).map Prod.snd).Perm run ∧
    ((run.map (·.slot)).Nodup →
      ∀ {otherInput otherState other otherBehind},
        place.Faces otherInput otherState other otherBehind →
        (other.map (·.modifier.unplaced)).Perm (run.map (·.modifier.unplaced)) →
        (∃ after, place.parser otherInput otherState = (some (place.record other), after) ∧
          after.diagnostics = otherState.diagnostics) ∧
        place.unplaced (place.record other) = place.unplaced (place.record run) ∧
        place.print (place.record other) = place.print (place.record run)) := by
  refine ⟨faces.parser_run, faces.filling?_record,
    WrittenModifier.firstsAfter_append_repeatsAfter [] run, ?_⟩
  intro distinct otherInput otherState other otherBehind otherFaces perm
  have all := WrittenModifier.kept_of_nodup distinct
  have allOthers := WrittenModifier.kept_of_nodup (nodup_slots_of_perm distinct perm)
  have same : place.unplaced (place.record other) = place.unplaced (place.record run) := by
    refine place.unplaced_collect_perm (WrittenModifier.run_kept otherFaces.complete) ?_
    rw [all.1, allOthers.1, List.map_map, List.map_map]
    exact perm
  refine ⟨?_, same, place.print_of_unplaced same⟩
  obtain ⟨after, read, _, _, diagnostics⟩ := otherFaces.parser_run
  rw [allOthers.2] at diagnostics
  exact ⟨after, read, diagnostics.trans (congrArg Diagnostics.mk Array.append_empty)⟩

/-- The keyword of a global constructor at an offset. -/
def ctorAt (offset : Nat) : WrittenModifier where
  tokens := [⟨.identifier, "global_ctor", ⟨offset, offset + 11⟩⟩]
  modifier := ⟨ModifierTable.withOptionalArgument "global_ctor" .integer, none⟩

/-- The kind of a special member, given by an alias, at an offset. -/
def memberAt (offset : Nat) : WrittenModifier where
  tokens :=
    [⟨.identifier, "special_member", ⟨offset, offset + 14⟩⟩,
      ⟨.punct .less, "<", ⟨offset + 14, offset + 15⟩⟩,
      ⟨.attributeName, "#a", ⟨offset + 15, offset + 17⟩⟩,
      ⟨.punct .greater, ">", ⟨offset + 17, offset + 18⟩⟩]
  modifier := ⟨ModifierTable.specialMember,
    some (.attribute ⟨"#a", .aliasName, ⟨offset + 15, offset + 17⟩⟩)⟩

theorem complete_ctorAt (source : List Char) (scope : ScopeId) (offset : Nat) :
    (ctorAt offset).Complete (table .afterFunctionSignature).rules source scope :=
  .bare (by decide) rfl (by decide)

theorem complete_memberAt {source : List Char} (scope : ScopeId) {offset : Nat}
    (text : "#a" = String.ofList ((⟨offset + 15, offset + 17⟩ : Span).slice source)) :
    (memberAt offset).Complete (table .afterFunctionSignature).rules source scope := by
  let name : Token := ⟨.attributeName, "#a", ⟨offset + 15, offset + 17⟩⟩
  have derives : Reader.Derives (.attributeOf .aliasName) [name]
      [⟨.punct .greater, ">", ⟨offset + 17, offset + 18⟩⟩] :=
    .aliasName rfl (show "#a".toList.contains '.' = false by decide) rfl
  have embedded : Embedded source [name] "#a" ⟨offset + 15, offset + 17⟩ :=
    ⟨text, name, name, rfl, rfl, by simp [name, Span.cover]⟩
  exact @WrittenModifier.Complete.bracketed _ _ _ _ _ _ [name] _ _ _ (by decide) rfl rfl rfl rfl
    (.attribute (.inl rfl) derives embedded)

/-- The parser in front of a text. -/
def facing (source : String) : Parser.Input × Parser.State :=
  (⟨source.toList, {}, .structural⟩, Parser.initial (tokenize source))

/-- Two modifiers in both orders. -/
theorem modifiers_inAnyOrder_member :
    unplaced .afterFunctionSignature (record .afterFunctionSignature [memberAt 0, ctorAt 19]) =
        unplaced .afterFunctionSignature (record .afterFunctionSignature [ctorAt 0, memberAt 12]) ∧
      print .afterFunctionSignature (record .afterFunctionSignature [memberAt 0, ctorAt 19]) =
        print .afterFunctionSignature (record .afterFunctionSignature [ctorAt 0, memberAt 12]) := by
  have first : Faces .afterFunctionSignature (facing "global_ctor special_member<#a> \x7b").1
      (facing "global_ctor special_member<#a> \x7b").2 [ctorAt 0, memberAt 12]
      [⟨.punct .leftBrace, "\x7b", ⟨31, 32⟩⟩] := by
    refine ⟨rfl, ?_, by cbv, ?_⟩
    · refine List.forall_mem_cons.2 ⟨complete_ctorAt _ _ _,
        List.forall_mem_singleton.2 (complete_memberAt _ ?_)⟩
      cbv
    · rintro token ⟨⟩
      decide
  have second : Faces .afterFunctionSignature (facing "special_member<#a> global_ctor \x7b").1
      (facing "special_member<#a> global_ctor \x7b").2 [memberAt 0, ctorAt 19]
      [⟨.punct .leftBrace, "\x7b", ⟨31, 32⟩⟩] := by
    refine ⟨rfl, ?_, by cbv, ?_⟩
    · refine List.forall_mem_cons.2 ⟨complete_memberAt _ ?_,
        List.forall_mem_singleton.2 (complete_ctorAt _ _ _)⟩
      cbv
    · rintro token ⟨⟩
      decide
  exact ((modifiers_inAnyOrder first).2.2.2 (by decide) second (.swap _ _ _)).2

end ModifierPlace

/-- Of two linkages the first one counts. -/
example : (parse "cir.global private weak @g : !t" {}).diagnostics =
    [Parser.repetition "cir.global" (ModifierTable.linkage .weak) (ModifierTable.linkage .private_)
      ⟨19, 23⟩] := by
  cbv

end CirText
