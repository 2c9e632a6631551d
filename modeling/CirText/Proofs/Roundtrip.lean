import CirText.Proofs.Reprint
import CirText.Proofs.Reread.Units

/-!
# Printing and reading again

A source unit that is read without errors is printed as a text that is read without errors. What is
read of that text is the same module but for the places of its parts, and it is printed as the same
text again.
-/

namespace CirText

open CirText.Parser

namespace Module

/-- The forms of operations do not depend on places. -/
theorem forms_unplaced (unit : Module) : unit.unplaced.forms = unit.forms := by
  have preorder : unit.unplaced.preorder = unit.preorder.map Operation.unplaced := by
    rw [Module.preorder, Module.preorder, unplaced, List.flatMap_map, List.map_flatMap]
    exact List.flatMap_congr fun op _ => op.preorder_unplaced
  rw [forms, preorder, List.foldl_map, forms]
  simp only [Operation.id_unplaced, Operation.form_unplaced]

/-- The header of a module is printed without regard to places. -/
theorem printHeader_unplaced (header : ModuleHeader) :
    printHeader header.unplaced = printHeader header := by
  obtain ⟨_ | name, _ | attributes, span⟩ := header <;> rfl

/-- Source units that are the same but for their places are printed as the same text. -/
theorem print_eq {unit again : Module}
    (same : SameUnit (unit.header, unit.items) (again.header, again.items)) :
    unit.print = again.print := by
  obtain ⟨id, header, items, symbols⟩ := unit
  obtain ⟨idAgain, headerAgain, itemsAgain, symbolsAgain⟩ := again
  obtain ⟨sameHeader, sameItems⟩ := same
  rw [← String.toList_inj, print, print, Layout.toList_render, Layout.toList_render]
  cases header with
  | none =>
    obtain rfl : headerAgain = none := Option.map_eq_none_iff.1 sameHeader.symm
    have texts := map_eq_of_forall₂ sameItems fun _ _ same =>
      congrArg (· ++ (Layout.line 0).chars 0) (same.chars 0)
    simp only [layout, Layout.chars_flatMap, Layout.chars_append]
    rw [List.flatMap_def, List.flatMap_def, texts]
  | some header =>
    obtain ⟨headerAgain, rfl, unplaced⟩ := Option.map_eq_some_iff.1 sameHeader.symm
    have first : printHeader header = printHeader headerAgain := by
      rw [← printHeader_unplaced, ← unplaced, printHeader_unplaced]
    have texts := map_eq_of_forall₂ sameItems fun _ _ same =>
      congrArg ((Layout.line indentation).chars 0 ++ ·) (same.chars (indentation + 0))
    simp only [layout, Layout.chars_flatMap, Layout.chars_append, Layout.chars_shift, first]
    rw [List.flatMap_def, List.flatMap_def, texts]

end Module

/-! ## Source units -/

/-- A source unit without errors is printed as a text without errors, which is read as the same
module but for its places. So the forms of its operations are the same, and it is printed as the
same text again. Symbols must have names that can be read when they are quoted. -/
theorem parse_print {source : String} {options : Options}
    (clean : (parse source options).hasErrors = false)
    (never : ∀ types attributes, options.cancellation.isSet types attributes = false)
    (defined : ∀ definition ∈ (parse source options).unit.definitions, definition.kind = .symbol →
      ∀ c ∈ definition.name.toList, Text.Quoted.isReadable c = true)
    (used : ∀ reference ∈ (parse source options).unit.references, reference.kind = .symbol →
      ∀ c ∈ reference.name.toList, Text.Quoted.isReadable c = true) :
    let unit := (parse source options).unit
    let again := parse unit.print options
    again.hasErrors = false ∧ again.unit.unplaced = unit.unplaced ∧
      again.unit.forms = unit.forms ∧ again.unit.print = unit.print := by
  intro unit again
  obtain ⟨noErrors, isSpelled⟩ := parse_print_spelled clean defined used
  obtain ⟨lexed, after, reads, finished⟩ := parse_reads clean
  obtain ⟨found, last, readsAgain, _, similar, same⟩ := sourceUnit_again lexed
    (regionWithin_again lexed options.maxDepth) reads (List.suffix_refl _) isSpelled
    (Stage.atStart unit.print) (List.append_nil _).symm ⟨rfl, rfl⟩
  obtain ⟨symbols, finishedAgain, sameSymbols⟩ :=
    Tracker.finish_of_unplaced similar.tracker finished
  obtain ⟨cleanAgain, unitAgain⟩ :
      again.hasErrors = false ∧ again.unit = ⟨options.sourceId, found.1, found.2, symbols⟩ :=
    parse_of_reads never ⟨noErrors, last, readsAgain, finishedAgain⟩
  have unplaced : again.unit.unplaced = unit.unplaced := by
    rw [unitAgain, Module.unplaced, Module.unplaced, sameSymbols, ← same.header,
      ← map_eq_of_forall₂ same.items fun _ _ => Operation.Matches.unplaced]
    rfl
  refine ⟨cleanAgain, unplaced, ?_, ?_⟩
  · rw [← again.unit.forms_unplaced, unplaced, unit.forms_unplaced]
  · rw [unitAgain]
    exact (Module.print_eq same).symm

/-- The symbols among entries can be read when they are quoted if those in the list of their names
can. -/
theorem readable_of_names {α : Type} {kind : α → NameKind} {name : α → String} {found : List α}
    {names : List (NameKind × String)} (listed : found.map (fun a => (kind a, name a)) = names)
    (readable : ∀ named ∈ names, named.1 = .symbol →
      ∀ c ∈ named.2.toList, Text.Quoted.isReadable c = true) :
    ∀ a ∈ found, kind a = .symbol → ∀ c ∈ (name a).toList, Text.Quoted.isReadable c = true :=
  List.forall_mem_map.1 (listed ▸ readable)

/-- A function with modifiers that are printed in another order, and a name that is printed without
quotes. -/
def shuffledFunction : String :=
  "cir.func dso_local no_inline @\"f\"(%a : !t) { cir.return %a : !t }"

theorem shuffledFunction_clean : (parse shuffledFunction {}).hasErrors = false := by
  cbv

theorem shuffledFunction_defined :
    ∀ definition ∈ (parse shuffledFunction {}).unit.definitions, definition.kind = .symbol →
      ∀ c ∈ definition.name.toList, Text.Quoted.isReadable c = true := by
  have names : (parse shuffledFunction {}).unit.definitions.map
      (fun found => (found.kind, found.name)) = [(.symbol, "f"), (.value, "a")] := by
    cbv
  refine readable_of_names names (List.forall_mem_cons.2 ⟨fun _ => ?_,
    List.forall_mem_singleton.2 fun isSymbol => absurd isSymbol (by decide)⟩)
  exact List.all_eq_true.1 (by decide +kernel : "f".toList.all Text.Quoted.isReadable = true)

theorem shuffledFunction_used :
    ∀ reference ∈ (parse shuffledFunction {}).unit.references, reference.kind = .symbol →
      ∀ c ∈ reference.name.toList, Text.Quoted.isReadable c = true := by
  have names : (parse shuffledFunction {}).unit.references.map
      (fun found => (found.kind, found.name)) = [(.value, "a")] := by
    cbv
  exact readable_of_names names
    (List.forall_mem_singleton.2 fun isSymbol => absurd isSymbol (by decide))

/-- That function is printed with its modifiers in another order, and read as the same module. -/
theorem parse_print_shuffled :
    let unit := (parse shuffledFunction {}).unit
    let again := parse unit.print {}
    (parse shuffledFunction {}).hasErrors = false ∧ again.hasErrors = false ∧
      again.unit.unplaced = unit.unplaced ∧ again.unit.forms = unit.forms ∧
        again.unit.print = unit.print :=
  ⟨shuffledFunction_clean, parse_print shuffledFunction_clean (fun _ _ => rfl)
    shuffledFunction_defined shuffledFunction_used⟩

end CirText
