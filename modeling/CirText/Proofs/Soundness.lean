import CirText.Proofs.Cancellation
import CirText.Proofs.Parser.Items

/-!
# The module that is read is as it should be

`Module.Sound` holds of the module that `parse` gives, whatever the source text is and wherever
reading has ended, and everything that a diagnostic points at stands in the source text.
-/

namespace CirText

theorem run_placed (source : String) (options : Options) :
    (Parser.run source options).2.Placed source.toList :=
  ((Parser.run_sees source options).leads ⟨source.toList, options, .structural⟩ _ ⟨rfl, rfl⟩
    rfl (Parser.placed_initial source)).1

/-- The module that is read is as it should be. -/
theorem parse_sound (source : String) (options : Options) :
    (parse source options).unit.Sound source.toList options.maxDepth := by
  have entries : ∀ definition ∈ (parse source options).unit.symbols.entries,
      definition.span.On source.toList := by
    rw [parse_symbols]
    exact (run_placed source options).stage.tracker.entries
  cases outcome : (Parser.run source options).1 with
  | none =>
    have header : (parse source options).unit.header = none := by
      change ((Parser.run source options).1.getD (none, [])).1 = _
      rw [outcome, Option.getD_none]
    have items : (parse source options).unit.items = [] := by
      change ((Parser.run source options).1.getD (none, [])).2 = _
      rw [outcome, Option.getD_none]
    constructor
    · rw [header]
      rintro _ ⟨⟩
    · rw [items]
      rintro _ ⟨⟩
    · rw [items]
      exact .nil
    · rw [Module.allRegions, items]
      exact .nil
    · exact entries
  | some found =>
    have header : (parse source options).unit.header = found.1 := by
      change ((Parser.run source options).1.getD (none, [])).1 = _
      rw [outcome, Option.getD_some]
    have items : (parse source options).unit.items = found.2 := by
      change ((Parser.run source options).1.getD (none, [])).2 = _
      rw [outcome, Option.getD_some]
    obtain ⟨headed, start, onward, known⟩ := (Parser.run_sees source options).finds
      ⟨source.toList, options, .structural⟩ _ found ⟨rfl, rfl⟩
      rfl (Parser.placed_initial source) outcome
    constructor
    · rw [header]
      exact headed
    · rw [items, parse_symbols]
      intro item member
      have throughout := known.throughout item member _ (.refl _)
      rwa [onward.scope_eq] at throughout
    · rw [items]
      exact known.ordered
    · rw [Module.allRegions, items]
      exact known.scopes.ordered
    · exact entries

/-- Everything that a diagnostic points at stands in the source text. -/
theorem parse_diagnostics_on (source : String) (options : Options) :
    ∀ diagnostic ∈ (parse source options).diagnostics, diagnostic.On source.toList := by
  intro diagnostic member
  have placed := run_placed source options
  rcases List.mem_append.1
    ((parse_diagnostics_perm source options .structural).mem_iff.1 member) with
    onTheWay | atEnd
  · exact placed.diagnostics diagnostic onTheWay
  · obtain ⟨verdict, judged, rfl⟩ := List.mem_map.1 atEnd
    have pending : verdict.reference ∈ (Parser.run source options).2.tracker.pending := by
      rw [Tracker.finish_of_outer (run_outer source options .structural)] at judged
      rcases List.mem_append.1 judged with waiting | symbol
      · obtain ⟨reference, waits, judged⟩ := List.mem_filterMap.1 waiting
        rw [Tracker.judgeAtEnd_eq_some judged]
        exact List.mem_append_left _ (List.mem_flatMap.2 ⟨_, List.mem_cons_self, waits⟩)
      · obtain ⟨reference, used, judged⟩ := List.mem_filterMap.1 symbol
        rw [Tracker.judgeSymbol_eq_some judged]
        exact List.mem_append_right _ used
    exact Diagnostic.on_error (placed.stage.tracker.pending _ pending) (by rintro _ _ ⟨⟩)

end CirText
