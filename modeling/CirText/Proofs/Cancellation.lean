import CirText.Proofs.Parser.Truncation
import CirText.Proofs.Resolution

/-!
# What a cancelled reading gives

Whenever a reading is cancelled, it either makes no difference or the module is cut off between two
of its items, and this is reported once. All else that is reported is reported by the complete
reading too, except that names may be missing whose definitions have not been reached.
-/

namespace CirText

/-- Reading a source unit is interruptible. -/
theorem sourceUnit_interruptible (options : Options) :
    Parser.InterruptibleWith
      (fun cut full => ∃ header ops more, cut = some (header, ops) ∧
        full = some (header, ops ++ more)) false
      (Parser.sourceUnit (Parser.regionWithin options.maxDepth)) :=
  .sourceUnit (.regionWithin options.maxDepth)

/-- The two runs of a source unit, with its cancellation and without. -/
theorem run_interrupted (source : String) (options : Options) (adapters : Adapters) :
    Parser.run source options adapters = Parser.run source options.uncancelled adapters ∨
      (∃ header ops more, (Parser.run source options adapters).1 = some (header, ops) ∧
        (Parser.run source options.uncancelled adapters).1 = some (header, ops ++ more)) ∧
      Parser.Stopped (Parser.initial (tokenize source)) (Parser.run source options adapters).2
        (Parser.run source options.uncancelled adapters).2 :=
  (sourceUnit_interruptible options).runs ⟨source.toList, options, adapters⟩
    (Parser.initial (tokenize source)) .start

/-- All scopes but that of the module are closed at the end. -/
theorem run_outer (source : String) (options : Options) (adapters : Adapters) :
    (Parser.run source options adapters).2.tracker.outer = [] :=
  ((sourceUnit_interruptible options).within ⟨source.toList, options, adapters⟩
    (Parser.initial (tokenize source)) .start).outer

theorem run_sound (source : String) (options : Options) (adapters : Adapters) :
    (Parser.run source options adapters).2.tracker.Sound :=
  (sourceUnit_interruptible options).traced.sound ⟨source.toList, options, adapters⟩ .start

/-- The table of the module is the one that the tracker has in the end. -/
theorem parse_symbols (source : String) (options : Options) (adapters : Adapters) :
    (parse source options adapters).unit.symbols =
      (Parser.run source options adapters).2.tracker.table := by
  change (Parser.run source options adapters).2.tracker.finish.1 = _
  rw [Tracker.finish_of_outer (run_outer source options adapters)]

/-- No verdict at the end is given on a name that has a meaning. -/
theorem finish_undefined (source : String) (options : Options) (adapters : Adapters)
    {verdict : Unresolved}
    (given : verdict ∈ (Parser.run source options adapters).2.tracker.finish.2) :
    (parse source options adapters).unit.symbols.resolve verdict.reference = none := by
  obtain ⟨tokens, uses, found, trail, _⟩ := (sourceUnit_interruptible options).traced
    ⟨source.toList, options, adapters⟩ (Parser.initial (tokenize source))
  obtain ⟨verdicts, steps, _⟩ := trail.steps
  obtain ⟨_, _, _, undefined, _⟩ := Tracker.finish_complete steps
  exact undefined verdict (List.mem_append_right _ given)

/-- A run that is the same with the cancellation gives the same module and the same diagnostics. -/
theorem parse_eq_of_run {source : String} {options : Options} {adapters : Adapters}
    (same : Parser.run source options adapters = Parser.run source options.uncancelled adapters) :
    parse source options adapters = parse source options.uncancelled adapters := by
  rw [parse, same]
  rfl

theorem cancellations_initial (source : String) :
    (Parser.initial (tokenize source)).cancellations = 0 := by
  apply List.countP_eq_zero.2
  intro diagnostic member
  simp only [Parser.initial, Diagnostics.append, Array.toList_appendList, List.nil_append,
    List.mem_map] at member
  obtain ⟨fault, _, rfl⟩ := member
  exact Bool.false_ne_true

/-- Cancelling only cuts the module off: either it makes no difference, or exactly one cancellation
is reported and the items are the first ones of the complete module. -/
theorem parse_cancelled (source : String) (options : Options) (adapters : Adapters) :
    parse source options adapters = parse source options.uncancelled adapters ∨
      (parse source options adapters).diagnostics.countP Diagnostic.isCancelled = 1 ∧
        (parse source options adapters).unit.items <+:
          (parse source options.uncancelled adapters).unit.items := by
  rcases run_interrupted source options adapters with
    same | ⟨⟨header, ops, more, cut, full⟩, stopped⟩
  · exact .inl (parse_eq_of_run same)
  · right
    constructor
    · have counted := stopped.counted
      rw [cancellations_initial source] at counted
      rw [(parse_diagnostics_perm source options adapters).countP_eq, List.countP_append,
        Parser.InterruptibleWith.countP_ofUnresolved]
      exact counted
    · refine ⟨more, ?_⟩
      simp only [parse, cut, full, Option.getD_some]

/-- A cancelled reading reports, apart from the cancellation, only what the complete reading
reports, and names that only the complete reading comes to define. -/
theorem parse_cancelled_diagnostics (source : String) (options : Options) (adapters : Adapters)
    {diagnostic : Diagnostic}
    (reported : diagnostic ∈ (parse source options adapters).diagnostics) :
    diagnostic.isCancelled = true ∨
      diagnostic ∈ (parse source options.uncancelled adapters).diagnostics ∨
      ∃ verdict, diagnostic = .ofUnresolved verdict ∧
        (parse source options adapters).unit.symbols.resolve verdict.reference = none ∧
        ((parse source options.uncancelled adapters).unit.symbols.resolve
          verdict.reference).isSome := by
  have ofFull :=
    fun other => ((parse_diagnostics_perm source options.uncancelled adapters).mem_iff
      (a := other)).2
  rcases run_interrupted source options adapters with same | ⟨_, stopped⟩
  · rw [parse_eq_of_run same] at reported
    exact .inr (.inl reported)
  · rcases List.mem_append.1
      ((parse_diagnostics_perm source options adapters).mem_iff.1 reported) with
      onTheWay | atEnd
    · rcases stopped.lags.diagnostics diagnostic onTheWay with
        cancelled | both | ⟨verdict, same, overtaken⟩
      · exact .inl cancelled
      · exact .inr (.inl (ofFull _ (List.mem_append_left _ both)))
      · refine .inr (.inr ⟨verdict, same, ?_, ?_⟩)
        · rw [parse_symbols, SymbolTable.resolve, overtaken.kind]
          exact overtaken.undefined
        · rw [parse_symbols]
          exact overtaken.knows.2
    · obtain ⟨verdict, given, rfl⟩ := List.mem_map.1 atEnd
      rcases stopped.lags.tracker.finish (run_sound source options.uncancelled adapters)
        (run_outer source options adapters) (run_outer source options.uncancelled adapters)
        given with both | known
      · exact .inr (.inl (ofFull _ (List.mem_append_right _ (List.mem_map_of_mem both))))
      · refine .inr (.inr ⟨verdict, rfl, finish_undefined source options adapters given, ?_⟩)
        rw [parse_symbols]
        exact known

/-- A unit in which a function names one that comes after it. -/
def forwardAlias : String :=
  "cir.func @f(!t) alias(@g)\ncir.func @g()"

/-- Options with which reading is cancelled while the first type is read. -/
def cancelledAtType : Options :=
  { cancellation := { atType := some 1 } }

theorem forwardAlias_cancelled :
    ∃ first others, (parse forwardAlias cancelledAtType).diagnostics = first :: others ∧
      first.isCancelled = false := by
  have reported : (parse forwardAlias cancelledAtType).diagnostics.map (·.isCancelled) =
      [false, true] := by
    cbv
  obtain ⟨first, others, listed, same, _⟩ := List.map_eq_cons_iff.1 reported
  exact ⟨first, others, listed, same⟩

theorem forwardAlias_complete :
    (parse forwardAlias cancelledAtType.uncancelled).diagnostics = [] := by
  cbv

/-- When the unit is cancelled in its first function, the name of the second one is missing. -/
theorem parse_cancelled_diagnostics_forwardAlias :
    ∃ diagnostic ∈ (parse forwardAlias cancelledAtType).diagnostics,
      diagnostic.isCancelled = false ∧ ∃ verdict, diagnostic = .ofUnresolved verdict ∧
        (parse forwardAlias cancelledAtType).unit.symbols.resolve verdict.reference = none ∧
        ((parse forwardAlias cancelledAtType.uncancelled).unit.symbols.resolve
          verdict.reference).isSome := by
  obtain ⟨first, others, listed, other⟩ := forwardAlias_cancelled
  have member : first ∈ (parse forwardAlias cancelledAtType).diagnostics :=
    listed ▸ List.mem_cons_self
  refine ⟨first, member, other, ?_⟩
  rcases parse_cancelled_diagnostics forwardAlias cancelledAtType _ member with
    cancelled | both | missing
  · rw [other] at cancelled
    cases cancelled
  · rw [forwardAlias_complete] at both
    cases both
  · exact missing

/-- The complete reading of that unit reports nothing of the kind. -/
theorem forwardAlias_reported_only_when_cancelled :
    ∃ diagnostic ∈ (parse forwardAlias cancelledAtType).diagnostics,
      diagnostic.isCancelled = false ∧
        ∀ other ∈ (parse forwardAlias cancelledAtType.uncancelled).diagnostics,
          ¬(other.code = diagnostic.code ∧ other.severity = diagnostic.severity ∧
            other.span = diagnostic.span) := by
  obtain ⟨first, others, listed, other⟩ := forwardAlias_cancelled
  refine ⟨first, listed ▸ List.mem_cons_self, other, ?_⟩
  rw [forwardAlias_complete]
  rintro _ ⟨⟩

end CirText
