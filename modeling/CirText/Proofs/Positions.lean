import CirText.Report
import CirText.Proofs.Soundness
import CirText.Proofs.Text.Lines

/-!
# Lines and columns of diagnostics

A report gives each diagnostic the line and the column that the line structure of the text says, and
diagnostics that start further on in the text have positions further on.
-/

namespace CirText

/-- Whether the position under which a diagnostic is reported is that of its start: the line counts
the line breaks before it, and the column the characters from the start of that line. -/
structure Diagnostic.Positioned (text : List Char) (diagnostic : Diagnostic) : Prop where
  start : Text.Boundary text diagnostic.span.start
  line : diagnostic.line text = Text.byteToLine text diagnostic.span.start + 1
  ordered : Text.lineToChar text (Text.byteToLine text diagnostic.span.start) ≤
    Text.byteToChar text diagnostic.span.start
  column : diagnostic.column text = Text.byteToChar text diagnostic.span.start -
    Text.lineToChar text (Text.byteToLine text diagnostic.span.start) + 1
  written : ∃ others, diagnostic.toJson text = .object (others ++
    [("line", .number (diagnostic.line text)), ("column", .number (diagnostic.column text))])

theorem Diagnostic.place_of_boundary {text : List Char} {diagnostic : Diagnostic}
    (start : Text.Boundary text diagnostic.span.start) :
    diagnostic.place text = Text.placeOf text diagnostic.span.start := by
  rw [Diagnostic.place, Nat.min_eq_left start.le]

theorem Diagnostic.positioned {text : List Char} {diagnostic : Diagnostic}
    (start : Text.Boundary text diagnostic.span.start) : diagnostic.Positioned text where
  start := start
  line := by rw [Diagnostic.line, Diagnostic.place_of_boundary start, Text.placeOf_eq]
  ordered := Text.lineToChar_le text diagnostic.span.start
  column := by rw [Diagnostic.column, Diagnostic.place_of_boundary start, Text.placeOf_eq]
  written := ⟨[_, _, _, _, _], rfl⟩

/-- A diagnostic that starts before another is reported at an earlier position. -/
theorem Diagnostic.position_lt {text : List Char} {first second : Diagnostic}
    (onFirst : Text.Boundary text first.span.start)
    (onSecond : Text.Boundary text second.span.start)
    (lt : first.span.start < second.span.start) :
    first.line text < second.line text ∨
      first.line text = second.line text ∧ first.column text < second.column text := by
  have before := Text.placeOf_before onFirst onSecond lt
  simp only [Diagnostic.line, Diagnostic.column, Diagnostic.place_of_boundary onFirst,
    Diagnostic.place_of_boundary onSecond, Nat.add_lt_add_iff_right, Nat.add_right_cancel_iff]
  exact before

/-- The positions of the diagnostics are those of their starts, and in the same order. -/
theorem parse_positions (source : String) (options : Options) :
    (∀ diagnostic ∈ (parse source options).diagnostics, diagnostic.Positioned source.toList) ∧
      (∀ first ∈ (parse source options).diagnostics,
        ∀ second ∈ (parse source options).diagnostics, first.span.start < second.span.start →
          first.line source.toList < second.line source.toList ∨
            first.line source.toList = second.line source.toList ∧
              first.column source.toList < second.column source.toList) ∧
      ∀ first ∈ (parse source options).diagnostics,
        ∀ second ∈ (parse source options).diagnostics, first.span.start ≠ second.span.start →
          (first.line source.toList, first.column source.toList) ≠
            (second.line source.toList, second.column source.toList) := by
  have start : ∀ diagnostic ∈ (parse source options).diagnostics,
      Text.Boundary source.toList diagnostic.span.start := fun diagnostic member =>
    (parse_diagnostics_on source options diagnostic member).span.start
  refine ⟨fun diagnostic member => Diagnostic.positioned (start diagnostic member),
    fun first inFirst second inSecond => Diagnostic.position_lt (start first inFirst)
      (start second inSecond), ?_⟩
  intro first inFirst second inSecond apart same
  obtain ⟨sameLine, sameColumn⟩ := Prod.mk.inj same
  rcases Nat.lt_or_gt_of_ne apart with lt | gt
  · have before := Diagnostic.position_lt (start first inFirst) (start second inSecond) lt
    omega
  · have before := Diagnostic.position_lt (start second inSecond) (start first inFirst) gt
    omega

/-- A text with two branches to blocks that do not exist. -/
def danglingBranches : String :=
  "cir.func @f() \x7b\n  cir.br ^nowhere\n^a:\n  cir.br ^gone\n\x7d"

/-- The two positions, the first of them as the theorem has it. -/
theorem parse_positions_dangling :
    ∃ first ∈ (parse danglingBranches {}).diagnostics,
      ∃ second ∈ (parse danglingBranches {}).diagnostics, first.span.start < second.span.start ∧
        first.Positioned danglingBranches.toList ∧
        (first.line danglingBranches.toList, first.column danglingBranches.toList) = (2, 10) ∧
        (first.line danglingBranches.toList < second.line danglingBranches.toList ∨
          first.line danglingBranches.toList = second.line danglingBranches.toList ∧
            first.column danglingBranches.toList < second.column danglingBranches.toList) := by
  obtain ⟨positioned, ordered, -⟩ := parse_positions danglingBranches {}
  have found : (parse danglingBranches {}).diagnostics.map (fun diagnostic =>
      (diagnostic.span.start, diagnostic.line danglingBranches.toList,
        diagnostic.column danglingBranches.toList)) =
      [(25, 2, 10), (47, 4, 10)] := by
    cbv
  obtain ⟨first, more, all, atFirst, found⟩ := List.map_eq_cons_iff.1 found
  obtain ⟨second, _, moreIs, atSecond, -⟩ := List.map_eq_cons_iff.1 found
  rw [Prod.mk.injEq] at atFirst atSecond
  have lt : first.span.start < second.span.start := by omega
  have inFirst : first ∈ (parse danglingBranches {}).diagnostics := by simp [all, moreIs]
  have inSecond : second ∈ (parse danglingBranches {}).diagnostics := by simp [all, moreIs]
  exact ⟨first, inFirst, second, inSecond, lt, positioned first inFirst, atFirst.2,
    ordered first inFirst second inSecond lt⟩

end CirText
