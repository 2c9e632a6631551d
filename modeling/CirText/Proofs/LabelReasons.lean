import CirText.Proofs.Resolution

/-!
# Why a label points nowhere

A branch cannot leave its region, so a label of a region around points nowhere, and the report says
whether there is such a label. It is judged when the region of the branch is closed. No region
around can get a label before that, and a label that it gets later is not considered: the reason is
told by the labels that stand in front of the branch.
-/

namespace CirText

/-- The report of a reference that points nowhere, with the reason that a table tells. -/
def SymbolTable.report (table : SymbolTable) (reference : Reference) : Diagnostic :=
  .error (.unresolved reference.spelling (table.reasonFor reference)) reference.span

/-- The reports of unresolved names are those of references that point nowhere, each for the reason
that the table of the whole module tells, which for a label is whether a region around has the label
in front of it. Every reference of an operation that points nowhere is among them. -/
theorem parse_reasons (source : String) (options : Options) (adapters : Adapters) :
    ∃ references : List Reference,
      ((parse source options adapters).diagnostics.filter Diagnostic.isUnresolved).Perm
        (references.map (parse source options adapters).unit.symbols.report) ∧
      (references.map (·.span)).Nodup ∧
      (∀ reference ∈ references, (parse source options adapters).unit.symbols.resolve reference =
        none) ∧
      (∀ op ∈ (parse source options adapters).unit.preorder, ∀ reference ∈ op.references,
        (parse source options adapters).unit.symbols.resolve reference = none →
          reference ∈ references) := by
  obtain ⟨uses, settled, verdicts, _, covered, distinct, resolved, unresolved, judged, reported,
    reasons⟩ := parse_judged source options adapters
  refine ⟨verdicts.map (·.reference), ?_, ?_, ?_, ?_⟩
  · have same : verdicts.map Diagnostic.ofUnresolved =
        (verdicts.map (·.reference)).map (parse source options adapters).unit.symbols.report := by
      rw [List.map_map]
      apply List.map_congr_left
      intro verdict member
      simp only [Function.comp_apply, SymbolTable.report, ← reasons verdict member]
      rfl
    exact same ▸ reported
  · have spans := (judged.map (·.span)).nodup_iff.1 distinct
    rw [List.map_append] at spans
    exact (List.nodup_append.1 spans).2.1
  · intro reference member
    obtain ⟨verdict, given, rfl⟩ := List.mem_map.1 member
    exact unresolved verdict given
  · intro op inModule reference inOperation nothing
    have used := covered op inModule reference inOperation
    rcases List.mem_append.1 (judged.mem_iff.1 used) with early | late
    · have found := resolved reference early
      rw [nothing] at found
      cases found
    · exact late

/-- A branch out of a region to a label that the region around it has further down. -/
def branchForward : String :=
  "cir.func @f() \x7b cir.scope \x7b cir.br ^x \x7d cir.br ^x ^x: cir.return \x7d"

set_option maxRecDepth 1024 in
/-- A label that stands behind the branch is not considered, although the table has it in the region
around. -/
theorem branchForward_notDefined :
    (parse branchForward {}).diagnostics =
        [.error (.unresolved "^x" .notDefined) ⟨35, 37⟩] ∧
      ∃ op ∈ (parse branchForward {}).unit.preorder, ∃ reference ∈ op.references,
        reference.kind = .label ∧ reference.span = ⟨35, 37⟩ ∧
          ((parse branchForward {}).unit.symbols.labelAround reference.name
            reference.scope).isSome := by
  refine ⟨by cbv, ?_⟩
  have third : ((parse branchForward {}).unit.preorder[2]?.map fun op =>
      op.references.map fun reference => (reference.kind, reference.span,
        ((parse branchForward {}).unit.symbols.labelAround reference.name
          reference.scope).isSome)) =
      some [(.label, ⟨35, 37⟩, true)] := by
    cbv
  obtain ⟨op, inModule, only⟩ := Option.map_eq_some_iff.1 third
  obtain ⟨reference, single, found⟩ := List.map_eq_singleton_iff.1 only
  obtain ⟨kind, rest⟩ := Prod.mk.inj found
  obtain ⟨span, around⟩ := Prod.mk.inj rest
  refine ⟨op, List.mem_of_getElem? inModule, reference, ?_, kind, span, around⟩
  exact single ▸ List.mem_singleton_self reference

example : (parse "cir.func @f() \x7b cir.br ^x ^x: cir.scope \x7b cir.br ^x \x7d cir.return \x7d"
    {}).diagnostics = [.error (.unresolved "^x" .crossRegion) ⟨49, 51⟩] := by
  cbv

end CirText
