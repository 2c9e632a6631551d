import CirText.Proofs.Parser.Uses
import CirText.Proofs.Token.Lexer
import Mathlib

/-!
# Names are resolved soundly and completely

The tracker judges names while a source unit is read; the table of the module answers the same
question afterwards. Both agree on every name that an operation refers to, whatever the source unit
is and however parsing has ended: a name that resolves is not reported, and a name that does not is
reported once.
-/

namespace CirText

namespace SymbolTable

/-- Whether a definition is what a reference means: it has the kind and the name of the reference,
and it belongs to the nearest scope that defines the value, to the scope of the label, or to the
module. -/
structure Binds (table : SymbolTable) (reference : Reference) (definition : Definition) : Prop where
  kind : definition.kind = reference.kind
  name : definition.name = reference.name
  value : reference.kind = .value →
    (table.chain reference.scope).find? (fun id => (table.valueIn reference.name id).isSome) =
      some definition.scope
  label : reference.kind = .label → definition.scope = reference.scope
  symbol : reference.kind = .symbol → definition.scope = .root

/-- The first scope of a list that has a value is the one in which the value is found. -/
theorem WellFormed.find?_of_findSome? {table : SymbolTable} (wf : table.WellFormed) {name : String}
    {definition : Definition} {ids : List ScopeId}
    (found : ids.findSome? (table.valueIn name) = some definition) :
    ids.find? (fun id => (table.valueIn name id).isSome) = some definition.scope := by
  induction ids with
  | nil => cases found
  | cons id rest ih =>
    rw [List.findSome?_cons] at found
    cases here : table.valueIn name id with
    | none =>
      rw [here] at found
      rw [List.find?_cons_of_neg (by simp [here])]
      exact ih found
    | some value =>
      rw [here] at found
      cases found
      rw [List.find?_cons_of_pos (by simp [here]), (wf.valueIn_eq_some here).2.2]

/-- What a reference resolves to is what it means. -/
theorem WellFormed.binds_of_resolve {table : SymbolTable} (wf : table.WellFormed)
    {reference : Reference} {definition : Definition}
    (found : table.resolve reference = some definition) : table.Binds reference definition := by
  unfold resolve at found
  cases kind : reference.kind with
  | value =>
    rw [kind] at found
    obtain ⟨id, _, here⟩ := List.exists_of_findSome?_eq_some found
    obtain ⟨itsKind, itsName, _⟩ := wf.valueIn_eq_some here
    exact ⟨itsKind.trans kind.symm, itsName, fun _ => wf.find?_of_findSome? found, by simp [kind],
      by simp [kind]⟩
  | label =>
    rw [kind] at found
    obtain ⟨itsKind, itsName, home⟩ := wf.labelIn_eq_some found
    exact ⟨itsKind.trans kind.symm, itsName, by simp [kind], fun _ => home, by simp [kind]⟩
  | symbol =>
    rw [kind] at found
    obtain ⟨itsKind, itsName, home⟩ := wf.symbol_eq_some found
    exact ⟨itsKind.trans kind.symm, itsName, by simp [kind], by simp [kind], fun _ => home⟩

end SymbolTable

/-- The reports of names that refer to nothing at a place. -/
def Parsed.unresolvedAt (parsed : Parsed) (span : Span) : List Diagnostic :=
  parsed.diagnostics.filter fun diagnostic => diagnostic.isUnresolved && diagnostic.span == span

private theorem filter_eq_singleton {α β : Type} [BEq β] [LawfulBEq β] {f : α → β} {items : List α}
    (nodup : (items.map f).Nodup) {a : α} (member : a ∈ items) :
    items.filter (f · == f a) = [a] := by
  induction items with
  | nil => cases member
  | cons first rest ih =>
    rw [List.map_cons, List.nodup_cons] at nodup
    rcases List.mem_cons.1 member with rfl | later
    · rw [List.filter_cons_of_pos (by simp)]
      congr 1
      apply List.filter_eq_nil_iff.2
      intro other inside same
      exact nodup.1 (eq_of_beq same ▸ List.mem_map_of_mem inside)
    · have other : f first ≠ f a := fun same => nodup.1 (same ▸ List.mem_map_of_mem later)
      rw [List.filter_cons_of_neg (by simpa using other)]
      exact ih nodup.2 later

/-- The diagnostics of a source unit are those found on the way and those of the end, sorted. -/
theorem parse_diagnostics_perm (source : String) (options : Options) (adapters : Adapters) :
    (parse source options adapters).diagnostics.Perm
      ((Parser.run source options adapters).2.diagnostics.items.toList ++
        (Parser.run source options adapters).2.tracker.finish.2.map .ofUnresolved) := by
  have perm : (parse source options adapters).diagnostics.Perm
      ((Parser.run source options adapters).2.diagnostics.append
        ((Parser.run source options adapters).2.tracker.finish.2.map .ofUnresolved)).items.toList :=
    List.mergeSort_perm _ _
  rw [Diagnostics.append, Array.toList_appendList] at perm
  exact perm

/-- The places of tokens are in order. -/
theorem Lexer.Ordered.inOrder {offset : Nat} {tokens : List Token}
    (ordered : Lexer.Ordered offset tokens) : Tracker.InOrder (tokens.map (·.span)) := by
  induction tokens generalizing offset with
  | nil => exact ⟨.nil, by simp⟩
  | cons token rest ih =>
    obtain ⟨_, some_, later⟩ := ordered
    obtain ⟨apart, nonempty⟩ := ih later
    rw [List.map_cons]
    refine ⟨apart.cons ?_, ?_⟩
    · intro span member
      obtain ⟨other, behind, rfl⟩ := List.mem_map.1 member
      exact later.start_le other behind
    · intro span member
      rcases List.mem_cons.1 member with rfl | behind
      · exact some_
      · exact nonempty span behind

/-- All names that operations refer to are uses that the tracker has judged, each at a place of its
own; what is reported are the verdicts, for the reasons that the table tells. -/
theorem parse_judged (source : String) (options : Options) (adapters : Adapters) :
    ∃ (uses settled : List Reference) (verdicts : List Unresolved),
      (parse source options adapters).unit.symbols.WellFormed ∧
      (∀ op ∈ (parse source options adapters).unit.preorder, ∀ reference ∈ op.references,
        reference ∈ uses) ∧
      (uses.map (·.span)).Nodup ∧
      (∀ reference ∈ settled,
        ((parse source options adapters).unit.symbols.resolve reference).isSome) ∧
      (∀ verdict ∈ verdicts,
        (parse source options adapters).unit.symbols.resolve verdict.reference = none) ∧
      uses.Perm (settled ++ verdicts.map (·.reference)) ∧
      ((parse source options adapters).diagnostics.filter Diagnostic.isUnresolved).Perm
        (verdicts.map .ofUnresolved) ∧
      (∀ verdict ∈ verdicts,
        verdict.reason =
          (parse source options adapters).unit.symbols.reasonFor verdict.reference) := by
  obtain ⟨tokens, uses, found, trail, covered⟩ :=
    Parser.Traced.sourceUnit (Parser.Traced.regionWithin options.maxDepth) ⟨source.toList,
      options, adapters⟩ (Parser.initial (tokenize source))
  obtain ⟨marks, verdicts, timeline, marked, reported⟩ := trail.timeline
  let final := (Parser.run source options adapters).2
  obtain ⟨wf, settled, resolved, unresolved, judged⟩ := Tracker.finish_complete timeline.course
  have passed : (tokenize source).tokens = tokens ++ final.cursor.rest := trail.rest
  have ordered : Lexer.Ordered 0 tokens := .append_left (passed ▸ ordered_tokens source)
  refine ⟨uses, settled, verdicts ++ final.tracker.finish.2, wf, ?_, ?_, resolved, unresolved,
    judged, ?_, Tracker.finish_reason timeline (ordered.inOrder.sublist marked)⟩
  · intro op inModule reference inOperation
    obtain ⟨item, inItems, inside⟩ := List.mem_flatMap.1 inModule
    cases outcome : (Parser.run source options adapters).1 with
    | none =>
      simp only [parse, outcome, Option.getD_none] at inItems
      cases inItems
    | some result =>
      simp only [parse, outcome, Option.getD_some] at inItems
      exact covered result outcome item inItems op inside reference inOperation
  · exact ordered.nodup_spans.sublist trail.spans
  · have all : final.diagnostics.items.toList =
        (tokenize source).errors.map .ofLexError ++ found := by
      apply trail.reports.trans
      simp [Parser.initial, Diagnostics.append]
    have noneLexed : ((tokenize source).errors.map Diagnostic.ofLexError).filter
        Diagnostic.isUnresolved = [] := by
      apply List.filter_eq_nil_iff.2
      intro diagnostic member
      obtain ⟨fault, _, rfl⟩ := List.mem_map.1 member
      exact Bool.false_ne_true
    have sorted := parse_diagnostics_perm source options adapters
    change (parse source options adapters).diagnostics.Perm
      (final.diagnostics.items.toList ++ final.tracker.finish.2.map .ofUnresolved) at sorted
    have filtered := sorted.filter Diagnostic.isUnresolved
    rw [all, List.filter_append, List.filter_append, noneLexed, List.nil_append, reported,
      filter_isUnresolved_ofUnresolved, ← List.map_append] at filtered
    exact filtered

/-- A name that an operation refers to either resolves to what it means, and then it is not
reported, or it resolves to nothing, and then it is reported exactly once, by its spelling. This
holds whatever adapters read the types and attributes. -/
theorem parse_resolves (source : String) (options : Options) (adapters : Adapters) {op : Operation}
    (inModule : op ∈ (parse source options adapters).unit.preorder) {reference : Reference}
    (inOperation : reference ∈ op.references) :
    match (parse source options adapters).unit.symbols.resolve reference with
    | some definition =>
      (parse source options adapters).unit.symbols.Binds reference definition ∧
        (parse source options adapters).unresolvedAt reference.span = []
    | none =>
      ∃ reason, (parse source options adapters).unresolvedAt reference.span =
        [.error (.unresolved reference.spelling reason) reference.span] := by
  obtain ⟨uses, settled, verdicts, wf, covered, distinct, resolved, unresolved, judged, reported,
      _⟩ := parse_judged source options adapters
  have used := covered op inModule reference inOperation
  -- Two uses at one place are the same use.
  have unique : ∀ other ∈ uses, other.span = reference.span → other = reference :=
    fun other member same => List.inj_on_of_nodup_map distinct member used same
  have atSpan : ((parse source options adapters).unresolvedAt reference.span).Perm
      ((verdicts.filter (·.reference.span == reference.span)).map .ofUnresolved) := by
    have filtered := reported.filter (·.span == reference.span)
    rw [List.filter_filter] at filtered
    have swapped : (parse source options adapters).unresolvedAt reference.span =
        (parse source options adapters).diagnostics.filter
          (fun diagnostic => diagnostic.span == reference.span && diagnostic.isUnresolved) := by
      rw [Parsed.unresolvedAt]
      exact List.filter_congr fun diagnostic _ => Bool.and_comm _ _
    rw [swapped]
    rw [List.filter_map] at filtered
    exact filtered
  have ofVerdict : ∀ verdict ∈ verdicts, verdict.reference ∈ uses := fun verdict member =>
    judged.mem_iff.2 (List.mem_append_right _ (List.mem_map_of_mem member))
  cases found : (parse source options adapters).unit.symbols.resolve reference with
  | some definition =>
    refine ⟨wf.binds_of_resolve found, ?_⟩
    have none_ : verdicts.filter (·.reference.span == reference.span) = [] := by
      apply List.filter_eq_nil_iff.2
      intro verdict member same
      have eq := unique verdict.reference (ofVerdict verdict member) (by simpa using same)
      have nothing := unresolved verdict member
      rw [eq, found] at nothing
      cases nothing
    rw [none_] at atSpan
    exact atSpan.eq_nil
  | none =>
    have inVerdicts : reference ∈ verdicts.map (·.reference) := by
      rcases List.mem_append.1 (judged.mem_iff.1 used) with early | late
      · have isSome := resolved reference early
        rw [found] at isSome
        cases isSome
      · exact late
    obtain ⟨verdict, member, rfl⟩ := List.mem_map.1 inVerdicts
    have nodup : (verdicts.map (·.reference.span)).Nodup := by
      have spans := (judged.map (·.span)).nodup_iff.1 distinct
      rw [List.map_append, List.map_map] at spans
      exact (List.nodup_append.1 spans).2.1
    have only : verdicts.filter (·.reference.span == verdict.reference.span) = [verdict] :=
      filter_eq_singleton nodup member
    rw [only] at atSpan
    exact ⟨verdict.reason, List.perm_singleton.1 atSpan⟩

/-- In a function that returns a value which nothing defines, the value is reported. -/
theorem parse_resolves_undefined :
    ∃ op ∈ (parse "cir.func @f() { cir.return %x : !t }" {}).unit.preorder,
      ∃ reference ∈ op.references, ∃ reason,
        (parse "cir.func @f() { cir.return %x : !t }" {}).unresolvedAt reference.span =
          [.error (.unresolved "%x" reason) reference.span] := by
  have listed : (fun parsed : Parsed => parsed.unit.preorder[1]?.map fun op =>
      op.references.map fun reference =>
        (reference.spelling, parsed.unit.symbols.resolve reference))
      (parse "cir.func @f() { cir.return %x : !t }" {}) = some [("%x", none)] := by
    cbv
  obtain ⟨op, second, only⟩ := Option.map_eq_some_iff.1 listed
  obtain ⟨reference, single, same⟩ := List.map_eq_singleton_iff.1 only
  obtain ⟨spelled, undefined⟩ := Prod.mk.inj same
  have inModule := List.mem_of_getElem? second
  have inOperation : reference ∈ op.references := single ▸ List.mem_singleton_self reference
  have resolved := parse_resolves _ {} _ inModule inOperation
  rw [undefined, spelled] at resolved
  exact ⟨op, inModule, reference, inOperation, resolved⟩

end CirText
