import CirText.Proofs.Scope.Course
import Mathlib.Data.List.Pairwise

/-!
# The places of labels along the course of a tracker

`Timeline` is a course that also tells where names are used and where labels are defined. When these
places follow each other in the source text, a verdict on a label is a statement about places: while
a scope is open no scope around it can get another label, so the labels around that are known when
the scope is closed are the ones in front of the use. `Timely` is the invariant that says so, for
verdicts that are given and for uses that wait.
-/

namespace CirText

namespace SymbolTable

/-- Whether a scope around the one of a reference has a label of the name in front of the
reference. -/
def LabelBefore (table : SymbolTable) (reference : Reference) : Prop :=
  ∃ id ∈ table.enclosing reference.scope, ∃ definition ∈ table.labelIn reference.name id,
    definition.span.Before reference.span

instance (table : SymbolTable) (reference : Reference) : Decidable (table.LabelBefore reference) :=
  inferInstanceAs (Decidable (∃ id ∈ table.enclosing reference.scope,
    ∃ definition ∈ table.labelIn reference.name id, definition.span.Before reference.span))

/-- Why a label points nowhere: it belongs to a scope around, or it is not defined in front. -/
def labelReason (table : SymbolTable) (reference : Reference) : UnresolvedReason :=
  if table.LabelBefore reference then .crossRegion else .notDefined

/-- Why a reference points nowhere, by the table of the whole module. -/
def reasonFor (table : SymbolTable) (reference : Reference) : UnresolvedReason :=
  match reference.kind with
  | .value => .notDefined
  | .label => table.labelReason reference
  | .symbol => .undeclared

end SymbolTable

namespace Tracker

/-- The steps of a tracker as in `Course`, with the places of uses and of labels. -/
inductive Timeline (start : Tracker) :
    List Span → List Reference → List Unresolved → Tracker → Prop where
  /-- No step. -/
  | refl : Timeline start [] [] [] start
  /-- A scope is opened. -/
  | push {marks uses verdicts tracker} (before : Timeline start marks uses verdicts tracker) :
      Timeline start marks uses verdicts tracker.push
  /-- A scope is closed. -/
  | pop {marks uses verdicts tracker} (before : Timeline start marks uses verdicts tracker) :
      Timeline start marks uses (verdicts ++ tracker.pop.2) tracker.pop.1
  /-- A value or a symbol is defined, if it does not clash. -/
  | define {marks uses verdicts tracker} (before : Timeline start marks uses verdicts tracker)
      {kind : NameKind} (notLabel : kind ≠ .label) (name : String) (span : Span) :
      Timeline start marks uses verdicts (tracker.define kind name span).2.2
  /-- A label is defined, if it does not clash. -/
  | defineLabel {marks uses verdicts tracker} (before : Timeline start marks uses verdicts tracker)
      (name : String) (span : Span) :
      Timeline start (marks ++ [span]) uses verdicts (tracker.define .label name span).2.2
  /-- A name is used. -/
  | refer {marks uses verdicts tracker} (before : Timeline start marks uses verdicts tracker)
      (kind : NameKind) (name : String) (span : Span) :
      Timeline start (marks ++ [span]) (uses ++ [(tracker.refer kind name span).1]) verdicts
        (tracker.refer kind name span).2

variable {tracker last : Tracker} {marks : List Span} {uses : List Reference}
  {verdicts : List Unresolved}

theorem span_refer (tracker : Tracker) (kind : NameKind) (name : String) (span : Span) :
    (tracker.refer kind name span).1.span = span := by
  cases kind <;> rfl

namespace Timeline

theorem course (timeline : Timeline tracker marks uses verdicts last) :
    Course tracker uses verdicts last := by
  induction timeline with
  | refl => exact .refl
  | push _ ih => exact ih.push
  | pop _ ih => exact ih.pop
  | define _ _ name span ih => exact ih.define _ name span
  | defineLabel _ name span ih => exact ih.define .label name span
  | refer _ kind name span ih => exact ih.refer kind name span

/-- The uses stand at some of the places. -/
theorem spans (timeline : Timeline tracker marks uses verdicts last) :
    (uses.map (·.span)).Sublist marks := by
  induction timeline with
  | refl => exact List.Sublist.slnil
  | push _ ih => exact ih
  | pop _ ih => exact ih
  | define _ _ _ _ ih => exact ih
  | defineLabel _ _ _ ih => exact ih.trans (List.sublist_append_left _ _)
  | refer _ kind name span ih =>
    rw [List.map_append, List.map_singleton, span_refer]
    exact ih.append_right [span]

theorem trans {first middle : Tracker} {places : List Span} {more : List Reference}
    {others : List Unresolved} (left : Timeline first marks uses verdicts middle)
    (right : Timeline middle places more others last) :
    Timeline first (marks ++ places) (uses ++ more) (verdicts ++ others) last := by
  induction right with
  | refl => simpa using left
  | push _ ih => exact ih.push
  | pop _ ih =>
    rw [← List.append_assoc]
    exact ih.pop
  | define _ notLabel name span ih => exact ih.define notLabel name span
  | defineLabel _ name span ih =>
    rw [← List.append_assoc]
    exact ih.defineLabel name span
  | refer _ kind name span ih =>
    rw [← List.append_assoc, ← List.append_assoc]
    exact ih.refer kind name span

/-- Closing several scopes takes no place. -/
theorem popMany (count : Nat) (tracker : Tracker) :
    Timeline tracker [] [] (tracker.popMany count).2 (tracker.popMany count).1 := by
  induction count generalizing tracker with
  | zero => exact refl
  | succ count ih =>
    have closed : Timeline tracker [] [] tracker.pop.2 tracker.pop.1 := refl.pop
    exact closed.trans (ih tracker.pop.1)

end Timeline

/-! ## The invariant -/

/-- Whether places follow each other and none of them is empty. -/
def InOrder (marks : List Span) : Prop :=
  marks.Pairwise Span.Before ∧ ∀ span ∈ marks, span.start < span.stop

theorem InOrder.sublist {places : List Span} (h : InOrder marks) (part : places.Sublist marks) :
    InOrder places :=
  ⟨h.1.sublist part, fun span member => h.2 span (part.subset member)⟩

/-- What is known at a place about the labels in front of a use of a label. -/
structure InFront (table : SymbolTable) (marks : List Span) (reference : Reference) : Prop where
  /-- The use stands at one of the places. -/
  marked : reference.span ∈ marks
  /-- All labels in the scopes around it stand in front of it. -/
  around : ∀ id ∈ table.enclosing reference.scope, ∀ name definition,
    table.labelIn name id = some definition → definition.span.Before reference.span

/-- What is known at a place about a verdict on a use of a label. -/
structure Exact (table : SymbolTable) (marks : List Span) (verdict : Unresolved) : Prop where
  /-- The use stands at one of the places. -/
  marked : verdict.reference.span ∈ marks
  /-- The reason tells whether there is a label in front. -/
  reason : verdict.reason = table.labelReason verdict.reference

/-- The labels defined so far stand at the places, and so do the uses of labels, which know the
labels in front of them. -/
structure Timely (tracker : Tracker) (marks : List Span) (verdicts : List Unresolved) : Prop where
  /-- The labels stand at the places. -/
  labels : ∀ id name definition, tracker.table.labelIn name id = some definition →
    definition.span ∈ marks
  /-- The uses that wait. -/
  waits : ∀ frame ∈ tracker.current :: tracker.outer, ∀ reference ∈ frame.waiting.toList,
    reference.kind = .label → InFront tracker.table marks reference
  /-- The verdicts given. -/
  exact : ∀ verdict ∈ verdicts, Exact tracker.table marks verdict

namespace Timely

theorem start : Timely .start [] [] where
  labels id name definition found := by
    have nothing : (SymbolTable.empty.scope id).labels = [] := by
      cases id <;> rfl
    change findName name (SymbolTable.empty.scope id).labels = _ at found
    rw [nothing] at found
    cases found
  waits := by simp [Tracker.start]
  exact := by simp

end Timely

theorem InFront.more {table : SymbolTable} {reference : Reference}
    (front : InFront table marks reference)
    (places : List Span) : InFront table (marks ++ places) reference :=
  ⟨List.mem_append_left _ front.marked, front.around⟩

theorem Exact.more {table : SymbolTable} {verdict : Unresolved} (h : Exact table marks verdict)
    (places : List Span) : Exact table (marks ++ places) verdict :=
  ⟨List.mem_append_left _ h.marked, h.reason⟩

/-- A table in which the labels around a use are the same tells the same of it. -/
theorem labelBefore_congr {table other : SymbolTable} {reference : Reference}
    (around : other.enclosing reference.scope = table.enclosing reference.scope)
    (same : ∀ id ∈ table.enclosing reference.scope, ∀ definition,
      definition.span.Before reference.span →
        (other.labelIn reference.name id = some definition ↔
          table.labelIn reference.name id = some definition)) :
    other.LabelBefore reference ↔ table.LabelBefore reference := by
  unfold SymbolTable.LabelBefore
  rw [around]
  constructor
  · rintro ⟨id, inside, definition, found, front⟩
    exact ⟨id, inside, definition, (same id inside definition front).1 found, front⟩
  · rintro ⟨id, inside, definition, found, front⟩
    exact ⟨id, inside, definition, (same id inside definition front).2 found, front⟩

theorem Timely.more (h : Timely tracker marks verdicts) (places : List Span) :
    Timely tracker (marks ++ places) verdicts where
  labels id name definition found := List.mem_append_left _ (h.labels id name definition found)
  waits frame member reference waitsHere isLabel :=
    (h.waits frame member reference waitsHere isLabel).more places
  exact verdict member := (h.exact verdict member).more places

theorem Exact.congr {table other : SymbolTable} {verdict : Unresolved}
    (h : Exact table marks verdict)
    (same : other.LabelBefore verdict.reference ↔ table.LabelBefore verdict.reference) :
    Exact other marks verdict :=
  ⟨h.marked, h.reason.trans (if_congr same.symm rfl rfl)⟩

namespace Timely

/-! ## Opening and closing a scope -/

theorem push (h : Timely tracker marks verdicts) (accounted : Accounted tracker uses verdicts) :
    Timely tracker.push marks verdicts := by
  have sameLabels : ∀ id, id < tracker.table.scopes.size → ∀ name,
      (tracker.table.opened tracker.scope).labelIn name id = tracker.table.labelIn name id :=
    fun id old name => SymbolTable.labelIn_opened _ _ _ (Nat.ne_of_lt old)
  constructor
  · intro id name definition found
    change (tracker.table.opened tracker.scope).labelIn name id = _ at found
    by_cases new : id = tracker.table.scopes.size
    · rw [SymbolTable.labelIn, SymbolTable.scope_opened, if_pos new] at found
      cases found
    · rw [SymbolTable.labelIn_opened _ _ _ new] at found
      exact h.labels id name definition found
  · intro frame member reference waitsHere kind
    rcases List.mem_cons.1 member with rfl | outer
    · cases waitsHere
    · have front := h.waits frame outer reference waitsHere kind
      have inside := (accounted.waits frame outer reference waitsHere).inside
      refine ⟨front.marked, ?_⟩
      change ∀ id ∈ (tracker.table.opened tracker.scope).enclosing reference.scope,
        ∀ name definition, (tracker.table.opened tracker.scope).labelIn name id =
        some definition → _
      rw [SymbolTable.enclosing_opened _ inside]
      intro id around name definition found
      have old := Nat.lt_trans (SymbolTable.lt_of_mem_enclosing around) inside
      rw [sameLabels id old] at found
      exact front.around id around name definition found
  · intro verdict member
    have inside := (accounted.judged verdict member).2.1
    apply (h.exact verdict member).congr
    apply labelBefore_congr (SymbolTable.enclosing_opened _ inside)
    intro id around definition _
    have old := Nat.lt_trans (SymbolTable.lt_of_mem_enclosing around) inside
    exact iff_of_eq (congrArg (· = some definition) (sameLabels id old _))

/-- The verdict on a use that knows the labels in front of it. -/
theorem exact_of_judge {table : SymbolTable} {reference : Reference} {verdict : Unresolved}
    (front : InFront table marks reference)
    (given : judge table reference.scope reference = some verdict) : Exact table marks verdict := by
  obtain ⟨kind, same, _⟩ := Accounted.judge_eq_some given
  have known : (table.labelAround reference.name reference.scope).isSome ↔
      table.LabelBefore reference := by
    rw [SymbolTable.labelAround, List.findSome?_isSome_iff]
    constructor
    · rintro ⟨id, around, found⟩
      obtain ⟨definition, here⟩ := Option.isSome_iff_exists.1 found
      exact ⟨id, around, definition, here, front.around id around _ definition here⟩
    · rintro ⟨id, around, definition, here, _⟩
      exact ⟨id, around, Option.isSome_iff_exists.2 ⟨definition, here⟩⟩
  simp only [judge, kind, judgeLabel] at given
  split at given
  · cases given
  · split at given
    · rename_i isAround
      cases given
      exact ⟨front.marked, (if_pos (known.1 isAround)).symm⟩
    · rename_i nothing
      cases given
      exact ⟨front.marked, (if_neg (mt known.2 nothing)).symm⟩

theorem pop (h : Timely tracker marks verdicts) (accounted : Accounted tracker uses verdicts) :
    Timely tracker.pop.1 marks (verdicts ++ tracker.pop.2) := by
  cases around : tracker.outer with
  | nil =>
    have unchanged : tracker.pop = (tracker, []) := by simp [Tracker.pop, around]
    rw [unchanged, List.append_nil]
    exact h
  | cons parent outer =>
    have popped : tracker.pop =
        ({ tracker with
            current := { parent with
              waiting := parent.waiting ++
                tracker.current.waiting.filter (movesOut tracker.table tracker.scope) }
            outer },
          tracker.current.waiting.toList.filterMap (judge tracker.table tracker.scope)) := by
      simp [Tracker.pop, around]
    rw [popped]
    refine ⟨h.labels, ?_, ?_⟩
    · intro frame member reference waitsHere kind
      rcases List.mem_cons.1 member with rfl | member
      · simp only [Array.toList_append, Array.toList_filter, List.mem_append,
          List.mem_filter] at waitsHere
        rcases waitsHere with waitsHere | ⟨_, moves⟩
        · exact h.waits parent (by simp [around]) reference waitsHere kind
        · -- Only values move outwards.
          simp [movesOut, kind] at moves
      · exact h.waits frame (by simp [around, member]) reference waitsHere kind
    · intro verdict member
      rcases List.mem_append.1 member with early | late
      · exact h.exact verdict early
      · obtain ⟨reference, waitsHere, given⟩ := List.mem_filterMap.1 late
        have kind := (Accounted.judge_eq_some given).1
        have home := (accounted.waits _ List.mem_cons_self reference waitsHere).label kind
        have front := h.waits _ List.mem_cons_self reference waitsHere kind
        change reference.scope = tracker.scope at home
        rw [← home] at given
        exact exact_of_judge front given

/-! ## Defining and using names -/

theorem define (h : Timely tracker marks verdicts) (accounted : Accounted tracker uses verdicts)
    {kind : NameKind} (notLabel : kind ≠ .label) (name : String) (span : Span) :
    Timely (tracker.define kind name span).2.2 marks verdicts := by
  unfold Tracker.define
  split
  · exact h
  · let definition : Definition := ⟨kind, name, span, tracker.home kind⟩
    have inside : definition.scope < tracker.table.scopes.size := accounted.home_lt kind
    have sameLabels : ∀ id other,
        (tracker.table.insert definition).labelIn other id = tracker.table.labelIn other id :=
      fun id other =>
        SymbolTable.labelIn_insert_of_ne inside (fun isLabel => absurd isLabel notLabel) other
    constructor
    · intro id other found here
      change (tracker.table.insert definition).labelIn other id = _ at here
      rw [sameLabels] at here
      exact h.labels id other found here
    · intro frame member reference waitsHere isLabel
      have front := h.waits frame member reference waitsHere isLabel
      refine ⟨front.marked, ?_⟩
      change ∀ id ∈ (tracker.table.insert definition).enclosing reference.scope, ∀ other found,
        (tracker.table.insert definition).labelIn other id = some found → _
      rw [SymbolTable.enclosing_insert inside]
      intro id around other found here
      rw [sameLabels] at here
      exact front.around id around other found here
    · intro verdict member
      apply (h.exact verdict member).congr
      apply labelBefore_congr (SymbolTable.enclosing_insert inside _)
      intro id _ found _
      exact iff_of_eq (congrArg (· = some found) (sameLabels id _))

/-- A new label belongs to a scope that is around no open scope, and stands behind all that is
known. -/
theorem defineLabel (h : Timely tracker marks verdicts)
    (accounted : Accounted tracker uses verdicts) (name : String) {span : Span}
    (ordered : InOrder (marks ++ [span])) :
    Timely (tracker.define .label name span).2.2 (marks ++ [span]) verdicts := by
  unfold Tracker.define
  split
  · exact h.more [span]
  · rename_i unclashed
    let definition : Definition := ⟨.label, name, span, tracker.scope⟩
    have inside : definition.scope < tracker.table.scopes.size := accounted.inside
    have new : tracker.table.labelIn name tracker.scope = none := by
      simp only [clash?, Option.orElse_eq_orElse, Option.orElse_eq_or, Option.or_eq_none_iff]
        at unclashed
      exact unclashed.1
    have elsewhere : ∀ id other, id ≠ tracker.scope →
        (tracker.table.insert definition).labelIn other id = tracker.table.labelIn other id :=
      fun id other away => SymbolTable.labelIn_insert_of_ne inside (fun _ => away) other
    have here : ∀ other, (tracker.table.insert definition).labelIn other tracker.scope =
        if name = other then some definition
        else tracker.table.labelIn other tracker.scope := by
      intro other
      rw [SymbolTable.labelIn, SymbolTable.labels_insert inside, if_pos ⟨rfl, rfl⟩, findName_cons]
      rfl
    constructor
    · intro id other found known
      change (tracker.table.insert definition).labelIn other id = _ at known
      by_cases away : id = tracker.scope
      · rw [away, here] at known
        split at known
        · cases known
          exact List.mem_append_right _ (List.mem_singleton_self _)
        · exact List.mem_append_left _ (h.labels tracker.scope other found known)
      · rw [elsewhere id other away] at known
        exact List.mem_append_left _ (h.labels id other found known)
    · intro frame member reference waitsHere isLabel
      have front := h.waits frame member reference waitsHere isLabel
      have home := (accounted.waits frame member reference waitsHere).label isLabel
      have isOpen : frame.scope ∈ tracker.table.chain tracker.scope := by
        rw [← accounted.openScopes_eq]
        exact List.mem_map_of_mem member
      refine ⟨List.mem_append_left _ front.marked, ?_⟩
      change ∀ id ∈ (tracker.table.insert definition).enclosing reference.scope, ∀ other found,
        (tracker.table.insert definition).labelIn other id = some found → _
      rw [SymbolTable.enclosing_insert inside]
      intro id around other found known
      have away : id ≠ tracker.scope := by
        rintro rfl
        have below := SymbolTable.lt_of_mem_enclosing around
        rw [home] at below
        rcases List.mem_cons.1 isOpen with same | further
        · exact Nat.lt_irrefl _ (same ▸ below)
        · exact Nat.lt_asymm below (SymbolTable.lt_of_mem_enclosing further)
      rw [elsewhere id other away] at known
      exact front.around id around other found known
    · intro verdict member
      have given := h.exact verdict member
      have behind : ¬span.Before verdict.reference.span := by
        have before := (List.pairwise_append.1 ordered.1).2.2 _ given.marked span
          (List.mem_singleton_self _)
        have some_ := ordered.2 _ (List.mem_append_left _ given.marked)
        have other := ordered.2 span (List.mem_append_right _ (List.mem_singleton_self _))
        unfold Span.Before at before ⊢
        omega
      apply (given.more [span]).congr
      apply labelBefore_congr (SymbolTable.enclosing_insert inside _)
      intro id _ found front
      by_cases away : id = tracker.scope
      · rw [away, here]
        split
        · rename_i same
          rw [← same, new]
          constructor
          · rintro ⟨⟩
            exact absurd front behind
          · rintro ⟨⟩
        · rfl
      · exact iff_of_eq (congrArg (· = some found) (elsewhere id _ away))

theorem refer (h : Timely tracker marks verdicts) (kind : NameKind) (name : String) {span : Span}
    (ordered : InOrder (marks ++ [span])) :
    Timely (tracker.refer kind name span).2 (marks ++ [span]) verdicts := by
  have new : InFront tracker.table (marks ++ [span]) ⟨kind, name, span, tracker.scope⟩ := by
    refine ⟨List.mem_append_right _ (List.mem_singleton_self _), ?_⟩
    intro id _ other found known
    exact (List.pairwise_append.1 ordered.1).2.2 _ (h.labels id other found known) span
      (List.mem_singleton_self _)
  have waitsWithNew : ∀ frame ∈ { tracker.current with
        waiting := tracker.current.waiting.push ⟨kind, name, span, tracker.scope⟩ } ::
        tracker.outer,
      ∀ reference ∈ frame.waiting.toList, reference.kind = .label →
        InFront tracker.table (marks ++ [span]) reference := by
    intro frame member reference waitsHere isLabel
    rcases List.mem_cons.1 member with rfl | member
    · simp only [Array.toList_push, List.mem_append, List.mem_singleton] at waitsHere
      rcases waitsHere with waitsHere | rfl
      · exact (h.waits _ List.mem_cons_self reference waitsHere isLabel).more [span]
      · exact new
    · exact (h.waits frame (List.mem_cons_of_mem _ member) reference waitsHere isLabel).more [span]
  have more := h.more [span]
  cases kind with
  | symbol => exact ⟨more.labels, more.waits, more.exact⟩
  | value => exact ⟨more.labels, waitsWithNew, more.exact⟩
  | label => exact ⟨more.labels, waitsWithNew, more.exact⟩

/-- The invariant holds along every timeline with its places in order. -/
theorem timeline (steps : Timeline .start marks uses verdicts tracker) (ordered : InOrder marks) :
    Timely tracker marks verdicts := by
  induction steps with
  | refl => exact start
  | push before ih => exact (ih ordered).push (Accounted.start.course before.course)
  | pop before ih => exact (ih ordered).pop (Accounted.start.course before.course)
  | define before notLabel name span ih =>
    exact (ih ordered).define (Accounted.start.course before.course) notLabel name span
  | defineLabel before name span ih =>
    exact (ih (ordered.sublist (List.sublist_append_left _ _))).defineLabel
      (Accounted.start.course before.course) name ordered
  | refer _ kind name span ih =>
    exact (ih (ordered.sublist (List.sublist_append_left _ _))).refer kind name ordered

end Timely

/-! ## The end of a module -/

/-- Each verdict gives the reason that the final table tells, on labels by the places of the labels
around. -/
theorem finish_reason (steps : Timeline .start marks uses verdicts tracker)
    (ordered : InOrder marks) :
    ∀ verdict ∈ verdicts ++ tracker.finish.2,
      verdict.reason = tracker.finish.1.reasonFor verdict.reference := by
  let closed := (tracker.popMany tracker.outer.length).1
  let late := (tracker.popMany tracker.outer.length).2
  have all : Timeline .start marks uses (verdicts ++ late) closed := by
    simpa using steps.trans (Timeline.popMany tracker.outer.length tracker)
  have accounted : Accounted closed uses (verdicts ++ late) := by
    simpa using Accounted.start.course all.course
  have timely : Timely closed marks (verdicts ++ late) := .timeline all ordered
  have atRoot : closed.scope = ScopeId.root := by
    have nested := accounted.nested
    rw [outer_popMany, List.drop_length, List.map_nil] at nested
    exact accounted.table.eq_root_of_enclosing_eq_nil accounted.inside nested.symm
  have nothingAround : closed.table.enclosing .root = [] := by
    rw [List.eq_nil_iff_forall_not_mem]
    intro id around
    exact Nat.not_lt_zero id (SymbolTable.lt_of_mem_enclosing around)
  intro verdict member
  change verdict.reason = closed.table.reasonFor verdict.reference
  have parts : verdict ∈ verdicts ++ late ∨
      verdict ∈ closed.current.waiting.toList.filterMap (judgeAtEnd closed.table) ∨
      verdict ∈ closed.symbolUses.toList.filterMap (judgeSymbol closed.table) := by
    have member' : verdict ∈ verdicts ++ (late ++
        closed.current.waiting.toList.filterMap (judgeAtEnd closed.table) ++
        closed.symbolUses.toList.filterMap (judgeSymbol closed.table)) := member
    simp only [List.mem_append] at member' ⊢
    tauto
  rcases parts with early | waiting | symbol
  · rw [SymbolTable.reasonFor, (accounted.judged verdict early).1]
    exact (timely.exact verdict early).reason
  · obtain ⟨reference, waitsHere, given⟩ := List.mem_filterMap.1 waiting
    have waits := accounted.waits closed.current List.mem_cons_self reference waitsHere
    have same : verdict = ⟨reference, .notDefined⟩ := by
      simp only [judgeAtEnd, Option.ite_none_left_eq_some, Option.some.injEq] at given
      exact given.2.symm
    subst same
    cases kind : reference.kind with
    | symbol => exact absurd kind waits.kind
    | value => rw [SymbolTable.reasonFor, kind]
    | label =>
      have home : reference.scope = ScopeId.root := (waits.label kind).trans atRoot
      have none_ : ¬closed.table.LabelBefore reference := by
        rintro ⟨id, around, _⟩
        rw [home, nothingAround] at around
        cases around
      rw [SymbolTable.reasonFor, kind]
      exact (if_neg none_).symm
  · obtain ⟨reference, used, given⟩ := List.mem_filterMap.1 symbol
    have same : verdict = ⟨reference, .undeclared⟩ := by
      simp only [judgeSymbol, Option.ite_none_left_eq_some, Option.some.injEq] at given
      exact given.2.symm
    subst same
    rw [SymbolTable.reasonFor, accounted.symbolUses reference used]

end Tracker

end CirText
