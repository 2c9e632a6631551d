import CirText.Proofs.Scope.Table
import CirText.Scope.Tracker

/-!
# The course of a tracker

A tracker changes by opening and closing scopes, by definitions and by uses. `Course` relates the
tracker before any number of such steps to the one after them, with the uses that were noted and the
verdicts that were given on the way.

The verdicts are given as early as they can be, long before the table is complete. `Accounted` is
the invariant that makes them right in the end: every use so far is either settled, judged, or waits
in an open scope such that no scope closed since defines its name.
-/

namespace CirText.Tracker

/-- The steps of a tracker from one state to another, with the uses noted and the verdicts given. -/
inductive Course (start : Tracker) : List Reference → List Unresolved → Tracker → Prop where
  /-- No step. -/
  | refl : Course start [] [] start
  /-- A scope is opened. -/
  | push {uses verdicts tracker} (before : Course start uses verdicts tracker) :
      Course start uses verdicts tracker.push
  /-- A scope is closed. -/
  | pop {uses verdicts tracker} (before : Course start uses verdicts tracker) :
      Course start uses (verdicts ++ tracker.pop.2) tracker.pop.1
  /-- A name is defined, if it does not clash. -/
  | define {uses verdicts tracker} (before : Course start uses verdicts tracker)
      (kind : NameKind) (name : String) (span : Span) :
      Course start uses verdicts (tracker.define kind name span).2.2
  /-- A name is used. -/
  | refer {uses verdicts tracker} (before : Course start uses verdicts tracker)
      (kind : NameKind) (name : String) (span : Span) :
      Course start (uses ++ [(tracker.refer kind name span).1]) verdicts
        (tracker.refer kind name span).2

namespace Course

theorem trans {first middle last : Tracker} {uses more : List Reference}
    {verdicts others : List Unresolved} (left : Course first uses verdicts middle)
    (right : Course middle more others last) :
    Course first (uses ++ more) (verdicts ++ others) last := by
  induction right with
  | refl => simpa using left
  | push _ ih => exact ih.push
  | pop _ ih =>
    rw [← List.append_assoc]
    exact ih.pop
  | define _ kind name span ih => exact ih.define kind name span
  | refer _ kind name span ih =>
    rw [← List.append_assoc]
    exact ih.refer kind name span

/-- Closing several scopes is a course without uses. -/
theorem popMany (count : Nat) (tracker : Tracker) :
    Course tracker [] (tracker.popMany count).2 (tracker.popMany count).1 := by
  induction count generalizing tracker with
  | zero => exact refl
  | succ count ih =>
    have closed : Course tracker [] tracker.pop.2 tracker.pop.1 := refl.pop
    exact closed.trans (ih tracker.pop.1)

end Course

/-! ## The invariant -/

/-- The uses that wait for a verdict in some open scope. -/
def waiting (tracker : Tracker) : List Reference :=
  (tracker.current :: tracker.outer).flatMap (·.waiting.toList)

/-- What is known of a use that waits in an open scope: a label is used in that scope itself, and a
value in a scope inside it, where no scope in between is open or defines the value. -/
structure Waits (tracker : Tracker) (id : ScopeId) (reference : Reference) : Prop where
  /-- The scope of the use exists. -/
  inside : reference.scope < tracker.table.scopes.size
  /-- Symbols wait elsewhere. -/
  kind : reference.kind ≠ .symbol
  /-- A label waits where it is used. -/
  label : reference.kind = .label → reference.scope = id
  /-- A value has moved outwards through closed scopes without a definition of it. -/
  value : reference.kind = .value →
    ∃ closed, tracker.table.chain reference.scope = closed ++ tracker.table.chain id ∧
      ∀ other ∈ closed, other ∉ tracker.openScopes ∧
        tracker.table.valueIn reference.name other = none

/-- Every use noted so far is accounted for by the state of the tracker and the verdicts given. -/
structure Accounted (tracker : Tracker) (uses : List Reference) (verdicts : List Unresolved) :
    Prop where
  /-- The table is in order. -/
  table : tracker.table.WellFormed
  /-- The open scopes are the current one and the ones around it. -/
  nested : tracker.outer.map (·.scope) = tracker.table.enclosing tracker.scope
  /-- The current scope exists. -/
  inside : tracker.scope < tracker.table.scopes.size
  /-- The uses that wait in open scopes. -/
  waits : ∀ frame ∈ tracker.current :: tracker.outer, ∀ reference ∈ frame.waiting.toList,
    tracker.Waits frame.scope reference
  /-- The uses of symbols. -/
  symbolUses : ∀ reference ∈ tracker.symbolUses.toList, reference.kind = .symbol
  /-- A verdict was given on labels of closed scopes that do not define them. -/
  judged : ∀ verdict ∈ verdicts, verdict.reference.kind = .label ∧
    verdict.reference.scope < tracker.table.scopes.size ∧
    verdict.reference.scope ∉ tracker.openScopes ∧
    tracker.table.labelIn verdict.reference.name verdict.reference.scope = none
  /-- No use is forgotten: each is settled for good, judged, or still waits. -/
  complete : ∃ settled : List Reference,
    (∀ reference ∈ settled, reference.scope < tracker.table.scopes.size ∧
      (tracker.table.resolve reference).isSome) ∧
    uses.Perm (settled ++ verdicts.map (·.reference) ++ tracker.waiting ++
      tracker.symbolUses.toList)

namespace Accounted

variable {tracker : Tracker} {uses : List Reference} {verdicts : List Unresolved}

theorem openScopes_eq (h : Accounted tracker uses verdicts) :
    tracker.openScopes = tracker.table.chain tracker.scope := by
  rw [openScopes, h.nested]
  rfl

theorem lt_of_mem_openScopes (h : Accounted tracker uses verdicts) {id : ScopeId}
    (member : id ∈ tracker.openScopes) : id < tracker.table.scopes.size := by
  rw [h.openScopes_eq] at member
  rcases List.mem_cons.1 member with rfl | around
  · exact h.inside
  · exact Nat.lt_trans (SymbolTable.lt_of_mem_enclosing around) h.inside

theorem start : Accounted .start [] [] where
  table := .empty
  nested := by
    rw [SymbolTable.enclosing_eq]
    rfl
  inside := by decide
  waits := by simp [Tracker.start]
  symbolUses := by simp [Tracker.start]
  judged := by simp
  complete := ⟨[], by simp, by simp [Tracker.start, waiting]⟩

/-! ## Opening a scope -/

theorem waits_push {id : ScopeId} {reference : Reference} (waits : tracker.Waits id reference)
    (existing : id < tracker.table.scopes.size) :
    tracker.push.Waits id reference where
  inside := SymbolTable.lt_size_opened tracker.scope waits.inside
  kind := waits.kind
  label := waits.label
  value kind := by
    obtain ⟨closed, chain, unknown⟩ := waits.value kind
    refine ⟨closed, ?_, ?_⟩
    · change (tracker.table.opened tracker.scope).chain reference.scope =
        closed ++ (tracker.table.opened tracker.scope).chain id
      rw [SymbolTable.chain, SymbolTable.enclosing_opened _ waits.inside, SymbolTable.chain,
        SymbolTable.enclosing_opened _ existing]
      exact chain
    · intro other member
      obtain ⟨notOpen, undefined⟩ := unknown other member
      have inChain : other ∈ tracker.table.chain reference.scope := by
        rw [chain]
        exact List.mem_append_left _ member
      have old : other < tracker.table.scopes.size := by
        rcases List.mem_cons.1 inChain with rfl | around
        · exact waits.inside
        · exact Nat.lt_trans (SymbolTable.lt_of_mem_enclosing around) waits.inside
      constructor
      · intro isOpen
        rcases List.mem_cons.1 isOpen with rfl | outer
        · exact Nat.lt_irrefl _ old
        · exact notOpen outer
      · change (tracker.table.opened tracker.scope).valueIn reference.name other = none
        rw [SymbolTable.valueIn_opened _ _ _ (Nat.ne_of_lt old), undefined]

theorem push (h : Accounted tracker uses verdicts) : Accounted tracker.push uses verdicts where
  table := h.table.opened h.inside
  nested := by
    change tracker.scope :: tracker.outer.map (·.scope) =
      (tracker.table.opened tracker.scope).enclosing tracker.table.scopes.size
    rw [SymbolTable.enclosing_opened_size h.inside, h.nested]
  inside := by
    change tracker.table.scopes.size < (tracker.table.opened tracker.scope).scopes.size
    rw [SymbolTable.size_opened]
    exact Nat.lt_succ_self _
  waits frame member reference waitsHere := by
    rcases List.mem_cons.1 member with rfl | outer
    · cases waitsHere
    · have isOpen : frame.scope ∈ tracker.openScopes := by
        rcases List.mem_cons.1 outer with rfl | outer
        · exact List.mem_cons_self
        · exact List.mem_cons_of_mem _ (List.mem_map_of_mem outer)
      exact waits_push (h.waits frame outer reference waitsHere)
        (h.lt_of_mem_openScopes isOpen)
  symbolUses := h.symbolUses
  judged verdict member := by
    obtain ⟨kind, inside, closed, undefined⟩ := h.judged verdict member
    refine ⟨kind, SymbolTable.lt_size_opened tracker.scope inside, ?_, ?_⟩
    · intro isOpen
      rcases List.mem_cons.1 isOpen with new | outer
      · exact Nat.lt_irrefl _ (new ▸ inside)
      · exact closed outer
    · change (tracker.table.opened tracker.scope).labelIn _ _ = _
      rw [SymbolTable.labelIn_opened _ _ _ (Nat.ne_of_lt inside), undefined]
  complete := by
    obtain ⟨settled, resolved, all⟩ := h.complete
    refine ⟨settled, ?_, ?_⟩
    · intro reference member
      obtain ⟨inside, known⟩ := resolved reference member
      constructor
      · exact SymbolTable.lt_size_opened tracker.scope inside
      · change ((tracker.table.opened tracker.scope).resolve reference).isSome
        rw [SymbolTable.resolve_opened inside]
        exact known
    · simpa [waiting, Tracker.push] using all

/-! ## Closing a scope -/

/-- A use that no longer waits once its scope is closed, because the scope defines it. -/
private def isSettledBy (table : SymbolTable) (id : ScopeId) (reference : Reference) : Bool :=
  !movesOut table id reference && (judge table id reference).isNone

/-- A verdict on closing a scope is given on a label that the scope does not define. -/
theorem judge_eq_some {table : SymbolTable} {id : ScopeId} {reference : Reference}
    {verdict : Unresolved} (h : judge table id reference = some verdict) :
    reference.kind = .label ∧ verdict.reference = reference ∧
      table.labelIn reference.name id = none := by
  unfold judge at h
  split at h
  · rename_i kind
    simp only [judgeLabel] at h
    split at h
    · cases h
    · rename_i undefined
      have unknown : table.labelIn reference.name id = none := by simpa using undefined
      split at h <;> cases h <;> exact ⟨kind, rfl, unknown⟩
  · cases h
  · cases h

/-- Closing a scope splits its waiting uses into settled ones, judged ones and moving ones. -/
private theorem perm_close (table : SymbolTable) (id : ScopeId) (uses : List Reference) :
    uses.Perm (uses.filter (isSettledBy table id) ++
      (uses.filterMap (judge table id)).map (·.reference) ++ uses.filter (movesOut table id)) := by
  rw [List.perm_iff_count]
  intro other
  induction uses with
  | nil => simp
  | cons reference uses ih =>
    simp only [List.count_append] at ih
    cases verdict : judge table id reference with
    | none =>
      by_cases moves : movesOut table id reference = true
      · have unsettled : isSettledBy table id reference = false := by simp [isSettledBy, moves]
        simp only [List.filter_cons, moves, unsettled, List.filterMap_cons, verdict, if_true,
          List.count_append, List.count_cons]
        simp only [Bool.false_eq_true, if_false]
        omega
      · have settled : isSettledBy table id reference = true := by
          simp [isSettledBy, moves, verdict]
        simp only [List.filter_cons, moves, settled, List.filterMap_cons, verdict, if_true,
          List.count_append, List.count_cons]
        simp only [Bool.false_eq_true, if_false]
        omega
    | some found =>
      obtain ⟨kind, same, _⟩ := judge_eq_some verdict
      have unsettled : isSettledBy table id reference = false := by simp [isSettledBy, verdict]
      have stays : movesOut table id reference = false := by simp [movesOut, kind]
      simp only [List.filter_cons, stays, unsettled, List.filterMap_cons, verdict, List.map_cons,
        same, List.count_append, List.count_cons]
      simp only [Bool.false_eq_true, if_false]
      omega

theorem isSome_resolve_of_isSettledBy (tracker : Tracker) {id : ScopeId} {reference : Reference}
    (waits : tracker.Waits id reference)
    (settled : isSettledBy tracker.table id reference = true) :
    (tracker.table.resolve reference).isSome := by
  simp only [isSettledBy, movesOut, judge, Bool.and_eq_true, Bool.not_eq_true'] at settled
  obtain ⟨stays, unjudged⟩ := settled
  cases kind : reference.kind with
  | symbol => exact absurd kind waits.kind
  | label =>
    simp only [kind, judgeLabel] at unjudged
    rw [SymbolTable.resolve, kind, waits.label kind]
    split at unjudged
    · assumption
    · split at unjudged <;> simp at unjudged
  | value =>
    rw [SymbolTable.isSome_resolve_value kind]
    obtain ⟨closed, chain, _⟩ := waits.value kind
    refine ⟨id, ?_, ?_⟩
    · rw [chain]
      exact List.mem_append_right _ List.mem_cons_self
    · simpa [kind, Option.isSome_iff_ne_none] using stays

/-- A use that moves outwards waits in the scope around. -/
theorem waits_moved (h : Accounted tracker uses verdicts) {parent : Frame} {outer : List Frame}
    (around : tracker.outer = parent :: outer) {reference : Reference}
    (waits : tracker.Waits tracker.scope reference)
    (moves : movesOut tracker.table tracker.scope reference = true) :
    tracker.pop.1.Waits parent.scope reference := by
  have nested := h.nested
  rw [around, List.map_cons] at nested
  have outside := SymbolTable.enclosing_eq_cons nested.symm
  have popped : tracker.pop.1.table = tracker.table := by simp [Tracker.pop, around]
  have stillOpen : tracker.pop.1.openScopes = tracker.table.enclosing tracker.scope := by
    rw [← nested]
    simp [Tracker.pop, around, openScopes]
  simp only [movesOut, Bool.and_eq_true, beq_iff_eq, Option.isNone_iff_eq_none] at moves
  refine ⟨?_, waits.kind, ?_, ?_⟩
  · rw [popped]
    exact waits.inside
  · intro kind
    rw [moves.1] at kind
    cases kind
  · intro kind
    obtain ⟨closed, chain, unknown⟩ := waits.value kind
    rw [popped, stillOpen]
    refine ⟨closed ++ [tracker.scope], ?_, ?_⟩
    · rw [chain, SymbolTable.chain, ← nested, SymbolTable.chain, outside, List.append_assoc]
      rfl
    · intro other member
      rcases List.mem_append.1 member with member | member
      · obtain ⟨notOpen, undefined⟩ := unknown other member
        refine ⟨?_, undefined⟩
        rw [h.openScopes_eq] at notOpen
        exact fun isOpen => notOpen (List.mem_cons_of_mem _ isOpen)
      · rw [List.mem_singleton.1 member]
        exact ⟨fun isOpen => Nat.lt_irrefl _ (SymbolTable.lt_of_mem_enclosing isOpen), moves.2⟩

/-- A use that waits further out is not touched when the innermost scope is closed. -/
theorem waits_pop (h : Accounted tracker uses verdicts) {parent : Frame} {outer : List Frame}
    (around : tracker.outer = parent :: outer) {id : ScopeId} {reference : Reference}
    (waits : tracker.Waits id reference) : tracker.pop.1.Waits id reference := by
  have nested := h.nested
  rw [around, List.map_cons] at nested
  have popped : tracker.pop.1.table = tracker.table := by simp [Tracker.pop, around]
  have stillOpen : tracker.pop.1.openScopes = tracker.table.enclosing tracker.scope := by
    rw [← nested]
    simp [Tracker.pop, around, openScopes]
  refine ⟨?_, waits.kind, waits.label, ?_⟩
  · rw [popped]
    exact waits.inside
  · intro kind
    obtain ⟨closed, chain, unknown⟩ := waits.value kind
    rw [popped, stillOpen]
    refine ⟨closed, chain, ?_⟩
    intro other member
    obtain ⟨notOpen, undefined⟩ := unknown other member
    refine ⟨?_, undefined⟩
    rw [h.openScopes_eq] at notOpen
    exact fun isOpen => notOpen (List.mem_cons_of_mem _ isOpen)

theorem pop (h : Accounted tracker uses verdicts) :
    Accounted tracker.pop.1 uses (verdicts ++ tracker.pop.2) := by
  cases around : tracker.outer with
  | nil =>
    have unchanged : tracker.pop = (tracker, []) := by simp [Tracker.pop, around]
    rw [unchanged, List.append_nil]
    exact h
  | cons parent outer =>
    have nested := h.nested
    rw [around, List.map_cons] at nested
    have outside := SymbolTable.enclosing_eq_cons nested.symm
    have popped : tracker.pop =
        ({ tracker with
            current := { parent with
              waiting := parent.waiting ++
                tracker.current.waiting.filter (movesOut tracker.table tracker.scope) }
            outer },
          tracker.current.waiting.toList.filterMap (judge tracker.table tracker.scope)) := by
      simp [Tracker.pop, around]
    have stillOpen : tracker.pop.1.openScopes = tracker.table.enclosing tracker.scope := by
      rw [popped, ← nested]
      rfl
    have parentWaits : ∀ reference ∈ parent.waiting.toList,
        tracker.pop.1.Waits parent.scope reference := fun reference member =>
      h.waits_pop around (h.waits parent (by simp [around]) reference member)
    have currentWaits : ∀ reference ∈ tracker.current.waiting.toList,
        tracker.Waits tracker.scope reference := fun reference member =>
      h.waits tracker.current List.mem_cons_self reference member
    constructor
    · rw [popped]
      exact h.table
    · rw [popped]
      exact outside.symm
    · rw [popped]
      have member : parent.scope ∈ tracker.table.enclosing tracker.scope := by
        rw [← nested]
        exact List.mem_cons_self
      exact Nat.lt_trans (SymbolTable.lt_of_mem_enclosing member) h.inside
    · intro frame member reference waitsHere
      rw [popped] at member
      rcases List.mem_cons.1 member with rfl | member
      · simp only [Array.toList_append, Array.toList_filter, List.mem_append,
          List.mem_filter] at waitsHere
        rcases waitsHere with waitsHere | ⟨waitsHere, moves⟩
        · exact parentWaits reference waitsHere
        · exact h.waits_moved around (currentWaits reference waitsHere) moves
      · have further : frame ∈ tracker.current :: tracker.outer := by
          rw [around]
          exact List.mem_cons_of_mem _ (List.mem_cons_of_mem _ member)
        exact h.waits_pop around (h.waits frame further reference waitsHere)
    · rw [popped]
      exact h.symbolUses
    · intro verdict member
      rw [stillOpen]
      rw [popped] at member ⊢
      rcases List.mem_append.1 member with member | member
      · obtain ⟨kind, inside, closed, undefined⟩ := h.judged verdict member
        refine ⟨kind, inside, ?_, undefined⟩
        rw [h.openScopes_eq] at closed
        exact fun isOpen => closed (List.mem_cons_of_mem _ isOpen)
      · obtain ⟨reference, waitsHere, given⟩ := List.mem_filterMap.1 member
        obtain ⟨kind, same, undefined⟩ := judge_eq_some given
        have waits := currentWaits reference waitsHere
        rw [same, waits.label kind]
        exact ⟨kind, h.inside,
          fun isOpen => Nat.lt_irrefl _ (SymbolTable.lt_of_mem_enclosing isOpen), undefined⟩
    · obtain ⟨settled, resolved, all⟩ := h.complete
      refine ⟨settled ++
        tracker.current.waiting.toList.filter (isSettledBy tracker.table tracker.scope), ?_, ?_⟩
      · intro reference member
        rw [popped]
        rcases List.mem_append.1 member with member | member
        · exact resolved reference member
        · obtain ⟨waitsHere, settledHere⟩ := List.mem_filter.1 member
          have waits := currentWaits reference waitsHere
          exact ⟨waits.inside, isSome_resolve_of_isSettledBy tracker waits settledHere⟩
      · have split := perm_close tracker.table tracker.scope tracker.current.waiting.toList
        rw [List.perm_iff_count] at all split ⊢
        intro reference
        have total := all reference
        have parts := split reference
        rw [popped]
        simp only [waiting, around, List.flatMap_cons, List.count_append, List.map_append,
          Array.toList_append, Array.toList_filter] at total parts ⊢
        omega

/-! ## Defining and using names -/

/-- Every definition goes into an open scope. -/
theorem home_mem_openScopes (tracker : Tracker) {kind : NameKind} (notSymbol : kind ≠ .symbol) :
    tracker.home kind ∈ tracker.openScopes := by
  cases kind with
  | symbol => exact absurd rfl notSymbol
  | value => exact List.mem_cons_self
  | label => exact List.mem_cons_self

theorem home_lt (h : Accounted tracker uses verdicts) (kind : NameKind) :
    tracker.home kind < tracker.table.scopes.size := by
  cases kind with
  | symbol => exact h.table.root_lt
  | value => exact h.inside
  | label => exact h.inside

/-- A definition is new to the scopes that the uses so far can still see it in. -/
theorem waits_insert (h : Accounted tracker uses verdicts) {definition : Definition}
    (home : definition.scope = tracker.home definition.kind) {id : ScopeId} {reference : Reference}
    (waits : tracker.Waits id reference) :
    Waits { tracker with table := tracker.table.insert definition } id reference := by
  have inside : definition.scope < tracker.table.scopes.size := home ▸ h.home_lt definition.kind
  refine ⟨?_, waits.kind, waits.label, ?_⟩
  · change reference.scope < (tracker.table.insert definition).scopes.size
    rw [SymbolTable.size_insert]
    exact waits.inside
  · intro kind
    obtain ⟨closed, chain, unknown⟩ := waits.value kind
    refine ⟨closed, ?_, ?_⟩
    · change (tracker.table.insert definition).chain reference.scope =
        closed ++ (tracker.table.insert definition).chain id
      rw [SymbolTable.chain, SymbolTable.enclosing_insert inside, SymbolTable.chain,
        SymbolTable.enclosing_insert inside]
      exact chain
    · intro other member
      obtain ⟨notOpen, undefined⟩ := unknown other member
      refine ⟨notOpen, ?_⟩
      change (tracker.table.insert definition).valueIn reference.name other = none
      rw [SymbolTable.valueIn_insert_of_ne inside, undefined]
      rintro kindEq rfl
      rw [kindEq] at home
      exact notOpen (home ▸ home_mem_openScopes tracker (by decide))

theorem insert (h : Accounted tracker uses verdicts) {definition : Definition}
    (home : definition.scope = tracker.home definition.kind) :
    Accounted { tracker with table := tracker.table.insert definition } uses verdicts := by
  have inside : definition.scope < tracker.table.scopes.size := home ▸ h.home_lt definition.kind
  constructor
  · refine h.table.insert inside fun kind => ?_
    rw [home, kind]
    rfl
  · change tracker.outer.map (·.scope) = (tracker.table.insert definition).enclosing tracker.scope
    rw [SymbolTable.enclosing_insert inside, h.nested]
  · change tracker.scope < (tracker.table.insert definition).scopes.size
    rw [SymbolTable.size_insert]
    exact h.inside
  · intro frame member reference waitsHere
    exact h.waits_insert home (h.waits frame member reference waitsHere)
  · exact h.symbolUses
  · intro verdict member
    obtain ⟨kind, existing, closed, undefined⟩ := h.judged verdict member
    refine ⟨kind, ?_, closed, ?_⟩
    · change verdict.reference.scope < (tracker.table.insert definition).scopes.size
      rw [SymbolTable.size_insert]
      exact existing
    · change (tracker.table.insert definition).labelIn _ _ = none
      rw [SymbolTable.labelIn_insert_of_ne inside, undefined]
      intro kindEq here
      rw [kindEq] at home
      exact closed (here ▸ home ▸ home_mem_openScopes tracker (by decide))
  · obtain ⟨settled, resolved, all⟩ := h.complete
    refine ⟨settled, ?_, all⟩
    intro reference member
    obtain ⟨existing, known⟩ := resolved reference member
    refine ⟨?_, SymbolTable.isSome_resolve_insert inside known⟩
    change reference.scope < (tracker.table.insert definition).scopes.size
    rw [SymbolTable.size_insert]
    exact existing

theorem define (h : Accounted tracker uses verdicts) (kind : NameKind) (name : String)
    (span : Span) : Accounted (tracker.define kind name span).2.2 uses verdicts := by
  unfold Tracker.define
  split
  · exact h
  · exact h.insert rfl

theorem refer (h : Accounted tracker uses verdicts) (kind : NameKind) (name : String)
    (span : Span) :
    Accounted (tracker.refer kind name span).2 (uses ++ [(tracker.refer kind name span).1])
      verdicts := by
  obtain ⟨settled, resolved, all⟩ := h.complete
  by_cases isSymbol : kind = .symbol
  · subst isSymbol
    refine ⟨h.table, h.nested, h.inside, ?_, ?_, h.judged, settled, resolved, ?_⟩
    · intro frame member reference waitsHere
      obtain ⟨inside, other, label, value⟩ := h.waits frame member reference waitsHere
      exact ⟨inside, other, label, value⟩
    · intro reference member
      simp only [Tracker.refer, Array.toList_push, List.mem_append, List.mem_singleton] at member
      rcases member with member | rfl
      · exact h.symbolUses reference member
      · rfl
    · simp only [Tracker.refer, Array.toList_push]
      rw [← List.append_assoc]
      exact all.append_right _
  · have waitsNew : tracker.Waits tracker.scope ⟨kind, name, span, tracker.scope⟩ :=
      ⟨h.inside, isSymbol, fun _ => rfl, fun _ => ⟨[], rfl, by simp⟩⟩
    have noted : tracker.refer kind name span =
        (⟨kind, name, span, tracker.scope⟩,
          { tracker with
            current := { tracker.current with
              waiting := tracker.current.waiting.push ⟨kind, name, span, tracker.scope⟩ } }) := by
      cases kind with
      | symbol => exact absurd rfl isSymbol
      | value => rfl
      | label => rfl
    rw [noted]
    have keeps : ∀ {id : ScopeId} {reference : Reference}, tracker.Waits id reference →
        Waits { tracker with
          current := { tracker.current with
            waiting := tracker.current.waiting.push ⟨kind, name, span, tracker.scope⟩ } }
          id reference := by
      rintro id reference ⟨inside, other, label, value⟩
      exact ⟨inside, other, label, value⟩
    refine ⟨h.table, h.nested, h.inside, ?_, h.symbolUses, h.judged, settled, resolved, ?_⟩
    · intro frame member reference waitsHere
      rcases List.mem_cons.1 member with rfl | member
      · simp only [Array.toList_push, List.mem_append, List.mem_singleton] at waitsHere
        rcases waitsHere with waitsHere | rfl
        · exact keeps (h.waits tracker.current List.mem_cons_self reference waitsHere)
        · exact keeps waitsNew
      · exact keeps (h.waits frame (List.mem_cons_of_mem _ member) reference waitsHere)
    · rw [List.perm_iff_count] at all ⊢
      intro reference
      have total := all reference
      simp only [waiting, List.flatMap_cons, List.count_append, Array.toList_push] at total ⊢
      omega

/-- The invariant holds along every course. -/
theorem course (h : Accounted tracker uses verdicts) {more : List Reference}
    {others : List Unresolved} {last : Tracker} (steps : Course tracker more others last) :
    Accounted last (uses ++ more) (verdicts ++ others) := by
  induction steps with
  | refl => simpa using h
  | push _ ih => exact ih.push
  | pop _ ih =>
    rw [← List.append_assoc]
    exact ih.pop
  | define _ kind name span ih => exact ih.define kind name span
  | refer _ kind name span ih =>
    rw [← List.append_assoc]
    exact ih.refer kind name span

end Accounted

/-! ## The end of a module -/

theorem outer_popMany (count : Nat) (tracker : Tracker) :
    (tracker.popMany count).1.outer = tracker.outer.drop count := by
  induction count generalizing tracker with
  | zero => rfl
  | succ count ih =>
    change (tracker.pop.1.popMany count).1.outer = _
    rw [ih]
    cases around : tracker.outer with
    | nil => simp [Tracker.pop, around]
    | cons parent outer => simp [Tracker.pop, around]

/-- A use that waits at the very end is judged by whether it resolves. -/
theorem judgeAtEnd_eq {tracker : Tracker} {reference : Reference}
    (waits : tracker.Waits .root reference)
    (rootChain : tracker.table.chain .root = [ScopeId.root]) :
    judgeAtEnd tracker.table reference =
      if (tracker.table.resolve reference).isSome then none else some ⟨reference, .notDefined⟩ := by
  cases kind : reference.kind with
  | symbol => exact absurd kind waits.kind
  | label => simp only [judgeAtEnd, SymbolTable.resolve, kind, waits.label kind]
  | value =>
    obtain ⟨closed, chain, unknown⟩ := waits.value kind
    have found : tracker.table.resolve reference =
        tracker.table.valueIn reference.name .root := by
      have undefined : closed.findSome? (tracker.table.valueIn reference.name) = none :=
        List.findSome?_eq_none_iff.2 fun other member => (unknown other member).2
      simp only [SymbolTable.resolve, kind]
      rw [chain, rootChain, List.findSome?_append, undefined, Option.none_or]
      simp
    simp only [judgeAtEnd, kind, found]

private theorem perm_judge (judge : Reference → Option Unresolved) (table : SymbolTable)
    (reason : Reference → UnresolvedReason) (uses : List Reference)
    (h : ∀ reference ∈ uses, judge reference =
      if (table.resolve reference).isSome then none else some ⟨reference, reason reference⟩) :
    uses.Perm (uses.filter (fun reference => (table.resolve reference).isSome) ++
      (uses.filterMap judge).map (·.reference)) := by
  induction uses with
  | nil => simp
  | cons reference uses ih =>
    have rest := ih fun other member => h other (List.mem_cons_of_mem _ member)
    have here := h reference List.mem_cons_self
    by_cases known : (table.resolve reference).isSome = true
    · rw [if_pos known] at here
      simpa [List.filter_cons, known, here] using rest
    · rw [if_neg known] at here
      simp only [List.filter_cons, known, Bool.false_eq_true, if_false, List.filterMap_cons, here,
        List.map_cons]
      exact (rest.cons reference).trans List.perm_middle.symm

/-- Once the tracker has finished, every use has been judged by the final table: the ones that
resolve have no verdict, and every other one has exactly one. -/
theorem finish_complete {tracker : Tracker} {uses : List Reference} {verdicts : List Unresolved}
    (steps : Course .start uses verdicts tracker) :
    tracker.finish.1.WellFormed ∧
      ∃ settled : List Reference,
        (∀ reference ∈ settled, (tracker.finish.1.resolve reference).isSome) ∧
        (∀ verdict ∈ verdicts ++ tracker.finish.2,
          tracker.finish.1.resolve verdict.reference = none) ∧
        uses.Perm (settled ++ (verdicts ++ tracker.finish.2).map (·.reference)) := by
  let closed := (tracker.popMany tracker.outer.length).1
  let late := (tracker.popMany tracker.outer.length).2
  have accounted : Accounted closed uses (verdicts ++ late) := by
    have all := Accounted.start.course (steps.trans (Course.popMany tracker.outer.length tracker))
    simpa using all
  have noOuter : closed.outer = [] := by
    rw [outer_popMany, List.drop_length]
  have nested := accounted.nested
  rw [noOuter, List.map_nil] at nested
  have atRoot : closed.scope = ScopeId.root :=
    accounted.table.eq_root_of_enclosing_eq_nil accounted.inside nested.symm
  have rootChain : closed.table.chain .root = [ScopeId.root] := by
    rw [SymbolTable.chain, ← atRoot, ← nested]
  have waits : ∀ reference ∈ closed.current.waiting.toList, closed.Waits .root reference := by
    intro reference member
    rw [← atRoot]
    exact accounted.waits closed.current List.mem_cons_self reference member
  obtain ⟨settled, resolved, all⟩ := accounted.complete
  have values := perm_judge (judgeAtEnd closed.table) closed.table (fun _ => .notDefined)
    closed.current.waiting.toList fun reference member =>
      judgeAtEnd_eq (waits reference member) rootChain
  have symbols := perm_judge (judgeSymbol closed.table) closed.table (fun _ => .undeclared)
    closed.symbolUses.toList fun reference member => by
      simp only [judgeSymbol, SymbolTable.resolve, accounted.symbolUses reference member]
  refine ⟨accounted.table,
    settled ++
      closed.current.waiting.toList.filter
        (fun reference => (closed.table.resolve reference).isSome) ++
      closed.symbolUses.toList.filter
        (fun reference => (closed.table.resolve reference).isSome), ?_, ?_, ?_⟩
  · intro reference member
    rcases List.mem_append.1 member with member | member
    · rcases List.mem_append.1 member with member | member
      · exact (resolved reference member).2
      · exact (List.mem_filter.1 member).2
    · exact (List.mem_filter.1 member).2
  · intro verdict member
    have parts : verdict ∈ verdicts ++ late ∨
        verdict ∈ closed.current.waiting.toList.filterMap (judgeAtEnd closed.table) ∨
        verdict ∈ closed.symbolUses.toList.filterMap (judgeSymbol closed.table) := by
      have member' : verdict ∈ verdicts ++ (late ++
          closed.current.waiting.toList.filterMap (judgeAtEnd closed.table) ++
          closed.symbolUses.toList.filterMap (judgeSymbol closed.table)) := member
      simp only [List.mem_append] at member' ⊢
      tauto
    rcases parts with early | waiting | symbol
    · obtain ⟨kind, _, _, undefined⟩ := accounted.judged verdict early
      change closed.table.resolve verdict.reference = none
      rw [SymbolTable.resolve, kind]
      exact undefined
    · obtain ⟨reference, waitsHere, given⟩ := List.mem_filterMap.1 waiting
      rw [judgeAtEnd_eq (waits reference waitsHere) rootChain] at given
      split at given
      · cases given
      · rename_i unknown
        cases given
        exact Option.not_isSome_iff_eq_none.1 unknown
    · obtain ⟨reference, used, given⟩ := List.mem_filterMap.1 symbol
      rw [judgeSymbol] at given
      split at given
      · cases given
      · rename_i unknown
        cases given
        change closed.table.resolve reference = none
        rw [SymbolTable.resolve, accounted.symbolUses reference used]
        simpa using unknown
  · change uses.Perm (_ ++ (verdicts ++ (late ++
      closed.current.waiting.toList.filterMap (judgeAtEnd closed.table) ++
      closed.symbolUses.toList.filterMap (judgeSymbol closed.table))).map (·.reference))
    rw [List.perm_iff_count] at all values symbols ⊢
    intro reference
    have total := all reference
    have atEnd := values reference
    have ofSymbols := symbols reference
    simp only [waiting, noOuter, List.flatMap_cons, List.flatMap_nil, List.append_nil,
      List.count_append, List.map_append] at total atEnd ofSymbols ⊢
    omega

end CirText.Tracker
